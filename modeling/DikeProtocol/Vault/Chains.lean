import DikeProtocol.Vault.Bonds
import DikeProtocol.Vault.Steps
import DikeProtocol.Vault.Solvency

/-!
# Chains of child credit

Which market funded which of a user's positions is written only when credit is
opened. A chain has depth one while no market that was funded by credit is a
source of credit itself.
-/

namespace DikeProtocol.Vault

open Lib

/-- Two vaults with the same record of who funded what. -/
structure SameLinks (v v' : VaultState) : Prop where
  childParent : v'.childParent = v.childParent
  childParentOutcome : v'.childParentOutcome = v.childParentOutcome
  childMarketsOf : v'.childMarketsOf = v.childMarketsOf

namespace SameLinks

variable {v v' v'' : VaultState}

/-- Doing nothing keeps the links. -/
theorem refl (v : VaultState) : SameLinks v v := ⟨rfl, rfl, rfl⟩

/-- One function after another keeps the links when both do. -/
theorem trans (h : SameLinks v v') (h' : SameLinks v' v'') : SameLinks v v'' :=
  ⟨h'.childParent.trans h.childParent, h'.childParentOutcome.trans h.childParentOutcome,
    h'.childMarketsOf.trans h.childMarketsOf⟩

/-- A settlement keeps the links. -/
theorem settleChildDebt {c : MarketId} {u : Address} {r x : ℤ}
    (h : settleChildDebt v c u r = .ok (x, v')) : SameLinks v v' := by
  obtain ⟨_, rfl, _⟩ | ⟨_, rfl, _, _⟩ | ⟨_, _, _, rfl⟩ | ⟨_, _, _, _, rfl⟩ :=
    settleChildDebt_cases h
  · exact refl _
  · exact ⟨rfl, rfl, rfl⟩
  · exact ⟨rfl, rfl, rfl⟩
  · exact ⟨rfl, rfl, rfl⟩

/-- Paying down the children of a stake keeps the links. -/
theorem settleChildren (children : List MarketId) {u : Address} {pool pool' paid paid' : ℤ}
    (h : settleChildren v u pool paid children = .ok (pool', paid', v')) : SameLinks v v' := by
  refine settleChildren_keeps (I := fun s => SameLinks v s) ?_ children h (refl v)
  intro _ _ _ _ _ h1 hs
  exact hs.trans (settleChildDebt h1)

/-- A default keeps the links. -/
theorem resolveParentDefault (hr : 0 ≤ v.insuranceReserve) {p : MarketId} {u : Address}
    {o : Outcome}
    {x : ℤ} (h : resolveParentDefault v p u o x = .ok v') : SameLinks v v' := by
  by_cases hx : 0 < x
  · obtain ⟨_, _, _, rfl, _⟩ := resolveParentDefault_ok hx hr h
    exact ⟨rfl, rfl, rfl⟩
  · unfold Vault.resolveParentDefault at h
    rw [if_pos (by omega)] at h
    rw [← ok_ok.mp h]
    exact refl _

/-- Withholding a claim keeps the links. -/
theorem withholdParentDebt (hr : 0 ≤ v.insuranceReserve) {m : MarketId} {u : Address} {o : Outcome}
    {g claim x : ℤ} (hclaim : 0 ≤ claim) (hg : g = 0 → claim = 0)
    (h : withholdParentDebt v m u o g claim = .ok (x, v')) : SameLinks v v' := by
  obtain ⟨_, _, rfl⟩ | ⟨_, _, _, _, rfl⟩ | ⟨_, _, _, _, rfl⟩ | ⟨_, _, _, hd⟩ :=
    withholdParentDebt_cases h hclaim hg
  · exact refl _
  · exact ⟨rfl, rfl, rfl⟩
  · exact ⟨rfl, rfl, rfl⟩
  · have hlinks := resolveParentDefault (by exact hr) hd
    exact ⟨hlinks.childParent, hlinks.childParentOutcome, hlinks.childMarketsOf⟩

/-- The upstream share of a claim keeps the links. -/
theorem repayUpstream {m : MarketId} {u : Address} {claim x : ℤ}
    (h : repayUpstream v m u claim = .ok (x, v')) : SameLinks v v' := by
  obtain ⟨v1, h1, rfl⟩ := repayUpstream_steps h
  have hlinks := settleChildDebt h1
  split
  · exact ⟨hlinks.childParent, hlinks.childParentOutcome, hlinks.childMarketsOf⟩
  · exact hlinks

/-- The worth of redeemed tokens keeps the links. -/
theorem grossPayout {m : MarketId} {final o : Outcome} {amount x : ℤ}
    (h : grossPayout v m final o amount = .ok (x, v')) : SameLinks v v' := by
  rcases grossPayout_carry h with rfl | ⟨carry, rfl⟩
  · exact refl _
  · exact ⟨rfl, rfl, rfl⟩

/-- The settlement of a resolved redemption keeps the links. -/
theorem settleResolved (hv : Sane v) {m : MarketId} {u : Address} {final o : Outcome}
    {amount gross payout : ℤ} (hpos : 0 < amount)
    (h : settleResolved v m u final o amount = .ok (gross, payout, v')) : SameLinks v v' := by
  obtain ⟨v1, v2, paid, v3, withheld, h1, h2, h3, h4, _⟩ := settleResolved_steps h
  obtain ⟨_, hgross, hv1, _⟩ := hv.grossPayout hpos h1
  have hv2 : Sane v2 := by
    rw [addRedeemed_ok h2]
    exact { hv1 with }
  have hadd : SameLinks v1 v2 := by
    rw [addRedeemed_ok h2]
    exact ⟨rfl, rfl, rfl⟩
  obtain ⟨v2', hsettle, hdebit⟩ := repayUpstream_steps h3
  have hpaid := hv2.settled_bounds hsettle
  have hsane := hv2.settleChildDebt hsettle
  have hr : 0 ≤ v3.insuranceReserve := by
    rw [hdebit]
    split
    · exact hsane.reserve_nonneg
    · exact hsane.reserve_nonneg
  have hclaim := hpaid.2 hgross
  exact ((grossPayout h1).trans hadd).trans
    ((repayUpstream h3).trans (withholdParentDebt hr (by omega) (by omega) h4))

/-- The settlement of a cancelled redemption keeps the links. -/
theorem settleCancelled (hv : Sane v) {m : MarketId} {u : Address} {o : Outcome}
    {amount payout : ℤ} (hpos : 0 < amount)
    (h : settleCancelled v m u o amount = .ok (payout, v')) : SameLinks v v' := by
  obtain ⟨gross, v1, withheld, h1, h2, _⟩ := settleCancelled_steps h
  obtain ⟨hgross, rfl, hv1⟩ := hv.refundWithCarry hpos h1
  have hm := hv.carry m
  have hcarry : SameLinks v { v with
      invalidDustCarry := v.invalidDustCarry.set m ((v.invalidDustCarry m + amount) % 2) } :=
    ⟨rfl, rfl, rfl⟩
  exact hcarry.trans (withholdParentDebt hv.reserve_nonneg (by omega) (fun hg => hg) h2)

end SameLinks

/-- Invocations that open child credit. -/
def VaultOp.opensCredit : VaultOp → Bool
  | openChildCreditForTrade _ _ _ _ _ _ => true
  | _ => false

/-- Nothing but opening credit writes who funded what. -/
theorem VaultOp.exec_links {ctx : Ctx} {w w' : World} (hw : Sane w.vault) {op : VaultOp}
    (hop : op.opensCredit = false) (h : op.exec ctx w = .ok w') : SameLinks w.vault w'.vault := by
  cases op with
  | setAdmin admin =>
    obtain rfl := admin_ok h
    exact ⟨rfl, rfl, rfl⟩
  | upgrade wasmHash =>
    obtain ⟨_, _, h⟩ := bind_ok.mp h
    obtain rfl := pure_ok.mp h
    exact .refl _
  | setRole role module =>
    obtain rfl := admin_ok h
    exact ⟨rfl, rfl, rfl⟩
  | setTreasury treasury =>
    obtain rfl := admin_ok h
    exact ⟨rfl, rfl, rfl⟩
  | pause paused =>
    obtain rfl := admin_ok h
    exact ⟨rfl, rfl, rfl⟩
  | depositForMarket t user m x =>
    obtain ⟨_, _, _, v, _, hv, rfl⟩ := depositForMarket_steps h
    rw [recordDeposit_ok hv]
    exact ⟨rfl, rfl, rfl⟩
  | recordCashStake user m o x y =>
    obtain ⟨_, rfl⟩ := recordCashStake_steps h
    exact ⟨rfl, rfl, rfl⟩
  | fundChildPrediction user p c x => cases h
  | openChildCreditForTrade user p po c co x => cases hop
  | repayChildCollateral t user c x =>
    obtain ⟨y, h⟩ := world_ok.mp h
    obtain ⟨_, _, v, _, hsettle, rfl⟩ := repayChildCollateral_steps h
    exact .settleChildDebt hsettle
  | releaseTradePayout t user m o sold x =>
    obtain ⟨_, _, _, _, _, v, _, hv, rfl⟩ := releaseTradePayout_steps h
    obtain ⟨_, _, _, rfl⟩ := extractProceeds_steps hv
    exact ⟨rfl, rfl, rfl⟩
  | liquidateRelease t user keeper p o sold x =>
    obtain ⟨y, h⟩ := world_ok.mp h
    obtain ⟨_, hx, _, _, v1, remainder, v2, v3, b, h1, h2, h3, rfl⟩ := liquidateRelease_steps h
    have hpool := pool_pos hx
    have hv2 := ((hw.extractProceeds h1).settleChildren _ (by omega) h2).1
    obtain ⟨_, _, _, rfl⟩ := extractProceeds_steps h1
    have hchildren := SameLinks.settleChildren _ h2
    have hdefault := SameLinks.resolveParentDefault hv2.reserve_nonneg h3
    exact ⟨hdefault.childParent.trans hchildren.childParent,
      hdefault.childParentOutcome.trans hchildren.childParentOutcome,
      hdefault.childMarketsOf.trans hchildren.childMarketsOf⟩
  | liquidateChildRelease t user keeper c o sold x =>
    obtain ⟨y, h⟩ := world_ok.mp h
    obtain ⟨_, _, _, _, v1, v2, v3, b, h1, h2, h3, rfl⟩ := liquidateChildRelease_steps h
    have hv2 := (hw.extractProceeds h1).settleChildDebt h2
    obtain ⟨_, _, _, rfl⟩ := extractProceeds_steps h1
    have hsettled := SameLinks.settleChildDebt h2
    have hdefault : SameLinks v2 v3 := by
      split at h3
      · exact SameLinks.resolveParentDefault hv2.reserve_nonneg h3
      · rw [← ok_ok.mp h3]
        exact .refl _
    exact ⟨hdefault.childParent.trans hsettled.childParent,
      hdefault.childParentOutcome.trans hsettled.childParentOutcome,
      hdefault.childMarketsOf.trans hsettled.childMarketsOf⟩
  | redeem t user m final o x =>
    obtain ⟨_, h⟩ := world_ok.mp h
    cases h
  | redeemResolved t user m o amount =>
    obtain ⟨y, h⟩ := world_ok.mp h
    obtain ⟨hpos, market, gross, v1, _, v2, _, _, _, _, hsettle, _, hretire, hpay⟩ :=
      redeemResolved_steps h
    obtain ⟨_, rfl⟩ := payRedemption_ok hpay
    obtain ⟨_, _, rfl⟩ := retireClaim_ok hretire
    have hlinks := SameLinks.settleResolved hw hpos hsettle
    exact ⟨hlinks.childParent, hlinks.childParentOutcome, hlinks.childMarketsOf⟩
  | redeemCancelled t user m o amount =>
    obtain ⟨y, h⟩ := world_ok.mp h
    obtain ⟨hpos, market, _, v1, _, _, _, _, _, hsettle, hpay⟩ := redeemCancelled_steps h
    obtain ⟨_, rfl⟩ := payRedemption_ok hpay
    have hlinks := SameLinks.settleCancelled hw hpos hsettle
    exact ⟨hlinks.childParent, hlinks.childParentOutcome, hlinks.childMarketsOf⟩
  | assertPositionTransferAllowed sender m o x =>
    obtain ⟨_, _, h⟩ := bind_ok.mp h
    obtain rfl := pure_ok.mp h
    exact .refl _
  | lockBond t user r m x d =>
    obtain ⟨_, _, _, _, _, rfl⟩ := lockBond_ok h
    exact ⟨rfl, rfl, rfl⟩
  | releaseBond t user r x d =>
    obtain ⟨_, _, _, _, _, _, _, _, _, _, rfl⟩ := payBond_ok.mp h
    exact ⟨rfl, rfl, rfl⟩
  | slashBond t user r x d recipient =>
    obtain ⟨_, _, _, _, _, _, _, _, _, _, rfl⟩ := payBond_ok.mp h
    exact ⟨rfl, rfl, rfl⟩
  | collectFee m lp protocol cod =>
    obtain ⟨_, _, _, _, _, rfl⟩ := collectFee_steps h
    exact ⟨rfl, rfl, rfl⟩
  | claimLpFees t m lp x =>
    obtain ⟨_, _, _, _, rfl⟩ := claimLpFees_steps h
    exact ⟨rfl, rfl, rfl⟩
  | sweepProtocolFees t m =>
    obtain ⟨y, h⟩ := world_ok.mp h
    obtain ⟨_, _, _, _, _, rfl⟩ := sweepProtocolFees_steps h
    exact ⟨rfl, rfl, rfl⟩

/-- Nothing but opening credit raises a debt. -/
theorem VaultOp.exec_debts {ctx : Ctx} (hctx : Outside .vault ctx) {w w' : World}
    (hw : Sane w.vault) {op : VaultOp} (hop : op.opensCredit = false) (h : op.exec ctx w = .ok w') :
    NoNewDebt w.vault w'.vault := by
  cases op with
  | setAdmin admin =>
    obtain rfl := admin_ok h
    exact .of_eq rfl rfl
  | upgrade wasmHash =>
    obtain ⟨_, _, h⟩ := bind_ok.mp h
    obtain rfl := pure_ok.mp h
    exact .refl _
  | setRole role module =>
    obtain rfl := admin_ok h
    exact .of_eq rfl rfl
  | setTreasury treasury =>
    obtain rfl := admin_ok h
    exact .of_eq rfl rfl
  | pause paused =>
    obtain rfl := admin_ok h
    exact .of_eq rfl rfl
  | depositForMarket t user m x => exact (depositForMarket_calm hctx hw h).debts
  | recordCashStake user m o x y => exact (recordCashStake_calm hw h).debts
  | fundChildPrediction user p c x => cases h
  | openChildCreditForTrade user p po c co x => cases hop
  | repayChildCollateral t user c x =>
    obtain ⟨y, h⟩ := world_ok.mp h
    exact repayChildCollateral_debts hw h
  | releaseTradePayout t user m o sold x => exact (releaseTradePayout_calm hw h).debts
  | liquidateRelease t user keeper p o sold x =>
    obtain ⟨y, h⟩ := world_ok.mp h
    exact (liquidateRelease_debts hw h).1
  | liquidateChildRelease t user keeper c o sold x =>
    obtain ⟨y, h⟩ := world_ok.mp h
    exact liquidateChildRelease_debts hw h
  | redeem t user m final o x =>
    obtain ⟨_, h⟩ := world_ok.mp h
    cases h
  | redeemResolved t user m o amount =>
    obtain ⟨y, h⟩ := world_ok.mp h
    exact (redeemResolved_debts hw h).1
  | redeemCancelled t user m o amount =>
    obtain ⟨y, h⟩ := world_ok.mp h
    exact (redeemCancelled_debts hw h).1
  | assertPositionTransferAllowed sender m o x =>
    obtain ⟨_, _, h⟩ := bind_ok.mp h
    obtain rfl := pure_ok.mp h
    exact .refl _
  | lockBond t user r m x d => exact (lockBond_calm hctx hw h).debts
  | releaseBond t user r x d => exact (payBond_calm hw h).debts
  | slashBond t user r x d recipient => exact (payBond_calm hw h).debts
  | collectFee m lp protocol cod => exact (collectFee_calm hw h).debts
  | claimLpFees t m lp x => exact (claimLpFees_calm hw h).debts
  | sweepProtocolFees t m =>
    obtain ⟨y, h⟩ := world_ok.mp h
    exact (sweepProtocolFees_calm hw h).debts

/-- No market that a user's credit funded is itself the source of the user's credit. -/
def DepthOne (v : VaultState) : Prop :=
  ∀ u, ¬∃ a b c, a ≠ 0 ∧ b ≠ 0 ∧ v.childParent (b, u) = a ∧ v.childParent (c, u) = b

/-- Credit into a market that is not the source of any of the user's credit yet. -/
def IntoLeaf (w : World) : VaultOp → Prop
  | .openChildCreditForTrade user _ _ c _ _ => c = 0 ∨ ∀ d, w.vault.childParent (d, user) ≠ c
  | _ => True

/-- The same for a step of a run. -/
def VaultStep.IntoLeaf (w : World) : VaultStep → Prop
  | .call _ op => Vault.IntoLeaf w op
  | .outside _ => True

/-- Vaults with the same links have the same chains. -/
theorem DepthOne.same {v v' : VaultState} (hv : DepthOne v) (h : SameLinks v v') : DepthOne v' := by
  intro u
  rw [h.childParent]
  exact hv u

/-- Credit from a market without a parent into a market without children makes no chain. -/
theorem DepthOne.openCredit {ctx : Ctx} {w w' : World} {user : Address} {p c : MarketId}
    {po co : Outcome} {x : ℤ} (hv : DepthOne w.vault)
    (hleaf : c = 0 ∨ ∀ d, w.vault.childParent (d, user) ≠ c)
    (h : openChildCreditForTrade ctx w user p po c co x = .ok w') : DepthOne w'.vault := by
  obtain ⟨_, hne, _, hroot, _, _, v1, v2, hloan, hmove, rfl⟩ := openChildCreditForTrade_steps h
  obtain ⟨_, hlink, _⟩ := recordLoan_links hloan
  obtain ⟨_, _, rfl⟩ := reallocateBacking_steps hmove
  rintro u ⟨a, b, d, ha, hb, hba, hdb⟩
  dsimp only at hba hdb
  rw [hlink] at hba hdb
  split at hba
  · next hfirst =>
    rw [if_pos hfirst, Store.set_get] at hdb
    rw [Store.set_get] at hba
    by_cases hbc : (b, u) = (c, user)
    · -- the funded market would be a source already, of itself or of another
      obtain ⟨rfl, rfl⟩ := Prod.mk.inj hbc
      have hleaf' := hleaf.resolve_left hb
      split at hdb
      · exact hne hdb
      · exact hleaf' d hdb
    · rw [if_neg hbc] at hba
      split at hdb
      · next hd =>
        obtain ⟨rfl, rfl⟩ := Prod.mk.inj hd
        rw [← hdb, hroot] at hba
        exact ha hba.symm
      · exact hv u ⟨a, b, d, ha, hb, hba, hdb⟩
  · next hfirst =>
    rw [if_neg hfirst] at hdb
    exact hv u ⟨a, b, d, ha, hb, hba, hdb⟩

/-- In a run whose credit only goes into markets that are no source of the
user's credit, every chain has depth one. -/
theorem depthOne_of_intoLeaf (kept : List Asset) {w : World}
    (h : (vaultSystem kept).Guarded (fun w step => step.IntoLeaf w) w) : DepthOne w.vault := by
  refine h.invariant_with (J := fun w => Sane w.vault) (I := fun w => DepthOne w.vault)
    (fun w hw => reachable_sane hw) ?_ ?_
  · rintro w ⟨⟨admin, treasury, roles, hv⟩, _⟩
    rw [hv]
    rintro u ⟨a, b, c, ha, _, hba, _⟩
    exact ha hba.symm
  · intro w step w' hsane hw hok hstep
    cases step with
    | call ctx op =>
      obtain ⟨_, hexec⟩ := vaultSystem_call hstep
      cases hopens : op.opensCredit with
      | false => exact hw.same (op.exec_links hsane hopens hexec)
      | true =>
        cases op with
        | openChildCreditForTrade user p po c co x => exact hw.openCredit hok hexec
        | _ => cases hopens
    | outside s =>
      obtain ⟨_, rfl⟩ := vaultSystem_outside hstep
      exact hw

/-- Alice deposits 100 into each of two markets. -/
def twoStakes : List VaultStep :=
  [.outside (sampleSurroundings [sampleMarket 1 .live none, sampleMarket 2 .live none,
      sampleMarket 3 .live none] sampleLaunch.bank),
    .call aliceTrades (.depositForMarket sampleToken alice 1 100),
    .call aliceTrades (.recordCashStake alice 1 .yes 100 100),
    .call aliceTrades (.depositForMarket sampleToken alice 2 100),
    .call aliceTrades (.recordCashStake alice 2 .yes 100 100)]

/-- Alice borrows from market 1 into market 2. -/
def firstLoan : VaultStep := .call aliceTrades (.openChildCreditForTrade alice 1 .yes 2 .yes 30)

/-- Alice borrows from market 2 into market 3. -/
def secondLoan : VaultStep := .call aliceTrades (.openChildCreditForTrade alice 2 .yes 3 .yes 30)

/-- While nobody has a parent market, a first loan makes a chain of depth one. -/
theorem depthOne_after_loan : ∃ w, (vaultSystem []).runs (deploy sampleLaunch)
    (twoStakes ++ [firstLoan]) = .ok w ∧ w.vault.childParent (2, alice) = 1 ∧ DepthOne w.vault := by
  have hinit : (vaultSystem []).Init (deploy sampleLaunch) := ⟨⟨_, _, _, rfl⟩, rfl⟩
  have hstakes : ∀ step ∈ twoStakes, ∀ w, step.IntoLeaf w := by
    intro step hs w
    simp only [twoStakes, List.mem_cons, List.not_mem_nil, or_false] at hs
    rcases hs with rfl | rfl | rfl | rfl | rfl <;> trivial
  obtain ⟨w1, hw1, hfresh⟩ := System.runs_of_decide (S := vaultSystem []) (deploy sampleLaunch)
    twoStakes (fun w => w.vault.childParent.written = ∅) (by decide +kernel)
  obtain ⟨w, hw, hparent⟩ := System.runs_of_decide (S := vaultSystem []) (deploy sampleLaunch)
    (twoStakes ++ [firstLoan]) (fun w => w.vault.childParent (2, alice) = 1) (by decide +kernel)
  have hstep : (vaultSystem []).runs w1 [firstLoan] = .ok w := System.runs_append hw1 hw
  have hleaf : firstLoan.IntoLeaf w1 := by
    right
    intro d
    rw [w1.vault.childParent.get_unwritten _ (by simp [of_decide_eq_true hfresh])]
    decide
  have hbefore : (vaultSystem []).Guarded (fun w step => step.IntoLeaf w) w1 :=
    (System.Guarded.runs (.init hinit) twoStakes hstakes hw1).mono (fun w step h => h w)
  have hafter := hbefore.next hleaf (System.runs_singleton.mp hstep)
  exact ⟨w, hw, of_decide_eq_true hparent, depthOne_of_intoLeaf [] hafter⟩

/-- Opening the second loan first is not refused: market 2 is then funded by
alice's credit and the source of her credit. -/
theorem not_always_depthOne :
    ¬∀ (kept : List Asset) (w : World), (vaultSystem kept).Reachable w → DepthOne w.vault := by
  intro hall
  have hinit : (vaultSystem []).Init (deploy sampleLaunch) := ⟨⟨_, _, _, rfl⟩, rfl⟩
  obtain ⟨w, hw, hlinks⟩ := System.runs_of_decide (S := vaultSystem []) (deploy sampleLaunch)
    (twoStakes ++ [secondLoan, firstLoan])
    (fun w => w.vault.childParent (2, alice) = 1 ∧ w.vault.childParent (3, alice) = 2)
    (by decide +kernel)
  have hboth := of_decide_eq_true hlinks
  have hdepth := hall [] w (System.Reachable.runs (.init hinit) _ hw) alice
  exact hdepth ⟨1, 2, 3, by decide, by decide, hboth.1, hboth.2⟩

end DikeProtocol.Vault
