import DikeProtocol.Vault.Agreement

/-!
# The limit of child credit

The credit drawn on a stake stays within its limit while the records of the
loans agree: a stake in use is encumbered, so it can only shrink when its debt
is settled, or when a position that is a child itself is liquidated.
-/

namespace DikeProtocol.Vault

open Lib

section Stakes

variable {v v' : VaultState} {u : Address} {x : ℤ}

/-- A settlement keeps the stakes. -/
theorem settleChildDebt_stakes {c : MarketId} {r : ℤ}
    (h : settleChildDebt v c u r = .ok (x, v')) : v'.rootStake = v.rootStake := by
  obtain ⟨_, rfl, _⟩ | ⟨_, rfl, _, _⟩ | ⟨_, _, _, rfl⟩ | ⟨_, _, _, _, rfl⟩ :=
    settleChildDebt_cases h
  all_goals rfl

/-- Paying down the children of a stake keeps the stakes. -/
theorem settleChildren_stakes (children : List MarketId) {pool pool' paid paid' : ℤ}
    (h : settleChildren v u pool paid children = .ok (pool', paid', v')) :
    v'.rootStake = v.rootStake := by
  refine settleChildren_keeps (I := fun s => s.rootStake = v.rootStake) ?_ children h rfl
  intro _ _ _ _ _ h1 hs
  exact (settleChildDebt_stakes h1).trans hs

/-- A default keeps the stakes. -/
theorem resolveParentDefault_stakes (hr : 0 ≤ v.insuranceReserve) {p : MarketId} {o : Outcome}
    (h : resolveParentDefault v p u o x = .ok v') : v'.rootStake = v.rootStake := by
  by_cases hx : 0 < x
  · obtain ⟨_, _, _, rfl, _⟩ := resolveParentDefault_ok hx hr h
    rfl
  · unfold resolveParentDefault at h
    rw [if_pos (by omega)] at h
    rw [← ok_ok.mp h]

/-- Withholding a claim keeps the stakes. -/
theorem withholdParentDebt_stakes (hr : 0 ≤ v.insuranceReserve) {m : MarketId} {o : Outcome}
    {g claim : ℤ} (hclaim : 0 ≤ claim) (hg : g = 0 → claim = 0)
    (h : withholdParentDebt v m u o g claim = .ok (x, v')) : v'.rootStake = v.rootStake := by
  obtain ⟨_, _, rfl⟩ | ⟨_, _, _, _, rfl⟩ | ⟨_, _, _, _, rfl⟩ | ⟨_, _, _, hd⟩ :=
    withholdParentDebt_cases h hclaim hg
  · rfl
  · rfl
  · rfl
  · have hkept := resolveParentDefault_stakes (by exact hr) hd
    exact hkept

/-- The settlement of a resolved redemption keeps the stakes. -/
theorem settleResolved_stakes (hv : Sane v) {m : MarketId} {final o : Outcome}
    {amount gross payout : ℤ} (hpos : 0 < amount)
    (h : settleResolved v m u final o amount = .ok (gross, payout, v')) :
    v'.rootStake = v.rootStake := by
  obtain ⟨v1, v2, paid, v3, withheld, h1, h2, h3, h4, _⟩ := settleResolved_steps h
  obtain ⟨_, hgross, hv1, carry, rfl⟩ := hv.grossPayout hpos h1
  obtain rfl := addRedeemed_ok h2
  have hv2 : Sane { v with
      invalidDustCarry := carry
      redeemed := v.redeemed.set (m, u, o) (v.redeemed (m, u, o) + amount) } := { hv1 with }
  obtain ⟨v2', hsettle, hdebit⟩ := repayUpstream_steps h3
  have hpaid := hv2.settled_bounds hsettle
  have hclaim := hpaid.2 hgross
  have hr := (hv2.settleChildDebt hsettle).reserve_nonneg
  have hkept := settleChildDebt_stakes hsettle
  have hv3 : v3.rootStake = v.rootStake ∧ 0 ≤ v3.insuranceReserve := by
    rw [hdebit]
    split <;> exact ⟨hkept, hr⟩
  exact (withholdParentDebt_stakes hv3.2 (by omega) (by omega) h4).trans hv3.1

/-- The settlement of a cancelled redemption keeps the stakes. -/
theorem settleCancelled_stakes (hv : Sane v) {m : MarketId} {o : Outcome} {amount payout : ℤ}
    (hpos : 0 < amount) (h : settleCancelled v m u o amount = .ok (payout, v')) :
    v'.rootStake = v.rootStake := by
  obtain ⟨gross, v1, withheld, h1, h2, _⟩ := settleCancelled_steps h
  obtain ⟨hvalue, rfl, hv1⟩ := hv.refundWithCarry hpos h1
  have hcarry := hv.carry m
  have hkept := withholdParentDebt_stakes hv1.reserve_nonneg (by omega) (fun hk => hk) h2
  exact hkept

/-- Retiring a claim shrinks one stake only. -/
theorem retireClaim_stakes {m : MarketId} {o : Outcome} {g : ℤ}
    (h : retireClaim v m u o g = .ok v') {k : MarketId × Address × Outcome} (hk : k.1 ≠ m) :
    v'.rootStake k = v.rootStake k := by
  unfold retireClaim at h
  split at h
  · obtain ⟨_, _, h⟩ := bind_ok.mp h
    obtain ⟨stakes, hstakes, h⟩ := bind_ok.mp h
    rw [← pure_ok.mp h, saturatingSub_ok hstakes]
    have hne : k ≠ (m, u, o) := fun heq => hk (by rw [heq])
    exact Store.set_get_of_ne _ _ hne
  · rw [← ok_ok.mp h]

/-- The stake whose tokens an invocation sells, and how many. -/
def VaultOp.sold : VaultOp → Option ((MarketId × Address × Outcome) × ℤ)
  | releaseTradePayout _ user m o sold _ => some ((m, user, o), sold)
  | liquidateRelease _ user _ m o sold _ => some ((m, user, o), sold)
  | liquidateChildRelease _ user _ m o sold _ => some ((m, user, o), sold)
  | _ => none

/-- Stakes only shrink by the tokens sold, or in the market that is redeemed. -/
theorem VaultOp.exec_stakes {ctx : Ctx} {w w' : World} (hw : Sane w.vault) {op : VaultOp}
    (h : op.exec ctx w = .ok w') {k : MarketId × Address × Outcome} (hk : op.redeems ≠ some k.1) :
    w.vault.rootStake k ≤ w'.vault.rootStake k ∨
      ∃ sold, op.sold = some (k, sold) ∧
      w'.vault.rootStake k = max (w.vault.rootStake k - sold) 0 := by
  have hsold : ∀ {v v1 : VaultState} {m : MarketId} {u : Address} {o : Outcome} {sold x : ℤ},
      extractProceeds v m u o sold x = .ok v1 → v.rootStake k ≤ v1.rootStake k ∨
        ((m, u, o) = k ∧ v1.rootStake k = max (v.rootStake k - sold) 0) := by
    intro v v1 m u o sold x h1
    obtain ⟨_, _, _, rfl⟩ := extractProceeds_steps h1
    dsimp only
    rw [Store.set_get]
    split
    · next hk =>
      subst hk
      exact Or.inr ⟨rfl, rfl⟩
    · exact Or.inl le_rfl
  cases op with
  | setAdmin admin =>
    obtain rfl := admin_ok h
    exact Or.inl le_rfl
  | upgrade wasmHash =>
    obtain ⟨_, _, h⟩ := bind_ok.mp h
    obtain rfl := pure_ok.mp h
    exact Or.inl le_rfl
  | setRole role module =>
    obtain rfl := admin_ok h
    exact Or.inl le_rfl
  | setTreasury treasury =>
    obtain rfl := admin_ok h
    exact Or.inl le_rfl
  | pause paused =>
    obtain rfl := admin_ok h
    exact Or.inl le_rfl
  | depositForMarket t user m x =>
    obtain ⟨_, _, _, v, _, hv, rfl⟩ := depositForMarket_steps h
    rw [recordDeposit_ok hv]
    exact Or.inl le_rfl
  | recordCashStake user m o x y =>
    obtain ⟨hx, rfl⟩ := recordCashStake_steps h
    left
    dsimp only
    rw [Store.set_get]
    split
    · next hk =>
      rw [hk]
      omega
    · exact le_rfl
  | fundChildPrediction user p c x => cases h
  | openChildCreditForTrade user p po c co x =>
    obtain ⟨_, _, _, _, _, _, v1, v2, h1, h2, rfl⟩ := openChildCreditForTrade_steps h
    obtain ⟨_, _, rfl⟩ := reallocateBacking_steps h2
    obtain ⟨_, _, _, _, hstake, _⟩ := recordLoan_links h1
    exact Or.inl (by dsimp only; rw [hstake])
  | repayChildCollateral t user c x =>
    obtain ⟨y, h⟩ := world_ok.mp h
    obtain ⟨_, _, v, b, hsettle, rfl⟩ := repayChildCollateral_steps h
    exact Or.inl (by dsimp only; rw [settleChildDebt_stakes hsettle])
  | releaseTradePayout t user m o sold x =>
    obtain ⟨_, _, _, _, _, v, b, h1, rfl⟩ := releaseTradePayout_steps h
    exact (hsold h1).imp_right (fun ⟨hk, hs⟩ => ⟨sold, by rw [← hk]; rfl, hs⟩)
  | liquidateRelease t user keeper p o sold x =>
    obtain ⟨y, h⟩ := world_ok.mp h
    obtain ⟨_, hx, _, _, v1, remainder, v2, v3, b, h1, h2, h3, rfl⟩ := liquidateRelease_steps h
    have hv2 := ((hw.extractProceeds h1).settleChildren _ (pool_pos hx).le h2).1
    dsimp only
    rw [resolveParentDefault_stakes hv2.reserve_nonneg h3, settleChildren_stakes _ h2]
    exact (hsold h1).imp_right (fun ⟨hk, hs⟩ => ⟨sold, by rw [← hk]; rfl, hs⟩)
  | liquidateChildRelease t user keeper c o sold x =>
    obtain ⟨y, h⟩ := world_ok.mp h
    obtain ⟨_, _, _, _, v1, v2, v3, b, h1, h2, h3, rfl⟩ := liquidateChildRelease_steps h
    have hv2 := (hw.extractProceeds h1).settleChildDebt h2
    have hdefault : v3.rootStake = v2.rootStake := by
      split at h3
      · exact resolveParentDefault_stakes hv2.reserve_nonneg h3
      · rw [ok_ok.mp h3]
    dsimp only
    rw [hdefault, settleChildDebt_stakes h2]
    exact (hsold h1).imp_right (fun ⟨hk, hs⟩ => ⟨sold, by rw [← hk]; rfl, hs⟩)
  | redeem t user m final o x =>
    obtain ⟨_, h⟩ := world_ok.mp h
    cases h
  | redeemResolved t user m o amount =>
    obtain ⟨y, h⟩ := world_ok.mp h
    obtain ⟨hpos, market, gross, v1, _, v2, _, _, _, _, hsettle, _, hretire, hpay⟩ :=
      redeemResolved_steps h
    obtain ⟨_, rfl⟩ := payRedemption_ok hpay
    have hm : k.1 ≠ m := fun heq => hk (by rw [heq]; rfl)
    left
    dsimp only
    rw [retireClaim_stakes hretire hm, settleResolved_stakes hw hpos hsettle]
  | redeemCancelled t user m o amount =>
    obtain ⟨y, h⟩ := world_ok.mp h
    obtain ⟨hpos, market, _, v1, _, _, _, _, _, hsettle, hpay⟩ := redeemCancelled_steps h
    obtain ⟨_, rfl⟩ := payRedemption_ok hpay
    left
    dsimp only
    rw [settleCancelled_stakes hw hpos hsettle]
  | assertPositionTransferAllowed sender m o x =>
    obtain ⟨_, _, h⟩ := bind_ok.mp h
    obtain rfl := pure_ok.mp h
    exact Or.inl le_rfl
  | lockBond t user r m x d =>
    obtain ⟨_, _, _, _, _, rfl⟩ := lockBond_ok h
    exact Or.inl le_rfl
  | releaseBond t user r x d =>
    obtain ⟨_, _, _, _, _, _, _, _, _, _, rfl⟩ := payBond_ok.mp h
    exact Or.inl le_rfl
  | slashBond t user r x d recipient =>
    obtain ⟨_, _, _, _, _, _, _, _, _, _, rfl⟩ := payBond_ok.mp h
    exact Or.inl le_rfl
  | collectFee m lp protocol cod =>
    obtain ⟨_, _, _, _, _, rfl⟩ := collectFee_steps h
    exact Or.inl le_rfl
  | claimLpFees t m lp x =>
    obtain ⟨_, _, _, _, rfl⟩ := claimLpFees_steps h
    exact Or.inl le_rfl
  | sweepProtocolFees t m =>
    obtain ⟨y, h⟩ := world_ok.mp h
    obtain ⟨_, _, _, _, _, rfl⟩ := sweepProtocolFees_steps h
    exact Or.inl le_rfl

end Stakes

/-- The credit drawn on a stake stays within the limit of the stake. -/
def WithinLimit (v : VaultState) (k : MarketId × Address × Outcome) : Prop :=
  0 ≤ v.rootStake k ∧ v.childUsedByOutcome k ≤ bpsOf (v.rootStake k) defaultChildCollateralBps

/-- Within the limit the credit still available is not negative. -/
theorem WithinLimit.available {w : World} {p : MarketId} {u : Address} {o : Outcome}
    (h : WithinLimit w.vault (p, u, o)) {x : ℤ} (hx : childAvailForOutcome w p u o = .ok x) :
    0 ≤ x := by
  obtain ⟨limit, hlimit, hx⟩ := bind_ok.mp hx
  obtain ⟨_, rfl⟩ := collateralLimit_ok hlimit
  obtain ⟨rfl, _⟩ := checkedSub_ok.mp hx
  have hfits := h.2
  omega

/-- A liquidated child position leaves enough of its own stake for the credit drawn on it. -/
def KeepsLimit (w : World) : VaultOp → Prop
  | .liquidateChildRelease _ user _ c o sold _ =>
    w.vault.childUsedByOutcome (c, user, o) ≤
      bpsOf (max (w.vault.rootStake (c, user, o) - sold) 0) defaultChildCollateralBps
  | _ => True

/-- While the records of a market's loans agree, its credit stays within the
limits through every invocation that does not redeem it. -/
theorem VaultOp.exec_withinLimit {ctx : Ctx} (hctx : Outside .vault ctx) {w w' : World}
    (hw : Sane w.vault) (hl : Linked w.vault) {p : MarketId} {u : Address} {op : VaultOp}
    (hop : KeepsAgreement w p op) (hlimit : KeepsLimit w op) (hp : op.redeems ≠ some p)
    (h : op.exec ctx w = .ok w') (hagree : LoansAgree w.vault p u) {o : Outcome}
    (hin : WithinLimit w.vault (p, u, o)) : WithinLimit w'.vault (p, u, o) := by
  have hagree' := op.exec_agrees hw hl hop h hagree
  by_cases hopens : op.opensCredit = true
  · cases op with
    | openChildCreditForTrade user q po c co x =>
      obtain ⟨_, _, _, _, _, hfits, v1, v2, h1, h2, rfl⟩ := openChildCreditForTrade_steps h
      obtain ⟨_, _, rfl⟩ := reallocateBacking_steps h2
      obtain ⟨_, _, _, _, hstake, _⟩ := recordLoan_links h1
      obtain ⟨_, _, _, _, _, _, rfl⟩ := recordLoan_ok h1
      unfold WithinLimit at hin ⊢
      dsimp only at hstake ⊢
      rw [hstake, Store.set_get]
      split
      · next hk =>
        rw [hk] at hin ⊢
        exact ⟨hin.1, hfits⟩
      · exact hin
    | _ => cases hopens
  · rw [Bool.not_eq_true] at hopens
    have hdebts := (op.exec_debts hctx hw hopens h).parentDebt (p, u, o)
    have hused := hagree.used o
    have hused' := hagree'.used o
    have hnonneg := hw.parentDebt_nonneg (p, u, o)
    obtain ⟨hstake, hfits⟩ := hin
    rcases op.exec_stakes hw h (k := (p, u, o)) hp with hgrows | ⟨sold, hsold, hshrinks⟩
    · have hmono := bpsOf_mono hstake hgrows defaultChildCollateralBps
      exact ⟨by omega, by omega⟩
    · have hleft : 0 ≤ max (w.vault.rootStake (p, u, o) - sold) 0 := by omega
      have hbound := bpsOf_nonneg hleft defaultChildCollateralBps
      unfold WithinLimit
      rw [hshrinks]
      refine ⟨hleft, ?_⟩
      -- the stake backs nothing any more, unless it belongs to a child
      cases op with
      | releaseTradePayout t user m o' sold' x =>
        obtain ⟨hk, _⟩ := Prod.mk.inj (Option.some.inj hsold)
        obtain ⟨_, _, _, _, hfree, _⟩ := releaseTradePayout_steps h
        rw [hk] at hfree
        omega
      | liquidateRelease t user keeper m o' sold' x =>
        obtain ⟨hk, _⟩ := Prod.mk.inj (Option.some.inj hsold)
        obtain ⟨y, h⟩ := world_ok.mp h
        have hcleared := (liquidateRelease_debts hw h).2
        rw [hk] at hcleared
        omega
      | liquidateChildRelease t user keeper c o' sold' x =>
        obtain ⟨hk, rfl⟩ := Prod.mk.inj (Option.some.inj hsold)
        unfold KeepsLimit at hlimit
        dsimp only at hlimit
        rw [hk] at hlimit
        omega
      | _ => cases hsold

end DikeProtocol.Vault
