import DikeProtocol.Vault.Limits
import DikeProtocol.Vault.Loans

/-!
# What the market maker's counterparties leave alone

The credit recorded against an account's stakes moves only through invocations
about that account, and a market's bucket of liquidity fees only through the
two calls that book into it and pay out of it.
-/

namespace DikeProtocol.Vault

open Lib

/-- Two vaults with the same credit recorded against one account's stakes. -/
def SameUse (u : Address) (v v' : VaultState) : Prop :=
  ∀ m o, v'.childUsedByOutcome (m, u, o) = v.childUsedByOutcome (m, u, o)

namespace SameUse

variable {u user : Address} {v v' v'' : VaultState} {x : ℤ}

/-- Doing nothing keeps the records. -/
theorem refl (u : Address) (v : VaultState) : SameUse u v v := fun _ _ => rfl

/-- One function after another keeps the records when both do. -/
theorem trans (h : SameUse u v v') (h' : SameUse u v' v'') : SameUse u v v'' :=
  fun m o => (h' m o).trans (h m o)

/-- A record of another account does not matter. -/
theorem set (hne : u ≠ user) {used : Store (MarketId × Address × Outcome) ℤ}
    {m : MarketId} {o : Outcome} (h : v'.childUsedByOutcome = used.set (m, user, o) x)
    (hv : used = v.childUsedByOutcome) : SameUse u v v' := by
  intro m' o'
  have hk : (m', u, o') ≠ (m, user, o) := fun hk => hne (Prod.mk.inj (Prod.mk.inj hk).2).1
  rw [h, Store.set_get_of_ne _ _ hk, hv]

/-- A settlement keeps the records of everyone else. -/
theorem settleChildDebt (hne : u ≠ user) {c : MarketId} {r : ℤ}
    (h : settleChildDebt v c user r = .ok (x, v')) : SameUse u v v' := by
  obtain ⟨_, rfl, _⟩ | ⟨_, rfl, _, _⟩ | ⟨_, _, _, rfl⟩ | ⟨_, _, _, _, rfl⟩ :=
    settleChildDebt_cases h
  · exact refl u _
  · exact refl u _
  · exact refl u _
  · exact set hne rfl rfl

/-- Paying down the children of a stake keeps the records of everyone else. -/
theorem settleChildren (hne : u ≠ user) (children : List MarketId) {pool pool' paid paid' : ℤ}
    (h : settleChildren v user pool paid children = .ok (pool', paid', v')) : SameUse u v v' := by
  refine settleChildren_keeps (I := fun s => SameUse u v s) ?_ children h (refl u v)
  intro _ _ _ _ _ h1 hs
  exact hs.trans (settleChildDebt hne h1)

/-- A default keeps the records of everyone else. -/
theorem resolveParentDefault (hne : u ≠ user) (hr : 0 ≤ v.insuranceReserve) {p : MarketId}
    {o : Outcome} (h : resolveParentDefault v p user o x = .ok v') : SameUse u v v' := by
  by_cases hx : 0 < x
  · obtain ⟨_, _, _, rfl, _, hother, _⟩ := resolveParentDefault_ok hx hr h
    intro m' o'
    exact hother _ (fun hk => hne (Prod.mk.inj (Prod.mk.inj hk).2).1)
  · unfold Vault.resolveParentDefault at h
    rw [if_pos (by omega)] at h
    rw [← ok_ok.mp h]
    exact refl u _

/-- Withholding a claim keeps the records of everyone else. -/
theorem withholdParentDebt (hne : u ≠ user) (hr : 0 ≤ v.insuranceReserve) {m : MarketId}
    {o : Outcome} {g claim : ℤ} (hclaim : 0 ≤ claim) (hg : g = 0 → claim = 0)
    (h : withholdParentDebt v m user o g claim = .ok (x, v')) : SameUse u v v' := by
  obtain ⟨_, _, rfl⟩ | ⟨_, _, _, _, rfl⟩ | ⟨_, _, _, _, rfl⟩ | ⟨_, _, _, hd⟩ :=
    withholdParentDebt_cases h hclaim hg
  · exact refl u _
  · exact set hne rfl rfl
  · exact refl u _
  · have hkept := resolveParentDefault hne (by exact hr) hd
    exact hkept

/-- The settlement of a resolved redemption keeps the records of everyone else. -/
theorem settleResolved (hne : u ≠ user) (hv : Sane v) {m : MarketId} {final o : Outcome}
    {amount gross payout : ℤ} (hpos : 0 < amount)
    (h : settleResolved v m user final o amount = .ok (gross, payout, v')) : SameUse u v v' := by
  obtain ⟨v1, v2, paid, v3, withheld, h1, h2, h3, h4, _⟩ := settleResolved_steps h
  obtain ⟨_, hgross, hv1, carry, rfl⟩ := hv.grossPayout hpos h1
  obtain rfl := addRedeemed_ok h2
  have hv2 : Sane { v with
      invalidDustCarry := carry
      redeemed := v.redeemed.set (m, user, o) (v.redeemed (m, user, o) + amount) } := { hv1 with }
  obtain ⟨v2', hsettle, hdebit⟩ := repayUpstream_steps h3
  have hpaid := hv2.settled_bounds hsettle
  have hclaim := hpaid.2 hgross
  have hr := (hv2.settleChildDebt hsettle).reserve_nonneg
  have hsettled := SameUse.settleChildDebt hne hsettle
  have hkept : SameUse u v v2' := hsettled
  have hv3 : SameUse u v v3 ∧ 0 ≤ v3.insuranceReserve := by
    rw [hdebit]
    split <;> exact ⟨hkept, hr⟩
  exact hv3.1.trans (withholdParentDebt hne hv3.2 (by omega) (by omega) h4)

/-- The settlement of a cancelled redemption keeps the records of everyone else. -/
theorem settleCancelled (hne : u ≠ user) (hv : Sane v) {m : MarketId} {o : Outcome}
    {amount payout : ℤ} (hpos : 0 < amount)
    (h : settleCancelled v m user o amount = .ok (payout, v')) : SameUse u v v' := by
  obtain ⟨gross, v1, withheld, h1, h2, _⟩ := settleCancelled_steps h
  obtain ⟨hvalue, rfl, hv1⟩ := hv.refundWithCarry hpos h1
  have hcarry := hv.carry m
  have hkept := withholdParentDebt hne hv1.reserve_nonneg (by omega) (fun hk => hk) h2
  exact hkept

end SameUse

/-- The account whose credit an invocation is about. -/
def VaultOp.holder : VaultOp → Option Address
  | openChildCreditForTrade user _ _ _ _ _ => some user
  | repayChildCollateral _ user _ _ => some user
  | liquidateRelease _ user _ _ _ _ _ => some user
  | liquidateChildRelease _ user _ _ _ _ _ => some user
  | redeemResolved _ user _ _ _ => some user
  | redeemCancelled _ user _ _ _ => some user
  | _ => none

/-- An invocation keeps the credit recorded against every account it is not about. -/
theorem VaultOp.exec_use {ctx : Ctx} {w w' : World} (hw : Sane w.vault) {op : VaultOp}
    (h : op.exec ctx w = .ok w') {u : Address} (hu : op.holder ≠ some u) :
    SameUse u w.vault w'.vault := by
  cases op with
  | setAdmin admin =>
    obtain rfl := admin_ok h
    exact .refl u _
  | upgrade wasmHash =>
    obtain ⟨_, _, h⟩ := bind_ok.mp h
    obtain rfl := pure_ok.mp h
    exact .refl u _
  | setRole role module =>
    obtain rfl := admin_ok h
    exact .refl u _
  | setTreasury treasury =>
    obtain rfl := admin_ok h
    exact .refl u _
  | pause paused =>
    obtain rfl := admin_ok h
    exact .refl u _
  | depositForMarket t user m x =>
    obtain ⟨_, _, _, v, _, hv, rfl⟩ := depositForMarket_steps h
    rw [recordDeposit_ok hv]
    exact .refl u _
  | recordCashStake user m o x y =>
    obtain ⟨_, rfl⟩ := recordCashStake_steps h
    exact .refl u _
  | fundChildPrediction user p c x => cases h
  | openChildCreditForTrade user p po c co x =>
    have hne : u ≠ user := fun hk => hu (by rw [hk]; rfl)
    obtain ⟨_, _, _, _, _, _, v1, v2, h1, h2, rfl⟩ := openChildCreditForTrade_steps h
    obtain ⟨_, _, rfl⟩ := reallocateBacking_steps h2
    obtain ⟨_, _, _, _, _, _, rfl⟩ := recordLoan_ok h1
    exact .set hne rfl rfl
  | repayChildCollateral t user c x =>
    have hne : u ≠ user := fun hk => hu (by rw [hk]; rfl)
    obtain ⟨y, h⟩ := world_ok.mp h
    obtain ⟨_, _, v, b, hsettle, rfl⟩ := repayChildCollateral_steps h
    exact .settleChildDebt hne hsettle
  | releaseTradePayout t user m o sold x =>
    obtain ⟨_, _, _, _, _, v, b, h1, rfl⟩ := releaseTradePayout_steps h
    obtain ⟨_, _, _, rfl⟩ := extractProceeds_steps h1
    exact .refl u _
  | liquidateRelease t user keeper p o sold x =>
    have hne : u ≠ user := fun hk => hu (by rw [hk]; rfl)
    obtain ⟨y, h⟩ := world_ok.mp h
    obtain ⟨_, hx, _, _, v1, remainder, v2, v3, b, h1, h2, h3, rfl⟩ := liquidateRelease_steps h
    have hv2 := ((hw.extractProceeds h1).settleChildren _ (pool_pos hx).le h2).1
    have hsold : SameUse u w.vault v1 := by
      obtain ⟨_, _, _, rfl⟩ := extractProceeds_steps h1
      exact .refl u _
    exact (hsold.trans (.settleChildren hne _ h2)).trans
      (.resolveParentDefault hne hv2.reserve_nonneg h3)
  | liquidateChildRelease t user keeper c o sold x =>
    have hne : u ≠ user := fun hk => hu (by rw [hk]; rfl)
    obtain ⟨y, h⟩ := world_ok.mp h
    obtain ⟨_, _, _, _, v1, v2, v3, b, h1, h2, h3, rfl⟩ := liquidateChildRelease_steps h
    have hv2 := (hw.extractProceeds h1).settleChildDebt h2
    have hsold : SameUse u w.vault v1 := by
      obtain ⟨_, _, _, rfl⟩ := extractProceeds_steps h1
      exact .refl u _
    have hdefault : SameUse u v2 v3 := by
      split at h3
      · exact .resolveParentDefault hne hv2.reserve_nonneg h3
      · rw [ok_ok.mp h3]
        exact .refl u _
    exact (hsold.trans (.settleChildDebt hne h2)).trans hdefault
  | redeem t user m final o x =>
    obtain ⟨_, h⟩ := world_ok.mp h
    cases h
  | redeemResolved t user m o amount =>
    have hne : u ≠ user := fun hk => hu (by rw [hk]; rfl)
    obtain ⟨y, h⟩ := world_ok.mp h
    obtain ⟨hpos, market, gross, v1, _, v2, _, _, _, _, hsettle, _, hretire, hpay⟩ :=
      redeemResolved_steps h
    obtain ⟨_, rfl⟩ := payRedemption_ok hpay
    obtain ⟨_, _, rfl⟩ := retireClaim_ok hretire
    have hkept := SameUse.settleResolved hne hw hpos hsettle
    exact hkept
  | redeemCancelled t user m o amount =>
    have hne : u ≠ user := fun hk => hu (by rw [hk]; rfl)
    obtain ⟨y, h⟩ := world_ok.mp h
    obtain ⟨hpos, market, _, v1, _, _, _, _, _, hsettle, hpay⟩ := redeemCancelled_steps h
    obtain ⟨_, rfl⟩ := payRedemption_ok hpay
    have hkept := SameUse.settleCancelled hne hw hpos hsettle
    exact hkept
  | assertPositionTransferAllowed sender m o x =>
    obtain ⟨_, _, h⟩ := bind_ok.mp h
    obtain rfl := pure_ok.mp h
    exact .refl u _
  | lockBond t user r m x d =>
    obtain ⟨_, _, _, _, _, rfl⟩ := lockBond_ok h
    exact .refl u _
  | releaseBond t user r x d =>
    obtain ⟨_, _, _, _, _, _, _, _, _, _, rfl⟩ := payBond_ok.mp h
    exact .refl u _
  | slashBond t user r x d recipient =>
    obtain ⟨_, _, _, _, _, _, _, _, _, _, rfl⟩ := payBond_ok.mp h
    exact .refl u _
  | collectFee m lp protocol cod =>
    obtain ⟨_, _, _, _, _, rfl⟩ := collectFee_steps h
    exact .refl u _
  | claimLpFees t m lp x =>
    obtain ⟨_, _, _, _, rfl⟩ := claimLpFees_steps h
    exact .refl u _
  | sweepProtocolFees t m =>
    obtain ⟨y, h⟩ := world_ok.mp h
    obtain ⟨_, _, _, _, _, rfl⟩ := sweepProtocolFees_steps h
    exact .refl u _

/-- An invocation touches the vault, balances of foreign tokens and, when its
holder redeems, the tokens that are burned. -/
theorem VaultOp.exec_shape {ctx : Ctx} {w w' : World} {op : VaultOp} (h : op.exec ctx w = .ok w') :
    ∃ v b t, w' = { w with vault := v, bank := b, tokens := t } ∧
      (t = w.tokens ∨ ∃ m u o x, op.holder = some u ∧ 0 < x ∧
        Tokens.subBalance w.tokens m u o x = .ok t) := by
  cases op with
  | setAdmin admin =>
    obtain rfl := admin_ok h
    exact ⟨_, _, _, rfl, Or.inl rfl⟩
  | upgrade wasmHash =>
    obtain ⟨_, _, h⟩ := bind_ok.mp h
    obtain rfl := pure_ok.mp h
    exact ⟨_, _, _, rfl, Or.inl rfl⟩
  | setRole role module =>
    obtain rfl := admin_ok h
    exact ⟨_, _, _, rfl, Or.inl rfl⟩
  | setTreasury treasury =>
    obtain rfl := admin_ok h
    exact ⟨_, _, _, rfl, Or.inl rfl⟩
  | pause paused =>
    obtain rfl := admin_ok h
    exact ⟨_, _, _, rfl, Or.inl rfl⟩
  | depositForMarket t user m x =>
    obtain ⟨_, _, _, v, _, _, rfl⟩ := depositForMarket_steps h
    exact ⟨_, _, _, rfl, Or.inl rfl⟩
  | recordCashStake user m o x y =>
    obtain ⟨_, rfl⟩ := recordCashStake_steps h
    exact ⟨_, _, _, rfl, Or.inl rfl⟩
  | fundChildPrediction user p c x => cases h
  | openChildCreditForTrade user p po c co x =>
    obtain ⟨_, _, _, _, _, _, v1, v2, _, _, rfl⟩ := openChildCreditForTrade_steps h
    exact ⟨_, _, _, rfl, Or.inl rfl⟩
  | repayChildCollateral t user c x =>
    obtain ⟨y, h⟩ := world_ok.mp h
    obtain ⟨_, _, v, b, _, rfl⟩ := repayChildCollateral_steps h
    exact ⟨_, _, _, rfl, Or.inl rfl⟩
  | releaseTradePayout t user m o sold x =>
    obtain ⟨_, _, _, _, _, v, b, _, rfl⟩ := releaseTradePayout_steps h
    exact ⟨_, _, _, rfl, Or.inl rfl⟩
  | liquidateRelease t user keeper p o sold x =>
    obtain ⟨y, h⟩ := world_ok.mp h
    obtain ⟨_, _, _, _, v1, remainder, v2, v3, b, _, _, _, rfl⟩ := liquidateRelease_steps h
    exact ⟨_, _, _, rfl, Or.inl rfl⟩
  | liquidateChildRelease t user keeper c o sold x =>
    obtain ⟨y, h⟩ := world_ok.mp h
    obtain ⟨_, _, _, _, v1, v2, v3, b, _, _, _, rfl⟩ := liquidateChildRelease_steps h
    exact ⟨_, _, _, rfl, Or.inl rfl⟩
  | redeem t user m final o x =>
    obtain ⟨_, h⟩ := world_ok.mp h
    cases h
  | redeemResolved t user m o amount =>
    obtain ⟨y, h⟩ := world_ok.mp h
    obtain ⟨_, market, gross, v1, t1, v2, called, _, _, _, _, hburn, _, hpay⟩ :=
      redeemResolved_steps h
    obtain ⟨_, rfl⟩ := payRedemption_ok hpay
    obtain ⟨hpos, hsub⟩ := Tokens.burnForRedeem_ok hburn
    exact ⟨_, _, _, rfl, Or.inr ⟨m, user, o, amount, rfl, hpos, hsub⟩⟩
  | redeemCancelled t user m o amount =>
    obtain ⟨y, h⟩ := world_ok.mp h
    obtain ⟨_, market, t1, v1, called, _, _, _, hburn, _, hpay⟩ := redeemCancelled_steps h
    obtain ⟨_, rfl⟩ := payRedemption_ok hpay
    obtain ⟨hpos, hsub⟩ := Tokens.burnForRedeem_ok hburn
    exact ⟨_, _, _, rfl, Or.inr ⟨m, user, o, amount, rfl, hpos, hsub⟩⟩
  | assertPositionTransferAllowed sender m o x =>
    obtain ⟨_, _, h⟩ := bind_ok.mp h
    obtain rfl := pure_ok.mp h
    exact ⟨_, _, _, rfl, Or.inl rfl⟩
  | lockBond t user r m x d =>
    obtain ⟨_, _, _, _, _, rfl⟩ := lockBond_ok h
    exact ⟨_, _, _, rfl, Or.inl rfl⟩
  | releaseBond t user r x d =>
    obtain ⟨_, _, _, _, _, _, _, _, _, _, rfl⟩ := payBond_ok.mp h
    exact ⟨_, _, _, rfl, Or.inl rfl⟩
  | slashBond t user r x d recipient =>
    obtain ⟨_, _, _, _, _, _, _, _, _, _, rfl⟩ := payBond_ok.mp h
    exact ⟨_, _, _, rfl, Or.inl rfl⟩
  | collectFee m lp protocol cod =>
    obtain ⟨_, _, _, _, _, rfl⟩ := collectFee_steps h
    exact ⟨_, _, _, rfl, Or.inl rfl⟩
  | claimLpFees t m lp x =>
    obtain ⟨_, _, _, _, rfl⟩ := claimLpFees_steps h
    exact ⟨_, _, _, rfl, Or.inl rfl⟩
  | sweepProtocolFees t m =>
    obtain ⟨y, h⟩ := world_ok.mp h
    obtain ⟨_, _, _, _, _, rfl⟩ := sweepProtocolFees_steps h
    exact ⟨_, _, _, rfl, Or.inl rfl⟩

/-- The gauge that reads one market's bucket of liquidity fees. -/
def lpGauge (p : MarketId) : Gauge where
  backing := fun _ => 0
  issued := fun _ => 0
  repaid := fun _ => 0
  defaulted := fun _ => 0
  shortfall := fun _ => 0
  redeemed := fun _ => 0
  protocolFees := fun _ => 0
  lpFees := atMarket p
  codFees := fun _ => 0
  proposalBonds := fun _ => 0
  disputeBonds := fun _ => 0
  debt := fun _ => 0
  reserve := 0

/-- The gauge reads the bucket. -/
theorem lpGauge_read (p : MarketId) (v : VaultState) :
    (lpGauge p).read v = (v.accounting p).lpFees := by
  rw [(lpGauge p).read_at p v]
  · simp only [Gauge.weigh, lpGauge, atMarket, if_pos]
    ring
  · intro m hm
    simp only [Gauge.weigh, lpGauge, atMarket, if_neg hm]
    ring
  · intro m
    simp only [lpGauge, ite_self]

/-- No repayment of credit reaches the bucket. -/
theorem lpGauge_even (p : MarketId) : (lpGauge p).Even 0 := by
  intro m
  simp only [lpGauge]
  ring

/-- Neither does a default. -/
theorem lpGauge_loss (p q : MarketId) (lost draw owed : ℤ) :
    (lpGauge p).loss q lost draw owed = 0 := by
  simp only [Gauge.loss, lpGauge]
  ring

/-- What an invocation books into one market's bucket of liquidity fees. -/
def VaultOp.lpFlow (p : MarketId) : VaultOp → ℤ
  | collectFee m lp _ _ => if p = m then lp else 0
  | claimLpFees _ m _ x => if p = m then -x else 0
  | _ => 0

/-- Every invocation moves a bucket of liquidity fees by what it books into it. -/
theorem VaultOp.exec_lpFees (p : MarketId) {ctx : Ctx} (hctx : Outside .vault ctx) {w w' : World}
    (hw : Sane w.vault) {op : VaultOp} (h : op.exec ctx w = .ok w') :
    (w'.vault.accounting p).lpFees = (w.vault.accounting p).lpFees + op.lpFlow p := by
  rw [← lpGauge_read p w'.vault, ← lpGauge_read p w.vault]
  have hgauge := lpGauge_even p
  cases op with
  | setAdmin admin =>
    obtain rfl := admin_ok h
    exact (Gauge.read_congr _ rfl rfl rfl).trans (add_zero _).symm
  | upgrade wasmHash =>
    obtain ⟨_, _, h⟩ := bind_ok.mp h
    obtain rfl := pure_ok.mp h
    exact (add_zero _).symm
  | setRole role module =>
    obtain rfl := admin_ok h
    exact (Gauge.read_congr _ rfl rfl rfl).trans (add_zero _).symm
  | setTreasury treasury =>
    obtain rfl := admin_ok h
    exact (Gauge.read_congr _ rfl rfl rfl).trans (add_zero _).symm
  | pause paused =>
    obtain rfl := admin_ok h
    exact (Gauge.read_congr _ rfl rfl rfl).trans (add_zero _).symm
  | depositForMarket t user m x =>
    obtain ⟨v, b, rfl, _, _, _, _, hread, _⟩ := depositForMarket_flow (g := lpGauge p) hctx hw h
    rw [hread]
    simp only [lpGauge, VaultOp.lpFlow, zero_mul, add_zero]
  | recordCashStake user m o x y =>
    obtain ⟨rootStake, rfl⟩ := recordCashStake_flow h
    exact (Gauge.read_congr _ rfl rfl rfl).trans (add_zero _).symm
  | fundChildPrediction user m c x => cases h
  | openChildCreditForTrade user m c mo co x =>
    obtain ⟨v, rfl, _, _, _, hread⟩ := openChildCreditForTrade_flow (g := lpGauge p) hw h
    rw [hread]
    simp only [lpGauge, VaultOp.lpFlow]
    ring
  | repayChildCollateral t user m x =>
    obtain ⟨y, h⟩ := world_ok.mp h
    obtain ⟨v, b, credited, rfl, _, _, _, _, _, hread, _⟩ :=
      repayChildCollateral_flow hctx (hgauge.at _ _ _) hw h
    rw [hread]
    simp only [VaultOp.lpFlow]
    ring
  | releaseTradePayout t user m o sold x =>
    obtain ⟨v, b, rfl, _, _, _, _, _, hread, _⟩ := releaseTradePayout_flow (g := lpGauge p) hw h
    rw [hread]
    simp only [lpGauge, VaultOp.lpFlow, zero_mul, sub_zero, add_zero]
  | liquidateRelease t user keeper m o sold x =>
    obtain ⟨y, h⟩ := world_ok.mp h
    obtain ⟨v, b, credited, lost, draw, owed, rfl, _, _, _, _, _, _, _, hread, _⟩ :=
      liquidateRelease_flow (fun _ _ => hgauge.at _ _ _) hw h
    rw [hread, lpGauge_loss]
    simp only [lpGauge, VaultOp.lpFlow, zero_mul, sub_zero, add_zero]
  | liquidateChildRelease t user keeper c o sold x =>
    obtain ⟨y, h⟩ := world_ok.mp h
    obtain ⟨v, b, credited, lost, draw, owed, rfl, _, _, _, _, _, _, _, hread, _⟩ :=
      liquidateChildRelease_flow (hgauge.at _ _ _) hw h
    rw [hread, lpGauge_loss]
    simp only [lpGauge, VaultOp.lpFlow, zero_mul, sub_zero, add_zero]
  | redeem t user m final o x =>
    obtain ⟨_, h⟩ := world_ok.mp h
    cases h
  | redeemResolved t user m o amount =>
    obtain ⟨y, h⟩ := world_ok.mp h
    obtain ⟨market, v, b, tokens, paid, credited, withheld, lost, draw, rfl, _, _, _, _, _, _, _,
      _, hread, _⟩ := redeemResolved_flow (hgauge.at _ _ _) (hgauge _) hw h
    rw [hread, lpGauge_loss]
    simp only [lpGauge, VaultOp.lpFlow, zero_mul, sub_zero, add_zero]
  | redeemCancelled t user m o amount =>
    obtain ⟨y, h⟩ := world_ok.mp h
    obtain ⟨market, v, b, tokens, withheld, lost, draw, rfl, _, _, _, _, _, _, hread, _⟩ :=
      redeemCancelled_flow (hgauge _) hw h
    rw [hread, lpGauge_loss]
    simp only [lpGauge, VaultOp.lpFlow, zero_mul, add_zero]
  | assertPositionTransferAllowed sender m o x =>
    obtain ⟨_, _, h⟩ := bind_ok.mp h
    obtain rfl := pure_ok.mp h
    exact (add_zero _).symm
  | lockBond t user r m x d =>
    obtain ⟨v, b, rfl, _, _, _, _, _, hread, _⟩ := lockBond_flow (g := lpGauge p) hctx hw h
    rw [hread]
    simp only [Gauge.bonds, lpGauge, VaultOp.lpFlow, ite_self, zero_mul, add_zero]
  | releaseBond t user r x d =>
    obtain ⟨v, b, m, rfl, _, _, _, _, _, hread, _⟩ := payBond_flow (g := lpGauge p) hw h
    rw [hread]
    simp only [Gauge.bonds, lpGauge, VaultOp.lpFlow, ite_self, zero_mul, sub_zero, add_zero]
  | slashBond t user r x d recipient =>
    obtain ⟨v, b, m, rfl, _, _, _, _, _, hread, _⟩ := payBond_flow (g := lpGauge p) hw h
    rw [hread]
    simp only [Gauge.bonds, lpGauge, VaultOp.lpFlow, ite_self, zero_mul, sub_zero, add_zero]
  | collectFee m lp protocol cod =>
    obtain ⟨v, rfl, _, _, _, hread⟩ := collectFee_flow (g := lpGauge p) hw h
    rw [hread]
    simp only [lpGauge, atMarket, VaultOp.lpFlow, zero_mul, sub_zero, add_zero, ite_mul, one_mul,
      eq_comm]
  | claimLpFees t m lp x =>
    obtain ⟨v, b, rfl, _, _, _, _, hread, _⟩ := claimLpFees_flow (g := lpGauge p) hw h
    rw [hread]
    simp only [lpGauge, atMarket, VaultOp.lpFlow, ite_mul, one_mul, zero_mul, eq_comm (a := p)]
    split <;> ring
  | sweepProtocolFees t m =>
    obtain ⟨y, h⟩ := world_ok.mp h
    obtain ⟨v, b, cut, rfl, _, _, _, _, _, hread, _⟩ :=
      sweepProtocolFees_flow (g := lpGauge p) hw h
    rw [hread]
    simp only [lpGauge, VaultOp.lpFlow, zero_mul, sub_zero, add_zero]

end DikeProtocol.Vault
