import DikeProtocol.Vault.Chains

/-!
# The bucket of each market

A market's books say how much of its backing was paid out and how much is
left. Every entry point takes from the bucket of a market only what that
bucket holds, except a redemption that repays the credit of its own position:
the repayment is debited by the claim and not by what is left.
-/

namespace DikeProtocol.Vault

open Lib

/-- What is left of a market's backing is its backing less what was redeemed. -/
structure Balanced (a : VaultAccounting) : Prop where
  refundable_eq : a.refundable = a.collateralBacking - a.redeemed
  redeemed_nonneg : 0 ≤ a.redeemed

/-- A market never paid out more than its own bucket holds. -/
structure Bucket (a : VaultAccounting) : Prop extends Balanced a where
  redeemed_le : a.redeemed ≤ a.collateralBacking

/-- Every market's bucket covers what it paid out. -/
def Bucketed (v : VaultState) : Prop := ∀ m, Bucket (v.accounting m)

/-- The bucket of a market nothing happened in yet is empty. -/
theorem bucket_zero : Bucket zeroAccounting := ⟨⟨rfl, le_rfl⟩, le_rfl⟩

variable {a : VaultAccounting} {x : ℤ}

/-- A credited repayment fills a bucket. -/
theorem Balanced.repaidBy (h : Balanced a) (x : ℤ) : Balanced (repaidBy a x) := by
  have heq := h.refundable_eq
  refine ⟨?_, h.redeemed_nonneg⟩
  simp only [Vault.repaidBy]
  omega

/-- A debit empties a bucket, past its bottom if need be. -/
theorem Balanced.debitedBy (h : Balanced a) (x : ℤ) : Balanced (debitedBy a x) := by
  have heq := h.refundable_eq
  refine ⟨?_, h.redeemed_nonneg⟩
  simp only [Vault.debitedBy]
  omega

/-- A credited repayment keeps a bucket. -/
theorem Bucket.repaidBy (h : Bucket a) (hx : 0 ≤ x) : Bucket (repaidBy a x) := by
  have hle := h.redeemed_le
  refine ⟨h.toBalanced.repaidBy x, ?_⟩
  simp only [Vault.repaidBy]
  omega

/-- A debit that the bucket covers keeps it. -/
theorem Bucket.debitedBy (h : Bucket a) (hx : x ≤ a.refundable) : Bucket (debitedBy a x) := by
  have heq := h.refundable_eq
  refine ⟨h.toBalanced.debitedBy x, ?_⟩
  simp only [Vault.debitedBy]
  omega

/-- A deposit keeps a bucket. -/
theorem Bucket.depositedBy (h : Bucket a) (hx : 0 ≤ x) : Bucket (depositedBy a x) := by
  have heq := h.refundable_eq
  have hle := h.redeemed_le
  refine ⟨⟨?_, h.redeemed_nonneg⟩, ?_⟩
  · simp only [Vault.depositedBy]
    omega
  · simp only [Vault.depositedBy]
    omega

/-- A default that draws on the reserve keeps a bucket. -/
theorem Bucket.defaultedBy (h : Bucket a) {draw : ℤ} (hdraw : 0 ≤ draw) :
    Bucket (defaultedBy a x draw) := by
  have heq := h.refundable_eq
  have hle := h.redeemed_le
  refine ⟨⟨?_, h.redeemed_nonneg⟩, ?_⟩
  · simp only [Vault.defaultedBy]
    omega
  · simp only [Vault.defaultedBy]
    omega

/-- A payout of at most what is left keeps a bucket. -/
theorem Bucket.paidBy (h : Bucket a) (hx : 0 ≤ x) (hle : x ≤ a.collateralBacking - a.redeemed) :
    Bucket (paidBy a x) := by
  have heq := h.refundable_eq
  have hnonneg := h.redeemed_nonneg
  refine ⟨⟨?_, ?_⟩, ?_⟩
  · simp only [Vault.paidBy]
    omega
  · simp only [Vault.paidBy]
    omega
  · simp only [Vault.paidBy]
    omega

/-- Bonds are no part of a bucket. -/
theorem Bucket.movedBond (h : Bucket a) (d : Bool) (x : ℤ) : Bucket (movedBond a d x) := by
  unfold Vault.movedBond
  split
  · exact ⟨⟨h.refundable_eq, h.redeemed_nonneg⟩, h.redeemed_le⟩
  · exact ⟨⟨h.refundable_eq, h.redeemed_nonneg⟩, h.redeemed_le⟩

/-- Rewriting one market's books with a bucket keeps all buckets. -/
theorem Bucketed.set {s : Store MarketId VaultAccounting} {m : MarketId}
    (hs : ∀ m, Bucket (s m)) (ha : Bucket a) : ∀ m', Bucket (s.set m a m') := by
  intro m'
  rw [Store.set_get]
  split
  · exact ha
  · exact hs m'

/-- A user's position is not its own parent. -/
def NoSelfParent (v : VaultState) : Prop := ∀ c u, v.childParent (c, u) = c → c = 0

namespace Bucketed

variable {v v' : VaultState}

/-- A settlement credits the parent's bucket at most. -/
theorem settleChildDebt (h : Bucketed v) (hv : Sane v) {c : MarketId} {u : Address} {r : ℤ}
    (hs : settleChildDebt v c u r = .ok (x, v')) : Bucketed v' := by
  have hx := (hv.settled_bounds hs).1
  obtain ⟨_, rfl, _⟩ | ⟨_, rfl, _, _⟩ | ⟨_, _, _, rfl⟩ | ⟨_, _, _, _, rfl⟩ :=
    settleChildDebt_cases hs
  · exact h
  · exact h
  · exact h
  · exact Bucketed.set h ((h _).repaidBy hx)

/-- Paying down the children of a stake keeps all buckets. -/
theorem settleChildren (children : List MarketId) (h : Bucketed v) (hv : Sane v) {u : Address}
    {pool pool' paid paid' : ℤ}
    (hs : settleChildren v u pool paid children = .ok (pool', paid', v')) : Bucketed v' := by
  refine (settleChildren_keeps (I := fun s => Sane s ∧ Bucketed s) ?_ children hs ⟨hv, h⟩).2
  rintro _ _ _ _ _ h1 ⟨hsane, hbucketed⟩
  exact ⟨hsane.settleChildDebt h1, hbucketed.settleChildDebt hsane h1⟩

/-- A default keeps all buckets. -/
theorem resolveParentDefault (h : Bucketed v) (hr : 0 ≤ v.insuranceReserve) {p : MarketId}
    {u : Address} {o : Outcome} (hd : resolveParentDefault v p u o x = .ok v') : Bucketed v' := by
  by_cases hx : 0 < x
  · obtain ⟨_, _, _, rfl, _⟩ := resolveParentDefault_ok hx hr hd
    exact Bucketed.set h ((h p).defaultedBy (by omega))
  · unfold Vault.resolveParentDefault at hd
    rw [if_pos (by omega)] at hd
    rw [← ok_ok.mp hd]
    exact h

/-- Withholding a claim keeps all buckets. -/
theorem withholdParentDebt (h : Bucketed v) (hr : 0 ≤ v.insuranceReserve) {m : MarketId}
    {u : Address} {o : Outcome} {g claim : ℤ} (hclaim : 0 ≤ claim) (hg : g = 0 → claim = 0)
    (hw : withholdParentDebt v m u o g claim = .ok (x, v')) : Bucketed v' := by
  obtain ⟨_, _, rfl⟩ | ⟨_, hx, _, _, rfl⟩ | ⟨_, _, _, _, rfl⟩ | ⟨_, _, _, hd⟩ :=
    withholdParentDebt_cases hw hclaim hg
  · exact h
  · exact Bucketed.set h ((h m).repaidBy hx.le)
  · exact h
  · exact resolveParentDefault (by exact h) (by exact hr) hd

/-- Extracting proceeds keeps all buckets: the market's own bucket covers them. -/
theorem extractProceeds (h : Bucketed v) {m : MarketId} {u : Address} {o : Outcome} {sold : ℤ}
    (hs : extractProceeds v m u o sold x = .ok v') : Bucketed v' := by
  obtain ⟨_, hle, _, rfl⟩ := extractProceeds_steps hs
  exact Bucketed.set h ((h m).debitedBy hle)

/-- Lending keeps all buckets: the parent's own bucket covers the loan. -/
theorem reallocateBacking (h : Bucketed v) {p c : MarketId} (hx : 0 ≤ x)
    (hs : reallocateBacking v p c x = .ok v') : Bucketed v' := by
  obtain ⟨_, hle, rfl⟩ := reallocateBacking_steps hs
  have hlent : Bucket (lentBy (v.accounting p) x) := by
    have hdebited := (h p).debitedBy hle
    exact ⟨⟨hdebited.refundable_eq, hdebited.redeemed_nonneg⟩, hdebited.redeemed_le⟩
  have hparent := Bucketed.set (m := p) h hlent
  exact Bucketed.set hparent ((hparent c).depositedBy hx)

/-- A payout that was capped keeps all buckets. -/
theorem payRedemption {ctx : Ctx} {w w' : World} (h : Bucketed w.vault) {token : Asset}
    {u : Address} {m : MarketId}
    (hcap : x = 0 ∨ x ≤ (w.vault.accounting m).collateralBacking - (w.vault.accounting m).redeemed)
    (hs : payRedemption ctx w token u m x = .ok w') : Bucketed w'.vault := by
  obtain ⟨_, rfl⟩ := payRedemption_ok hs
  dsimp only [Bucketed]
  split
  · exact Bucketed.set h ((h m).paidBy (by omega) (by omega))
  · exact h

end Bucketed

/-- A redemption whose repayment of its own position's credit the market's
bucket covers, counting what is withheld from the same claim. -/
def Covered (v : VaultState) (m : MarketId) (u : Address) (o : Outcome) (gross : ℤ) : Prop :=
  let repaid := min gross (effectiveDebt v m u)
  repaid ≤ (v.accounting m).refundable + max (min (v.parentDebt (m, u, o)) (gross - repaid)) 0

/-- The vault between the settlement of a redemption and its payout keeps all
buckets when the repayment upstream is covered. -/
theorem Bucketed.settleResolved {v v' : VaultState} (h : Bucketed v) (hv : Sane v)
    (hself : NoSelfParent v) {m : MarketId} {u : Address} {final o : Outcome}
    {amount gross payout : ℤ} (hpos : 0 < amount)
    (hcov : Covered v m u o (redemptionValue v m final o amount))
    (hs : settleResolved v m u final o amount = .ok (gross, payout, v')) : Bucketed v' := by
  obtain ⟨v1, v2, paid, v3, withheld, h1, h2, h3, h4, _⟩ := settleResolved_steps hs
  obtain ⟨hvalue, hgross, hv1, carry, hcarry⟩ := hv.grossPayout hpos h1
  have hcounted := addRedeemed_ok h2
  have hv2 : Sane v2 := by
    rw [hcounted]
    exact { hv1 with }
  have hb2 : Bucketed v2 := by
    rw [hcounted, hcarry]
    exact h
  have haccounting : v2.accounting = v.accounting := by rw [hcounted, hcarry]
  have hdebts : v2.parentDebt = v.parentDebt := by rw [hcounted, hcarry]
  have heffective : effectiveDebt v2 m u = effectiveDebt v m u := by
    rw [hcounted, hcarry]
    rfl
  have hself2 : v2.childParent (m, u) = m → m = 0 := by
    rw [hcounted, hcarry]
    exact hself m u
  obtain ⟨v2', hsettle, hdebit⟩ := repayUpstream_steps h3
  have hpaid := hv2.settled hsettle
  have hbounds := hv2.settled_bounds hsettle
  have hsettled := hb2.settleChildDebt hv2 hsettle
  have hv3 := hv2.settleChildDebt hsettle
  have heff := hv.effectiveDebt_nonneg m u
  have hshare : paid = min gross (effectiveDebt v m u) := by
    rw [hpaid, heffective]
    split <;> omega
  -- the settlement touches neither the books nor the stakes of the redeemed market
  have hsame : v2'.accounting m = v.accounting m ∧
    v2'.parentDebt (m, u, o) = v.parentDebt (m, u, o) := by
    obtain ⟨_, rfl, _⟩ | ⟨_, rfl, _, _⟩ | ⟨_, _, _, rfl⟩ | ⟨_, _, hp, _, rfl⟩ :=
      settleChildDebt_cases hsettle
    · rw [haccounting, hdebts]
      exact ⟨rfl, rfl⟩
    · rw [← haccounting, ← hdebts]
      exact ⟨rfl, rfl⟩
    · rw [← haccounting, ← hdebts]
      exact ⟨rfl, rfl⟩
    · have hne : m ≠ v2.childParent (m, u) := by
        intro hk
        exact hp (hk.symm.trans (hself2 hk.symm))
      unfold repaidUpstream
      dsimp only
      rw [Store.set_get_of_ne _ _ hne, Store.set_get_of_ne _ _ (fun hk => hne (Prod.mk.inj hk).1),
        haccounting, hdebts]
      exact ⟨rfl, rfl⟩
  have hclaim := hbounds.2 hgross
  rw [← hvalue] at hcov
  unfold Covered at hcov
  rw [← hshare] at hcov
  dsimp only at hcov
  by_cases hzero : paid > 0
  · rw [if_pos hzero] at hdebit
    have hr3 : 0 ≤ v3.insuranceReserve := by
      rw [hdebit]
      exact hv3.reserve_nonneg
    have hdebt3 : v3.parentDebt (m, u, o) = v.parentDebt (m, u, o) := by
      rw [hdebit]
      exact hsame.2
    have hbooks3 : v3.accounting = v2'.accounting.set m (debitedBy (v.accounting m) paid) := by
      rw [hdebit, ← hsame.1]
    have hbalanced := (h m).toBalanced
    have heq := (h m).refundable_eq
    -- the debited bucket may be overdrawn until the withheld claim is credited to it
    obtain ⟨hnone, _, rfl⟩ | ⟨hdebt, hwpos, hwithheld, _, rfl⟩ | ⟨hdebt, hnoclaim, _, _, rfl⟩ |
      ⟨_, hg, _, _⟩ := withholdParentDebt_cases h4 (by omega) (by omega)
    · rw [hdebt3] at hnone
      unfold Bucketed
      rw [hbooks3]
      exact Bucketed.set hsettled ((h m).debitedBy (by omega))
    · rw [hdebt3] at hwithheld
      have hm : Bucket (repaidBy (debitedBy (v.accounting m) paid) withheld) := by
        refine ⟨(hbalanced.debitedBy paid).repaidBy withheld, ?_⟩
        simp only [Vault.repaidBy, Vault.debitedBy]
        omega
      intro m'
      unfold withheldBy
      dsimp only
      rw [hbooks3, Store.set_get_self]
      rw [Store.set_get]
      split
      · exact hm
      · next hm' =>
        rw [Store.set_get_of_ne _ _ hm']
        exact hsettled m'
    · rw [hdebt3] at hdebt
      unfold Bucketed
      dsimp only
      rw [hbooks3]
      exact Bucketed.set hsettled ((h m).debitedBy (by omega))
    · omega
  · rw [if_neg hzero] at hdebit
    have hr3 : 0 ≤ v3.insuranceReserve := by
      rw [hdebit]
      exact hv3.reserve_nonneg
    have hb3 : Bucketed v3 := by
      rw [hdebit]
      exact hsettled
    exact hb3.withholdParentDebt hr3 (by omega) (by omega) h4

/-- Redemptions whose repayment upstream the bucket of the redeemed market covers. -/
def WithinBucket (w : World) : VaultOp → Prop
  | .redeemResolved _ user m o amount => ∀ market, w.registry.market m = some market →
    Covered w.vault m user o (redemptionValue w.vault m market.finalOutcome o amount)
  | _ => True

/-- The same for a step of a run. -/
def VaultStep.WithinBucket (w : World) : VaultStep → Prop
  | .call _ op => Vault.WithinBucket w op
  | .outside _ => True

/-- Every invocation whose repayments are covered keeps all buckets. -/
theorem VaultOp.exec_bucketed {ctx : Ctx} {w w' : World} (hv : Sane w.vault)
    (hself : NoSelfParent w.vault) (hw : Bucketed w.vault) {op : VaultOp}
    (hop : WithinBucket w op) (h : op.exec ctx w = .ok w') : Bucketed w'.vault := by
  cases op with
  | setAdmin admin =>
    obtain rfl := admin_ok h
    exact hw
  | upgrade wasmHash =>
    obtain ⟨_, _, h⟩ := bind_ok.mp h
    obtain rfl := pure_ok.mp h
    exact hw
  | setRole role module =>
    obtain rfl := admin_ok h
    exact hw
  | setTreasury treasury =>
    obtain rfl := admin_ok h
    exact hw
  | pause paused =>
    obtain rfl := admin_ok h
    exact hw
  | depositForMarket t user m x =>
    obtain ⟨hx, _, _, v, _, hdeposit, rfl⟩ := depositForMarket_steps h
    rw [recordDeposit_ok hdeposit]
    exact Bucketed.set hw ((hw m).depositedBy hx.le)
  | recordCashStake user m o x y =>
    obtain ⟨_, rfl⟩ := recordCashStake_steps h
    exact hw
  | fundChildPrediction user p c x => cases h
  | openChildCreditForTrade user p po c co x =>
    obtain ⟨hx, _, _, _, _, _, v1, v2, hloan, hmove, rfl⟩ := openChildCreditForTrade_steps h
    have hv1 : Bucketed v1 := by
      unfold Bucketed
      rw [(recordLoan_links hloan).2.2.2.2.2]
      exact hw
    exact hv1.reallocateBacking hx.le hmove
  | repayChildCollateral t user c x =>
    obtain ⟨y, h⟩ := world_ok.mp h
    obtain ⟨_, _, v, _, hsettle, rfl⟩ := repayChildCollateral_steps h
    exact hw.settleChildDebt hv hsettle
  | releaseTradePayout t user m o sold x =>
    obtain ⟨_, _, _, _, _, v, _, hextract, rfl⟩ := releaseTradePayout_steps h
    exact hw.extractProceeds hextract
  | liquidateRelease t user keeper p o sold x =>
    obtain ⟨y, h⟩ := world_ok.mp h
    obtain ⟨_, hx, _, _, v1, remainder, v2, v3, b, h1, h2, h3, rfl⟩ := liquidateRelease_steps h
    have hpool := pool_pos hx
    have hv1 := hv.extractProceeds h1
    have hv2 := (hv1.settleChildren _ (by omega) h2).1
    have hw2 := (hw.extractProceeds h1).settleChildren _ hv1 h2
    exact hw2.resolveParentDefault hv2.reserve_nonneg h3
  | liquidateChildRelease t user keeper c o sold x =>
    obtain ⟨y, h⟩ := world_ok.mp h
    obtain ⟨_, _, _, _, v1, v2, v3, b, h1, h2, h3, rfl⟩ := liquidateChildRelease_steps h
    have hv1 := hv.extractProceeds h1
    have hv2 := hv1.settleChildDebt h2
    have hb2 := (hw.extractProceeds h1).settleChildDebt hv1 h2
    dsimp only
    split at h3
    · exact hb2.resolveParentDefault hv2.reserve_nonneg h3
    · rw [← ok_ok.mp h3]
      exact hb2
  | redeem t user m final o x =>
    obtain ⟨_, h⟩ := world_ok.mp h
    cases h
  | redeemResolved t user m o amount =>
    obtain ⟨y, h⟩ := world_ok.mp h
    obtain ⟨hpos, market, gross, v1, _, v2, _, hm, _, _, hsettle, _, hretire, hpay⟩ :=
      redeemResolved_steps h
    have hb1 := hw.settleResolved hv hself hpos (hop market hm) hsettle
    obtain ⟨_, _, _, _, _, _, _, _, _, hcap⟩ := settleResolved_steps hsettle
    obtain ⟨_, _, rfl⟩ := retireClaim_ok hretire
    exact Bucketed.payRedemption (by exact hb1) (cappedPayout_bounds hcap) hpay
  | redeemCancelled t user m o amount =>
    obtain ⟨y, h⟩ := world_ok.mp h
    obtain ⟨hpos, market, _, v1, _, _, _, _, _, hsettle, hpay⟩ := redeemCancelled_steps h
    obtain ⟨gross, v2, withheld, h1, h2, hcap⟩ := settleCancelled_steps hsettle
    obtain ⟨hgross, rfl, _⟩ := hv.refundWithCarry hpos h1
    have hm := hv.carry m
    have hb1 := Bucketed.withholdParentDebt (by exact hw) (by exact hv.reserve_nonneg) (by omega)
      (fun hg => hg) h2
    exact Bucketed.payRedemption hb1 (cappedPayout_bounds hcap) hpay
  | assertPositionTransferAllowed sender m o x =>
    obtain ⟨_, _, h⟩ := bind_ok.mp h
    obtain rfl := pure_ok.mp h
    exact hw
  | lockBond t user r m x d =>
    obtain ⟨_, _, _, _, _, rfl⟩ := lockBond_ok h
    exact Bucketed.set hw (Bucket.movedBond (hw m) d x)
  | releaseBond t user r x d =>
    obtain ⟨_, _, m, _, _, _, _, _, _, _, rfl⟩ := payBond_ok.mp h
    exact Bucketed.set hw (Bucket.movedBond (hw m) d (-x))
  | slashBond t user r x d recipient =>
    obtain ⟨_, _, m, _, _, _, _, _, _, _, rfl⟩ := payBond_ok.mp h
    exact Bucketed.set hw (Bucket.movedBond (hw m) d (-x))
  | collectFee m lp protocol cod =>
    obtain ⟨_, _, _, _, hle, rfl⟩ := collectFee_steps h
    have hcharged : Bucket (chargedBy (w.vault.accounting m) lp protocol cod) := by
      have hdebited := (hw m).debitedBy hle
      exact ⟨⟨hdebited.refundable_eq, hdebited.redeemed_nonneg⟩, hdebited.redeemed_le⟩
    exact Bucketed.set hw hcharged
  | claimLpFees t m lp x =>
    obtain ⟨_, _, _, _, rfl⟩ := claimLpFees_steps h
    have hm := hw m
    exact Bucketed.set hw ⟨⟨hm.refundable_eq, hm.redeemed_nonneg⟩, hm.redeemed_le⟩
  | sweepProtocolFees t m =>
    obtain ⟨y, h⟩ := world_ok.mp h
    obtain ⟨_, _, _, _, _, rfl⟩ := sweepProtocolFees_steps h
    have hm := hw m
    exact Bucketed.set hw ⟨⟨hm.refundable_eq, hm.redeemed_nonneg⟩, hm.redeemed_le⟩

/-- Credit never makes a position its own parent. -/
theorem NoSelfParent.exec {ctx : Ctx} {w w' : World} (hv : Sane w.vault) (hw : NoSelfParent w.vault)
    {op : VaultOp} (h : op.exec ctx w = .ok w') : NoSelfParent w'.vault := by
  cases hopens : op.opensCredit with
  | false =>
    unfold NoSelfParent
    rw [(op.exec_links hv hopens h).childParent]
    exact hw
  | true =>
    cases op with
    | openChildCreditForTrade user p po c co x =>
      obtain ⟨_, hne, _, _, _, _, v1, v2, hloan, hmove, rfl⟩ := openChildCreditForTrade_steps h
      obtain ⟨_, _, rfl⟩ := reallocateBacking_steps hmove
      unfold NoSelfParent
      dsimp only
      rw [(recordLoan_links hloan).2.1]
      split
      · intro d u
        rw [Store.set_get]
        split
        · next hk =>
          intro hpd
          exact absurd (hpd.trans (Prod.mk.inj hk).1) hne
        · exact hw d u
      · exact hw
    | _ => cases hopens

/-- In a run whose redemptions repay upstream only what their market's bucket
covers, no market ever pays out or lends more than its bucket holds. -/
theorem bucketed_of_withinBucket (kept : List Asset) {w : World}
    (h : (vaultSystem kept).Guarded (fun w step => step.WithinBucket w) w) (m : MarketId) :
    (w.vault.accounting m).refundable =
        (w.vault.accounting m).collateralBacking - (w.vault.accounting m).redeemed ∧
      0 ≤ (w.vault.accounting m).redeemed ∧
      (w.vault.accounting m).redeemed ≤ (w.vault.accounting m).collateralBacking := by
  have hinv : NoSelfParent w.vault ∧ Bucketed w.vault := by
    refine h.invariant_with (J := fun w => Sane w.vault)
      (I := fun w => NoSelfParent w.vault ∧ Bucketed w.vault) (fun w hw => reachable_sane hw) ?_ ?_
    · rintro w ⟨⟨admin, treasury, roles, hv⟩, _⟩
      rw [hv]
      exact ⟨fun c u hc => hc.symm, fun m => bucket_zero⟩
    · rintro w step w' hsane ⟨hself, hw⟩ hok hstep
      cases step with
      | call ctx op =>
        obtain ⟨_, hexec⟩ := vaultSystem_call hstep
        exact ⟨hself.exec hsane hexec, op.exec_bucketed hsane hself hw hok hexec⟩
      | outside s =>
        obtain ⟨_, rfl⟩ := vaultSystem_outside hstep
        exact ⟨hself, hw⟩
  have hm := hinv.2 m
  exact ⟨hm.refundable_eq, hm.redeemed_nonneg, hm.redeemed_le⟩

/-- A third trader. -/
def carol : Address := .account 12

/-- The world around the vault once market 2 resolved: alice and carol hold its
winning tokens, bob the losing ones. -/
def resolvedSurroundings (bank : Bank) : Surroundings where
  registry := sampleRegistry [sampleMarket 1 .live none, sampleMarket 2 .resolved (some .yes),
    sampleMarket 3 .live none]
  tokens := { (deploy sampleLaunch).tokens with
    balance :=
      ((Store.empty.set (2, alice, .yes) 60).set (2, carol, .yes) 100).set (2, bob, .no) 160 }
  bank := bank

/-- Alice borrows 60 from market 1 into market 2, bob 60 from market 2 into market 3. -/
def crossedLoans : List VaultStep :=
  [.outside (sampleSurroundings [sampleMarket 1 .live none, sampleMarket 2 .live none,
      sampleMarket 3 .live none] sampleLaunch.bank),
    .call aliceTrades (.depositForMarket sampleToken alice 1 100),
    .call aliceTrades (.recordCashStake alice 1 .yes 100 100),
    .call aliceTrades (.openChildCreditForTrade alice 1 .yes 2 .yes 60),
    .call ⟨0, [bob], [.contract .amm]⟩ (.depositForMarket sampleToken bob 2 100),
    .call ⟨0, [bob], [.contract .amm]⟩ (.recordCashStake bob 2 .no 100 100),
    .call ⟨0, [bob], [.contract .amm]⟩ (.openChildCreditForTrade bob 2 .no 3 .yes 60)]

/-- Market 2 resolves against bob, who redeems his worthless tokens, before carol
and then alice redeem the winning ones. -/
def redeemInTurn : List VaultStep :=
  [.outside (resolvedSurroundings (Bank.empty.issue sampleToken (.contract .vault) 200)),
    .call (bySigner bob) (.redeemResolved sampleToken bob 2 .no 160),
    .call (bySigner carol) (.redeemResolved sampleToken carol 2 .yes 100),
    .call (bySigner alice) (.redeemResolved sampleToken alice 2 .yes 60)]

/-- While nothing is redeemed, the crossed loans leave every bucket covered. -/
theorem bucketed_after_loans : ∃ w, (vaultSystem []).runs (deploy sampleLaunch) crossedLoans =
    .ok w ∧ (w.vault.accounting 2).refundable = 100 ∧
      (w.vault.accounting 2).refundable =
        (w.vault.accounting 2).collateralBacking - (w.vault.accounting 2).redeemed := by
  have hinit : (vaultSystem []).Init (deploy sampleLaunch) := ⟨⟨_, _, _, rfl⟩, rfl⟩
  have hloans : ∀ step ∈ crossedLoans, ∀ w, step.WithinBucket w := by
    intro step hs w
    simp only [crossedLoans, List.mem_cons, List.not_mem_nil, or_false] at hs
    rcases hs with rfl | rfl | rfl | rfl | rfl | rfl | rfl <;> trivial
  obtain ⟨w, hw, hleft⟩ := System.runs_of_decide (S := vaultSystem []) (deploy sampleLaunch)
    crossedLoans (fun w => (w.vault.accounting 2).refundable = 100) (by decide +kernel)
  have hrun : (vaultSystem []).Guarded (fun w step => step.WithinBucket w) w :=
    (System.Guarded.runs (.init hinit) crossedLoans hloans hw).mono (fun w step h => h w)
  exact ⟨w, hw, of_decide_eq_true hleft, (bucketed_of_withinBucket [] hrun 2).1⟩

/-- Alice's redemption repays her loan by her whole claim of 60 although market 2
has 38 left: its books end with 62 redeemed of a backing of 40. -/
theorem not_always_bucketed :
    ¬∀ (kept : List Asset) (w : World), (vaultSystem kept).Reachable w → Bucketed w.vault := by
  intro hall
  have hinit : (vaultSystem []).Init (deploy sampleLaunch) := ⟨⟨_, _, _, rfl⟩, rfl⟩
  obtain ⟨w, hw, hbooks⟩ := System.runs_of_decide (S := vaultSystem []) (deploy sampleLaunch)
    (crossedLoans ++ redeemInTurn)
    (fun w => (w.vault.accounting 2).redeemed = 62 ∧ (w.vault.accounting 2).collateralBacking = 40)
    (by decide +kernel)
  have hle := (hall [] w (System.Reachable.runs (.init hinit) _ hw) 2).redeemed_le
  have hnumbers := of_decide_eq_true hbooks
  omega

end DikeProtocol.Vault
