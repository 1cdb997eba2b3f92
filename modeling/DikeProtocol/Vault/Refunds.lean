import DikeProtocol.Vault.Buckets

/-!
# Refunds of cancelled and of invalid markets

A cancelled market and a market that resolved to invalid refund half of what is
redeemed. The two settlement paths are compared on the same vault: they differ
in the settlement of what the redeemed position itself owes upstream.
-/

namespace DikeProtocol.Vault

open Lib

/-- The vault with another record of redeemed tokens. -/
def withRedeemed (v : VaultState) (redeemed : Store (MarketId × Address × Outcome) ℤ) :
    VaultState :=
  { v with redeemed := redeemed }

variable {v v' : VaultState} {r : Store (MarketId × Address × Outcome) ℤ} {m p : MarketId}
  {u : Address} {o : Outcome} {x : ℤ}

/-- Releasing drawn collateral does not look at the record of redeemed tokens. -/
theorem releaseChildUsed_withRedeemed (h : releaseChildUsed v p u o x = .ok v') :
    releaseChildUsed (withRedeemed v r) p u o x = .ok (withRedeemed v' r) := by
  unfold releaseChildUsed at h ⊢
  obtain ⟨byOutcome, h1, h⟩ := bind_ok.mp h
  obtain ⟨used, h2, h⟩ := bind_ok.mp h
  rw [← pure_ok.mp h]
  exact bind_ok.mpr ⟨byOutcome, h1, bind_ok.mpr ⟨used, h2, rfl⟩⟩

/-- Crediting a repayment does not either. -/
theorem creditRepayment_withRedeemed (h : creditRepayment v m x = .ok v') :
    creditRepayment (withRedeemed v r) m x = .ok (withRedeemed v' r) := by
  unfold creditRepayment at h ⊢
  obtain ⟨restored, h1, h⟩ := bind_ok.mp h
  obtain ⟨repaid, h2, h⟩ := bind_ok.mp h
  rw [← pure_ok.mp h]
  exact bind_ok.mpr ⟨restored, h1, bind_ok.mpr ⟨repaid, h2, rfl⟩⟩

/-- Booking a withheld claim does not either. -/
theorem restoreWithheld_withRedeemed (h : restoreWithheld v m u o x = .ok v') :
    restoreWithheld (withRedeemed v r) m u o x = .ok (withRedeemed v' r) := by
  unfold restoreWithheld at h ⊢
  by_cases hpos : x > 0
  · rw [if_pos hpos] at h ⊢
    obtain ⟨v1, h1, h⟩ := bind_ok.mp h
    exact bind_ok.mpr ⟨withRedeemed v1 r, releaseChildUsed_withRedeemed h1,
      creditRepayment_withRedeemed h⟩
  · rw [if_neg hpos] at h ⊢
    rw [← ok_ok.mp h]

/-- Clearing defaulted child debts does not either. -/
theorem clearChildDebts_withRedeemed (children : List MarketId) {remaining : ℤ}
    (h : clearChildDebts v p u o remaining children = .ok v') :
    clearChildDebts (withRedeemed v r) p u o remaining children = .ok (withRedeemed v' r) := by
  induction children generalizing v remaining with
  | nil =>
    rw [← ok_ok.mp h]
    rfl
  | cons child children ih =>
    unfold clearChildDebts at h ⊢
    dsimp only [withRedeemed] at h ⊢
    by_cases hdone : remaining = 0
    · rw [if_pos hdone] at h ⊢
      rw [← ok_ok.mp h]
    · rw [if_neg hdone] at h ⊢
      by_cases hfree : v.childDebt (child, u) = 0
      · rw [if_pos hfree] at h ⊢
        exact ih h
      · rw [if_neg hfree] at h ⊢
        obtain ⟨left, h1, h⟩ := bind_ok.mp h
        obtain ⟨v1, h2, h⟩ := bind_ok.mp h
        obtain ⟨rest, h3, h⟩ := bind_ok.mp h
        refine bind_ok.mpr ⟨left, h1, bind_ok.mpr ⟨withRedeemed v1 r, ?_, ?_⟩⟩
        · exact releaseChildUsed_withRedeemed h2
        · exact bind_ok.mpr ⟨rest, h3, ih h⟩

/-- A default does not either. -/
theorem resolveParentDefault_withRedeemed (h : resolveParentDefault v p u o x = .ok v') :
    resolveParentDefault (withRedeemed v r) p u o x = .ok (withRedeemed v' r) := by
  unfold resolveParentDefault at h ⊢
  by_cases hx : x ≤ 0
  · rw [if_pos hx] at h ⊢
    rw [← ok_ok.mp h]
  · rw [if_neg hx] at h ⊢
    dsimp only [withRedeemed] at h ⊢
    obtain ⟨defaulted, h1, h⟩ := bind_ok.mp h
    obtain ⟨unrecoverable, h2, h⟩ := bind_ok.mp h
    obtain ⟨drawn, h3, h⟩ := bind_ok.mp h
    obtain ⟨parent, h4, h⟩ := bind_ok.mp h
    refine bind_ok.mpr ⟨defaulted, h1, bind_ok.mpr ⟨unrecoverable, h2, bind_ok.mpr ⟨drawn, h3, ?_⟩⟩⟩
    exact bind_ok.mpr ⟨parent, h4, clearChildDebts_withRedeemed _ h⟩

/-- Withholding a claim does not either. -/
theorem withholdParentDebt_withRedeemed {gross claim : ℤ}
    (h : withholdParentDebt v m u o gross claim = .ok (x, v')) :
    withholdParentDebt (withRedeemed v r) m u o gross claim = .ok (x, withRedeemed v' r) := by
  unfold withholdParentDebt at h ⊢
  dsimp only [withRedeemed] at h ⊢
  by_cases hdebt : v.parentDebt (m, u, o) > 0
  · rw [if_pos hdebt] at h ⊢
    obtain ⟨unpaid, h1, h⟩ := bind_ok.mp h
    obtain ⟨v1, h2, h⟩ := bind_ok.mp h
    obtain ⟨v2, h3, h⟩ := bind_ok.mp h
    obtain ⟨rfl, rfl⟩ := Prod.mk.inj (pure_ok.mp h)
    refine bind_ok.mpr ⟨unpaid, h1, bind_ok.mpr ⟨withRedeemed v1 r, ?_, ?_⟩⟩
    · exact restoreWithheld_withRedeemed h2
    · refine bind_ok.mpr ⟨withRedeemed v2 r, ?_, rfl⟩
      by_cases hlost : gross = 0 ∧ unpaid > 0
      · rw [if_pos hlost] at h3 ⊢
        exact resolveParentDefault_withRedeemed h3
      · rw [if_neg hlost] at h3 ⊢
        rw [← ok_ok.mp h3]
  · rw [if_neg hdebt] at h ⊢
    obtain ⟨rfl, rfl⟩ := Prod.mk.inj (ok_ok.mp h)
    rfl

/-- A refund is half of the amount with the carry folded in. -/
theorem refundWithCarry_value {amount gross : ℤ}
    (h : refundWithCarry v m amount = .ok (gross, v')) :
    gross = (v.invalidDustCarry m + amount).tdiv 2 ∧
      ∃ carry, v' = withCarry v m carry := by
  unfold refundWithCarry invalidRefund at h
  obtain ⟨effective, h1, h⟩ := bind_ok.mp h
  obtain ⟨refund, h2, h⟩ := bind_ok.mp h
  obtain ⟨doubled, _, h⟩ := bind_ok.mp h
  obtain ⟨carry, _, h⟩ := bind_ok.mp h
  obtain ⟨rfl, rfl⟩ := Prod.mk.inj (pure_ok.mp h)
  rw [(checkedDiv_ok.mp h2).2.1, (checkedAdd_ok.mp h1).1]
  exact ⟨rfl, carry, rfl⟩

/-- A position that owes nothing, or that is refunded nothing, settles nothing upstream. -/
theorem repayUpstream_idle {claim : ℤ} (h : repayUpstream v m u claim = .ok (x, v'))
    (hidle : v.childDebt (m, u) = 0 ∨ claim ≤ 0) : x = 0 ∧ v' = v := by
  have hsettle : settleChildDebt v m u claim = .ok (0, v) := by
    unfold settleChildDebt
    dsimp only
    by_cases hclaim : claim ≤ 0
    · rw [if_pos hclaim]
    · rw [if_neg hclaim, if_pos (hidle.resolve_right hclaim)]
  obtain ⟨v1, h1, rfl⟩ := repayUpstream_steps h
  rw [hsettle] at h1
  obtain ⟨rfl, rfl⟩ := Prod.mk.inj (ok_ok.mp h1)
  exact ⟨rfl, if_neg (lt_irrefl 0)⟩

/-- Nothing beyond the claim is settled upstream. -/
theorem repayUpstream_le {claim : ℤ} (h : repayUpstream v m u claim = .ok (x, v'))
    (hclaim : 0 ≤ claim) : x ≤ claim := by
  obtain ⟨v1, h1, _⟩ := repayUpstream_steps h
  obtain ⟨rfl, _, _⟩ | ⟨rfl, _, _, _⟩ | ⟨hx, _, _, _⟩ | ⟨hx, _, _, _, _⟩ := settleChildDebt_cases h1
  · exact hclaim
  · exact hclaim
  · omega
  · omega

/-- A position that owes something and settles a positive claim owes something
else afterwards. -/
theorem repayUpstream_changes {claim : ℤ} (h : repayUpstream v m u claim = .ok (x, v'))
    (hdebt : v.childDebt (m, u) ≠ 0) (hclaim : 0 < claim) :
    v'.childDebt (m, u) ≠ v.childDebt (m, u) := by
  obtain ⟨v1, h1, rfl⟩ := repayUpstream_steps h
  have heff : effectiveDebt v m u = 0 → v.childParent (m, u) ≠ 0 ∧
      v.parentDebt (v.childParent (m, u), u, v.childParentOutcome (m, u)) = 0 := by
    intro hzero
    unfold effectiveDebt at hzero
    dsimp only at hzero
    split at hzero
    · next hup => exact ⟨hup.1, hzero⟩
    · exact absurd hzero hdebt
  have hv1 : v1.childDebt (m, u) ≠ v.childDebt (m, u) := by
    obtain ⟨_, _, hr | hraw | ⟨hmin, hfresh⟩⟩ | ⟨_, rfl, _, _⟩ | ⟨hx, _, hroot, rfl⟩ |
      ⟨hx, _, _, hup, rfl⟩ := settleChildDebt_cases h1
    · omega
    · exact absurd hraw hdebt
    · exact absurd (heff (by omega)) hfresh
    · unfold withChildDebt
      dsimp only
      rw [Store.set_get_self]
      exact hdebt.symm
    · unfold withChildDebt
      dsimp only
      rw [Store.set_get_self]
      intro hsame
      exact (heff (by omega)).1 hroot
    · unfold repaidUpstream
      dsimp only
      rw [Store.set_get_self]
      intro hsame
      exact hup (heff (by omega)).2
  split
  · exact hv1
  · exact hv1

/-- Withholding out of a refund that is worth something touches no child debt. -/
theorem withholdParentDebt_childDebt {gross claim : ℤ} (hgross : gross ≠ 0) (hclaim : 0 ≤ claim)
    (h : withholdParentDebt v m u o gross claim = .ok (x, v')) : v'.childDebt = v.childDebt := by
  obtain ⟨_, _, rfl⟩ | ⟨_, _, _, _, rfl⟩ | ⟨_, _, _, _, rfl⟩ | ⟨_, hzero, _, _⟩ :=
    withholdParentDebt_cases h hclaim (fun hg => absurd hg hgross)
  · rfl
  · rfl
  · rfl
  · exact absurd hzero hgross

/-- Two vaults that agree on every debt, every drawn stake, the dust carry, the
reserve and the books of every market. -/
structure SameSettlement (v v' : VaultState) : Prop where
  childDebt : ∀ k, v'.childDebt k = v.childDebt k
  parentDebt : ∀ k, v'.parentDebt k = v.parentDebt k
  childUsed : ∀ k, v'.childUsed k = v.childUsed k
  childUsedByOutcome : ∀ k, v'.childUsedByOutcome k = v.childUsedByOutcome k
  carry : ∀ m, v'.invalidDustCarry m = v.invalidDustCarry m
  reserve : v'.insuranceReserve = v.insuranceReserve
  accounting : ∀ m, v'.accounting m = v.accounting m

/-- The world in which the registry reports this market. -/
def reporting (w : World) (m : MarketId) (market : MarketData) : World :=
  { w with registry := { w.registry with market := w.registry.market.set m (some market) } }

/-- The world in which the registry reports the market cancelled. -/
def cancelledIn (w : World) (m : MarketId) (market : MarketData) : World :=
  reporting w m { market with status := .cancelled, hasFinalOutcome := false }

/-- The world in which the registry reports the market resolved to invalid. -/
def invalidIn (w : World) (m : MarketId) (market : MarketData) : World :=
  reporting w m { market with
    status := .resolved
    hasFinalOutcome := true
    finalOutcome := .invalid }

/-- A market is reported as it was set. -/
theorem reporting_market {w : World} {market reported : MarketData}
    (h : (reporting w m market).registry.market m = some reported) : reported = market := by
  unfold reporting at h
  dsimp only at h
  rw [Store.set_get_self] at h
  exact (Option.some.inj h).symm

section Refund

variable {ctx : Ctx} {w w₁ w₂ : World} {token : Asset} {market : MarketData} {amount y₁ y₂ : ℤ}

/-- A refund of a position that settles nothing upstream is the same either way. -/
theorem refund_same (hidle : w.vault.childDebt (m, u) = 0 ∨ w.vault.invalidDustCarry m + amount < 2)
    (hc : redeemCancelled ctx (cancelledIn w m market) token u m o amount = .ok (y₁, w₁))
    (hr : redeemResolved ctx (invalidIn w m market) token u m o amount = .ok (y₂, w₂)) :
    y₁ = y₂ ∧ SameSettlement w₁.vault w₂.vault := by
  obtain ⟨_, _, _, v1, _, _, _, _, _, hsettle, hpay⟩ := redeemCancelled_steps hc
  obtain ⟨gross, v2, withheld, hrefund, hwithhold, hcap⟩ := settleCancelled_steps hsettle
  obtain ⟨_, market', gross', v1', _, v2', _, hm, _, _, hsettle', _, hretire, hpay'⟩ :=
    redeemResolved_steps hr
  obtain ⟨va, vb, paid, vc, withheld', hgross', hadd, hup, hwithhold', hcap'⟩ :=
    settleResolved_steps hsettle'
  rw [reporting_market hm] at hgross'
  change refundWithCarry w.vault m amount = .ok (gross', va) at hgross'
  change refundWithCarry w.vault m amount = .ok (gross, v2) at hrefund
  rw [hrefund] at hgross'
  obtain ⟨rfl, rfl⟩ := Prod.mk.inj (ok_ok.mp hgross')
  obtain ⟨hvalue, carry, hcarry⟩ := refundWithCarry_value hrefund
  have hcounted := addRedeemed_ok hadd
  have hidle' : vb.childDebt (m, u) = 0 ∨ gross ≤ 0 := by
    rw [hcounted, hcarry]
    refine hidle.imp id (fun hk => ?_)
    rw [hvalue]
    by_cases hneg : w.vault.invalidDustCarry m + amount < 0
    · have hnonneg := Int.tdiv_nonneg (by omega : 0 ≤ -(w.vault.invalidDustCarry m + amount))
        (by decide : (0 : ℤ) ≤ 2)
      rw [Int.neg_tdiv] at hnonneg
      omega
    · rw [Int.tdiv_eq_ediv_of_nonneg (by omega)]
      omega
  obtain ⟨rfl, rfl⟩ := repayUpstream_idle hup hidle'
  rw [sub_zero] at hwithhold' hcap'
  have hsame := withholdParentDebt_withRedeemed
    (r := v2.redeemed.set (m, u, o) (v2.redeemed (m, u, o) + amount)) hwithhold
  rw [hcounted] at hwithhold'
  have hboth := hsame.symm.trans hwithhold'
  obtain ⟨rfl, rfl⟩ := Prod.mk.inj (ok_ok.mp hboth)
  have hpayout : y₁ = y₂ := ok_ok.mp (hcap.symm.trans hcap')
  obtain ⟨_, rfl⟩ := payRedemption_ok hpay
  obtain ⟨_, rfl⟩ := payRedemption_ok hpay'
  obtain ⟨_, _, rfl⟩ := retireClaim_ok hretire
  subst hpayout
  exact ⟨rfl, fun _ => rfl, fun _ => rfl, fun _ => rfl, fun _ => rfl, fun _ => rfl, rfl,
    fun _ => rfl⟩

/-- A refund worth something of a position that owes something leaves another
child debt behind either way. -/
theorem refund_differs (hdebt : w.vault.childDebt (m, u) ≠ 0)
    (hworth : 2 ≤ w.vault.invalidDustCarry m + amount)
    (hc : redeemCancelled ctx (cancelledIn w m market) token u m o amount = .ok (y₁, w₁))
    (hr : redeemResolved ctx (invalidIn w m market) token u m o amount = .ok (y₂, w₂)) :
    w₂.vault.childDebt (m, u) ≠ w₁.vault.childDebt (m, u) := by
  obtain ⟨_, _, _, v1, _, _, _, _, _, hsettle, hpay⟩ := redeemCancelled_steps hc
  obtain ⟨gross, v2, withheld, hrefund, hwithhold, _⟩ := settleCancelled_steps hsettle
  obtain ⟨_, market', gross', v1', _, v2', _, hm, _, _, hsettle', _, hretire, hpay'⟩ :=
    redeemResolved_steps hr
  obtain ⟨va, vb, paid, vc, withheld', hgross', hadd, hup, hwithhold', _⟩ :=
    settleResolved_steps hsettle'
  rw [reporting_market hm] at hgross'
  change refundWithCarry w.vault m amount = .ok (gross', va) at hgross'
  change refundWithCarry w.vault m amount = .ok (gross, v2) at hrefund
  rw [hrefund] at hgross'
  obtain ⟨rfl, rfl⟩ := Prod.mk.inj (ok_ok.mp hgross')
  obtain ⟨hvalue, carry, hcarry⟩ := refundWithCarry_value hrefund
  rw [Int.tdiv_eq_ediv_of_nonneg (by omega)] at hvalue
  have hcounted := addRedeemed_ok hadd
  have hstart : vb.childDebt = w.vault.childDebt := by
    rw [hcounted, hcarry]
    rfl
  have hchanged := repayUpstream_changes hup (by rw [hstart]; exact hdebt) (by omega)
  have hpaid := repayUpstream_le hup (by omega)
  have hkept := withholdParentDebt_childDebt (by omega) (by omega) hwithhold
  have hkept' := withholdParentDebt_childDebt (by omega) (by omega) hwithhold'
  obtain ⟨_, rfl⟩ := payRedemption_ok hpay
  obtain ⟨_, rfl⟩ := payRedemption_ok hpay'
  obtain ⟨_, _, rfl⟩ := retireClaim_ok hretire
  dsimp only
  rw [hkept', hkept, hcarry]
  rw [hstart] at hchanged
  exact hchanged

/-- Cancelling a market and resolving it to invalid settle a refund alike
exactly when the position owes nothing upstream or the refund is worth nothing. -/
theorem refund_same_iff
    (hc : redeemCancelled ctx (cancelledIn w m market) token u m o amount = .ok (y₁, w₁))
    (hr : redeemResolved ctx (invalidIn w m market) token u m o amount = .ok (y₂, w₂)) :
    (y₁ = y₂ ∧ SameSettlement w₁.vault w₂.vault) ↔
      w.vault.childDebt (m, u) = 0 ∨ w.vault.invalidDustCarry m + amount < 2 := by
  constructor
  · rintro ⟨_, hsame⟩
    by_contra hk
    obtain ⟨hdebt, hworth⟩ := not_or.mp hk
    exact refund_differs hdebt (by omega) hc hr (hsame.childDebt (m, u))
  · intro hidle
    exact refund_same hidle hc hr

end Refund

/-- Alice owes 60 upstream on her 60 tokens of market 2, carol holds 100 in cash. -/
def beforeRefund : List VaultStep :=
  loanSteps ++
    [.outside (resolvedSurroundings (Bank.empty.issue sampleToken (.contract .vault) 100))]

/-- Carol owes nothing, so her refund of 5 tokens pays 2 and settles alike either way. -/
theorem refund_same_for_carol : ∃ w y₁ w₁ y₂ w₂,
    redeemCancelled (bySigner carol) (cancelledIn w 2 (sampleMarket 2 .live none)) sampleToken
      carol 2 .yes 5 = .ok (y₁, w₁) ∧
    redeemResolved (bySigner carol) (invalidIn w 2 (sampleMarket 2 .live none)) sampleToken carol 2
      .yes 5 = .ok (y₂, w₂) ∧ y₁ = 2 ∧ y₁ = y₂ ∧ SameSettlement w₁.vault w₂.vault := by
  obtain ⟨w, _, hcalls⟩ := System.runs_of_decide (S := vaultSystem []) (deploy sampleLaunch)
    beforeRefund
    (fun w => okWith (redeemCancelled (bySigner carol) (cancelledIn w 2 (sampleMarket 2 .live none))
        sampleToken carol 2 .yes 5) (fun r => decide (r.1 = 2)) &&
      okWith (redeemResolved (bySigner carol) (invalidIn w 2 (sampleMarket 2 .live none))
        sampleToken carol 2 .yes 5) (fun _ => true) &&
      decide (w.vault.childDebt (2, carol) = 0)) (by decide +kernel)
  obtain ⟨hboth, hfree⟩ := Bool.and_eq_true_iff.mp hcalls
  obtain ⟨hfirst, hsecond⟩ := Bool.and_eq_true_iff.mp hboth
  obtain ⟨⟨y₁, w₁⟩, h₁, hpaid⟩ := okWith_iff.mp hfirst
  obtain ⟨⟨y₂, w₂⟩, h₂, _⟩ := okWith_iff.mp hsecond
  have hsame := (refund_same_iff h₁ h₂).mpr (Or.inl (of_decide_eq_true hfree))
  exact ⟨w, y₁, w₁, y₂, w₂, h₁, h₂, of_decide_eq_true hpaid, hsame⟩

/-- Alice takes a refund of 30 out of the cancelled market while she still owes
60, and nothing when the same market resolved to invalid. -/
theorem not_always_refund_same : ¬∀ w, (vaultSystem []).Reachable w →
    ∀ ctx token user m market o amount y₁ w₁ y₂ w₂,
      redeemCancelled ctx (cancelledIn w m market) token user m o amount = .ok (y₁, w₁) →
      redeemResolved ctx (invalidIn w m market) token user m o amount = .ok (y₂, w₂) →
      y₁ = y₂ ∧ SameSettlement w₁.vault w₂.vault := by
  intro hall
  have hinit : (vaultSystem []).Init (deploy sampleLaunch) := ⟨⟨_, _, _, rfl⟩, rfl⟩
  obtain ⟨w, hw, hcalls⟩ := System.runs_of_decide (S := vaultSystem []) (deploy sampleLaunch)
    beforeRefund
    (fun w => okWith (redeemCancelled (bySigner alice) (cancelledIn w 2 (sampleMarket 2 .live none))
        sampleToken alice 2 .yes 60) (fun r => decide (r.1 = 30)) &&
      okWith (redeemResolved (bySigner alice) (invalidIn w 2 (sampleMarket 2 .live none))
        sampleToken alice 2 .yes 60) (fun r => decide (r.1 = 0))) (by decide +kernel)
  obtain ⟨hfirst, hsecond⟩ := Bool.and_eq_true_iff.mp hcalls
  obtain ⟨⟨y₁, w₁⟩, h₁, hpaid⟩ := okWith_iff.mp hfirst
  obtain ⟨⟨y₂, w₂⟩, h₂, hnothing⟩ := okWith_iff.mp hsecond
  have hsame := (hall w (System.Reachable.runs (.init hinit) beforeRefund hw) _ _ _ _ _ _ _ _ _ _ _
    h₁ h₂).1
  have h30 := of_decide_eq_true hpaid
  have h0 := of_decide_eq_true hnothing
  dsimp only at h30 h0
  omega

end DikeProtocol.Vault
