import DikeProtocol.Vault.Entry

/-!
# What the vault's internal functions write

For each internal function, the exact storage it leaves when it succeeds.
Later results cite these lemmas and do not unfold the functions again.
-/

namespace DikeProtocol.Vault

open Lib

/-- Crediting backing raises it and the refundable amount. -/
theorem creditBacking_ok {a a' : VaultAccounting} {x : ℤ} (h : creditBacking a x = .ok a') :
    a' = { a with
      collateralBacking := a.collateralBacking + x
      refundable := a.refundable + x } := by
  unfold creditBacking at h
  obtain ⟨b, hb, h⟩ := bind_ok.mp h
  obtain ⟨r, hr, h⟩ := bind_ok.mp h
  rw [← pure_ok.mp h, (checkedAdd_ok.mp hb).1, (checkedAdd_ok.mp hr).1]

/-- Debiting backing lowers it and the refundable amount. -/
theorem debitBacking_ok {a a' : VaultAccounting} {x : ℤ} (h : debitBacking a x = .ok a') :
    a' = { a with
      collateralBacking := a.collateralBacking - x
      refundable := a.refundable - x } := by
  unfold debitBacking at h
  obtain ⟨b, hb, h⟩ := bind_ok.mp h
  obtain ⟨r, hr, h⟩ := bind_ok.mp h
  rw [← pure_ok.mp h, (checkedSub_ok.mp hb).1, (checkedSub_ok.mp hr).1]

/-- Adding to a stored value writes the sum. -/
theorem addTo_ok {K : Type} [DecidableEq K] {s s' : Store K ℤ} {k : K} {x : ℤ}
    (h : addTo s k x = .ok s') : s' = s.set k (s k + x) := by
  unfold addTo at h
  obtain ⟨n, hn, h⟩ := bind_ok.mp h
  rw [← pure_ok.mp h, (checkedAdd_ok.mp hn).1]

/-- A saturating subtraction stops at nothing. -/
theorem saturatingSub_ok {K : Type} [DecidableEq K] {s s' : Store K ℤ} {k : K} {x : ℤ}
    (h : saturatingSub s k x = .ok s') : s' = s.set k (max (s k - x) 0) := by
  unfold saturatingSub at h
  obtain ⟨n, hn, h⟩ := bind_ok.mp h
  rw [← pure_ok.mp h, (checkedSub_ok.mp hn).1]
  congr 1
  split <;> omega

/-- The records of child collateral drawn from a stake, after a release. -/
theorem releaseChildUsed_ok {v v' : VaultState} {m : MarketId} {u : Address} {o : Outcome} {x : ℤ}
    (h : releaseChildUsed v m u o x = .ok v') :
    v' = { v with
      childUsedByOutcome :=
        v.childUsedByOutcome.set (m, u, o) (max (v.childUsedByOutcome (m, u, o) - x) 0)
      childUsed := v.childUsed.set (m, u) (max (v.childUsed (m, u) - x) 0) } := by
  unfold releaseChildUsed at h
  obtain ⟨b, hb, h⟩ := bind_ok.mp h
  obtain ⟨s, hs, h⟩ := bind_ok.mp h
  rw [← pure_ok.mp h, saturatingSub_ok hb, saturatingSub_ok hs]

/-- The books of a market after a repayment was credited to it. -/
def repaidBy (a : VaultAccounting) (x : ℤ) : VaultAccounting :=
  { a with
    collateralBacking := a.collateralBacking + x
    refundable := a.refundable + x
    childCollateralRepaid := a.childCollateralRepaid + x }

/-- Crediting a repayment touches one market's books. -/
theorem creditRepayment_ok {v v' : VaultState} {m : MarketId} {x : ℤ}
    (h : creditRepayment v m x = .ok v') :
    v' = { v with accounting := v.accounting.set m (repaidBy (v.accounting m) x) } := by
  unfold creditRepayment at h
  obtain ⟨a, ha, h⟩ := bind_ok.mp h
  obtain ⟨r, hr, h⟩ := bind_ok.mp h
  rw [← pure_ok.mp h, (checkedAdd_ok.mp hr).1, creditBacking_ok ha]
  rfl

/-- The vault after a child repaid `x` of a debt it owes upstream. -/
def repaidUpstream (v : VaultState) (c : MarketId) (u : Address) (x : ℤ) : VaultState :=
  let p := v.childParent (c, u)
  let po := v.childParentOutcome (c, u)
  { v with
    childDebt := v.childDebt.set (c, u) (v.childDebt (c, u) - x)
    parentDebt := v.parentDebt.set (p, u, po) (v.parentDebt (p, u, po) - x)
    childUsedByOutcome :=
      v.childUsedByOutcome.set (p, u, po) (max (v.childUsedByOutcome (p, u, po) - x) 0)
    childUsed := v.childUsed.set (p, u) (max (v.childUsed (p, u) - x) 0)
    accounting := v.accounting.set p (repaidBy (v.accounting p) x) }

/-- The vault after a child debt was overwritten and nothing else. -/
def withChildDebt (v : VaultState) (c : MarketId) (u : Address) (x : ℤ) : VaultState :=
  { v with childDebt := v.childDebt.set (c, u) x }

/-- The four ways a settlement of child debt ends: nothing to do, a stale debt
zeroed, a debt without a parent reduced, or a repayment credited upstream. -/
theorem settleChildDebt_cases {v v' : VaultState} {c : MarketId} {u : Address} {r x : ℤ}
    (h : settleChildDebt v c u r = .ok (x, v')) :
    (x = 0 ∧ v' = v ∧ (r ≤ 0 ∨ v.childDebt (c, u) = 0 ∨ (min r (effectiveDebt v c u) = 0 ∧
      ¬(v.childParent (c, u) ≠ 0 ∧
        v.parentDebt (v.childParent (c, u), u, v.childParentOutcome (c, u)) = 0)))) ∨
    (x = 0 ∧ v' = withChildDebt v c u 0 ∧ v.childParent (c, u) ≠ 0 ∧
      v.parentDebt (v.childParent (c, u), u, v.childParentOutcome (c, u)) = 0) ∨
    (x = min r (effectiveDebt v c u) ∧ 0 < r ∧ v.childParent (c, u) = 0 ∧
      v' = withChildDebt v c u (v.childDebt (c, u) - x)) ∨
    (x = min r (effectiveDebt v c u) ∧ 0 < r ∧ v.childParent (c, u) ≠ 0 ∧
      v.parentDebt (v.childParent (c, u), u, v.childParentOutcome (c, u)) ≠ 0 ∧
      v' = repaidUpstream v c u x) := by
  have hmin : ∀ a b : ℤ, (if a > b then b else a) = min a b := by
    intro a b
    split <;> omega
  unfold settleChildDebt at h
  simp only [hmin] at h
  split at h
  · next hr =>
    obtain ⟨rfl, rfl⟩ := Prod.mk.inj (ok_ok.mp h)
    exact Or.inl ⟨rfl, rfl, Or.inl hr⟩
  · next hr =>
    have hpos : 0 < r := by omega
    split at h
    · next hraw =>
      obtain ⟨rfl, rfl⟩ := Prod.mk.inj (ok_ok.mp h)
      exact Or.inl ⟨rfl, rfl, Or.inr (Or.inl hraw)⟩
    · split at h
      · next hstale =>
        obtain ⟨rfl, rfl⟩ := Prod.mk.inj (ok_ok.mp h)
        exact Or.inr (Or.inl ⟨rfl, rfl, hstale.1, hstale.2⟩)
      · next hfresh =>
        split at h
        · next hzero =>
          obtain ⟨rfl, rfl⟩ := Prod.mk.inj (ok_ok.mp h)
          exact Or.inl ⟨rfl, rfl, Or.inr (Or.inr ⟨hzero, hfresh⟩)⟩
        · obtain ⟨left, hleft, h⟩ := bind_ok.mp h
          have hleft' := (checkedSub_ok.mp hleft).1
          split at h
          · next hroot =>
            obtain ⟨rfl, rfl⟩ := Prod.mk.inj (pure_ok.mp h)
            refine Or.inr (Or.inr (Or.inl ⟨rfl, hpos, hroot, ?_⟩))
            rw [withChildDebt, hleft']
          · next hparent =>
            obtain ⟨up, hup, h⟩ := bind_ok.mp h
            obtain ⟨v1, h1, h⟩ := bind_ok.mp h
            obtain ⟨v2, h2, h⟩ := bind_ok.mp h
            obtain ⟨rfl, rfl⟩ := Prod.mk.inj (pure_ok.mp h)
            refine Or.inr (Or.inr (Or.inr ⟨rfl, hpos, hparent, fun hk => hfresh ⟨hparent, hk⟩, ?_⟩))
            rw [creditRepayment_ok h2, releaseChildUsed_ok h1, (checkedSub_ok.mp hup).1, hleft',
              repaidUpstream]

/-- What every settlement of one child of a user keeps, paying down all of them keeps. -/
theorem settleChildren_keeps {I : VaultState → Prop} {u : Address}
    (hone : ∀ {v v' : VaultState} {c : MarketId} {r x : ℤ},
      settleChildDebt v c u r = .ok (x, v') → I v → I v')
    (children : List MarketId) {v v' : VaultState} {pool pool' paid paid' : ℤ}
    (h : settleChildren v u pool paid children = .ok (pool', paid', v')) (hv : I v) : I v' := by
  induction children generalizing v pool paid with
  | nil =>
    obtain ⟨_, h2⟩ := Prod.mk.inj (ok_ok.mp h)
    obtain ⟨_, rfl⟩ := Prod.mk.inj h2
    exact hv
  | cons child children ih =>
    unfold settleChildren at h
    split at h
    · obtain ⟨_, h2⟩ := Prod.mk.inj (ok_ok.mp h)
      obtain ⟨_, rfl⟩ := Prod.mk.inj h2
      exact hv
    · obtain ⟨⟨x, v1⟩, h1, h⟩ := bind_ok.mp h
      obtain ⟨pool1, _, h⟩ := bind_ok.mp h
      obtain ⟨paid1, _, h⟩ := bind_ok.mp h
      exact ih h (hone h1 hv)

/-- A settlement defaults nothing. -/
theorem settleChildDebt_defaulted {v v' : VaultState} {c : MarketId} {u : Address} {r x : ℤ}
    (h : settleChildDebt v c u r = .ok (x, v')) (m : MarketId) :
    (v'.accounting m).childCollateralDefaulted = (v.accounting m).childCollateralDefaulted := by
  obtain ⟨_, rfl, _⟩ | ⟨_, rfl, _, _⟩ | ⟨_, _, _, rfl⟩ | ⟨_, _, _, _, rfl⟩ :=
    settleChildDebt_cases h
  · rfl
  · rfl
  · rfl
  · unfold repaidUpstream
    dsimp only
    rw [Store.set_get]
    split
    · next hm =>
      rw [hm]
      rfl
    · rfl

/-- Clearing defaulted debt writes nothing but child debts and the records of
drawn collateral at the one parent stake, and makes none of them negative. -/
theorem clearChildDebts_ok {p : MarketId} {u : Address} {o : Outcome} (children : List MarketId)
    {v v' : VaultState} {remaining : ℤ}
    (h : clearChildDebts v p u o remaining children = .ok v') :
    ∃ debt byOutcome used,
      v' = { v with childDebt := debt, childUsedByOutcome := byOutcome, childUsed := used } ∧
      ((∀ k, 0 ≤ v.childDebt k) → ∀ k, 0 ≤ debt k) ∧
      (∀ k, k ≠ (p, u, o) → byOutcome k = v.childUsedByOutcome k) ∧
      (0 ≤ v.childUsedByOutcome (p, u, o) → 0 ≤ byOutcome (p, u, o)) := by
  induction children generalizing v remaining with
  | nil =>
    have hv := ok_ok.mp h
    exact ⟨_, _, _, hv.symm, fun hd => hd, fun _ _ => rfl, fun hu => hu⟩
  | cons child children ih =>
    unfold clearChildDebts at h
    dsimp only at h
    split at h
    · have hv := ok_ok.mp h
      exact ⟨_, _, _, hv.symm, fun hd => hd, fun _ _ => rfl, fun hu => hu⟩
    · split at h
      · exact ih h
      · obtain ⟨left, hleft, h⟩ := bind_ok.mp h
        obtain ⟨v1, h1, h⟩ := bind_ok.mp h
        obtain ⟨rest, hrest, h⟩ := bind_ok.mp h
        obtain ⟨debt, byOutcome, used, hv, hdebt, hother, hused⟩ := ih h
        have hleft' := (checkedSub_ok.mp hleft).1
        rw [releaseChildUsed_ok h1] at hv hdebt hother hused
        refine ⟨debt, byOutcome, used, hv, ?_, ?_, ?_⟩
        · intro hd
          apply hdebt
          intro k
          have hk := hd k
          by_cases hc : k = (child, u)
          · subst hc
            rw [Store.set_get_self, hleft']
            split <;> omega
          · rw [Store.set_get_of_ne _ _ hc]
            exact hk
        · intro k hk
          rw [hother k hk, Store.set_get_of_ne _ _ hk]
        · intro _
          apply hused
          rw [Store.set_get_self]
          exact le_max_right _ _

/-- A draw on the reserve moves the amount into the market's backing. -/
theorem drawReserve_ok {reserve reserve' x : ℤ} {a a' : VaultAccounting} (hx : 0 ≤ x)
    (h : drawReserve reserve a x = .ok (reserve', a')) :
    reserve' = reserve - x ∧
      a' = { a with
        collateralBacking := a.collateralBacking + x
        refundable := a.refundable + x } := by
  unfold drawReserve at h
  split at h
  · obtain ⟨left, hleft, h⟩ := bind_ok.mp h
    obtain ⟨credited, hcred, h⟩ := bind_ok.mp h
    obtain ⟨rfl, rfl⟩ := Prod.mk.inj (pure_ok.mp h)
    exact ⟨(checkedSub_ok.mp hleft).1, creditBacking_ok hcred⟩
  · have hzero : x = 0 := by omega
    obtain ⟨rfl, rfl⟩ := Prod.mk.inj (ok_ok.mp h)
    rw [hzero]
    exact ⟨(sub_zero _).symm, by simp only [add_zero]⟩

/-- A booked shortfall raises the market's shortfall. -/
theorem bookShortfall_ok {a a' : VaultAccounting} {x : ℤ} (hx : 0 ≤ x)
    (h : bookShortfall a x = .ok a') : a' = { a with shortfall := a.shortfall + x } := by
  unfold bookShortfall at h
  split at h
  · obtain ⟨shortfall, hsum, h⟩ := bind_ok.mp h
    rw [← pure_ok.mp h, (checkedAdd_ok.mp hsum).1]
  · have hzero : x = 0 := by omega
    rw [← ok_ok.mp h, hzero]
    simp only [add_zero]

/-- The books of a parent market after a default of `x`, `draw` of it restored
from the reserve. -/
def defaultedBy (a : VaultAccounting) (x draw : ℤ) : VaultAccounting :=
  { a with
    childCollateralDefaulted := a.childCollateralDefaulted + x
    collateralBacking := a.collateralBacking + draw
    refundable := a.refundable + draw
    shortfall := a.shortfall + (x - draw) }

/-- A default books the whole amount it was passed, draws on the reserve first,
and zeroes the parent debt whatever it was. -/
theorem resolveParentDefault_ok {v v' : VaultState} {p : MarketId} {u : Address} {o : Outcome}
    {x : ℤ} (hx : 0 < x) (hr : 0 ≤ v.insuranceReserve)
    (h : resolveParentDefault v p u o x = .ok v') :
    ∃ debt byOutcome used,
      v' = { v with
        accounting :=
          v.accounting.set p (defaultedBy (v.accounting p) x (min x v.insuranceReserve))
        insuranceReserve := v.insuranceReserve - min x v.insuranceReserve
        parentDebt := v.parentDebt.set (p, u, o) 0
        childDebt := debt
        childUsedByOutcome := byOutcome
        childUsed := used } ∧
      ((∀ k, 0 ≤ v.childDebt k) → ∀ k, 0 ≤ debt k) ∧
      (∀ k, k ≠ (p, u, o) → byOutcome k = v.childUsedByOutcome k) ∧
      (0 ≤ v.childUsedByOutcome (p, u, o) → 0 ≤ byOutcome (p, u, o)) := by
  have hmin : (if x > v.insuranceReserve then v.insuranceReserve else x) =
      min x v.insuranceReserve := by
    split <;> omega
  unfold resolveParentDefault at h
  rw [if_neg (by omega : ¬x ≤ 0)] at h
  simp only [hmin] at h
  obtain ⟨defaulted, hdef, h⟩ := bind_ok.mp h
  obtain ⟨unrec, hunrec, h⟩ := bind_ok.mp h
  obtain ⟨⟨reserve, parent⟩, hdraw, h⟩ := bind_ok.mp h
  obtain ⟨parent', hshort, h⟩ := bind_ok.mp h
  have hdef' := (checkedAdd_ok.mp hdef).1
  have hunrec' := (checkedSub_ok.mp hunrec).1
  obtain ⟨hreserve, hparent⟩ := drawReserve_ok (by omega) hdraw
  have hshort' := bookShortfall_ok (by omega) hshort
  rw [hparent, hunrec', hdef'] at hshort'
  obtain ⟨debt, byOutcome, used, hv, hdebt, hother, hused⟩ := clearChildDebts_ok _ h
  rw [hreserve, hshort'] at hv
  exact ⟨debt, byOutcome, used, hv, hdebt, hother, hused⟩

/-- The vault after `x` of a parent debt was withheld from its owner's claim. -/
def withheldBy (v : VaultState) (m : MarketId) (u : Address) (o : Outcome) (x : ℤ) : VaultState :=
  { v with
    parentDebt := v.parentDebt.set (m, u, o) (v.parentDebt (m, u, o) - x)
    childUsedByOutcome :=
      v.childUsedByOutcome.set (m, u, o) (max (v.childUsedByOutcome (m, u, o) - x) 0)
    childUsed := v.childUsed.set (m, u) (max (v.childUsed (m, u) - x) 0)
    accounting := v.accounting.set m (repaidBy (v.accounting m) x) }

/-- The three ways a claim meets the debt on its own stake: no debt, a debt of
which the claim pays a part, or a worthless redemption that defaults it. -/
theorem withholdParentDebt_cases {v v' : VaultState} {m : MarketId} {u : Address} {o : Outcome}
    {g claim x : ℤ} (h : withholdParentDebt v m u o g claim = .ok (x, v')) (hclaim : 0 ≤ claim)
    (hg : g = 0 → claim = 0) :
    (v.parentDebt (m, u, o) ≤ 0 ∧ x = min (v.parentDebt (m, u, o)) claim ∧ v' = v) ∨
    (0 < v.parentDebt (m, u, o) ∧ 0 < x ∧ x = min (v.parentDebt (m, u, o)) claim ∧ g ≠ 0 ∧
      v' = withheldBy v m u o x) ∨
    (0 < v.parentDebt (m, u, o) ∧ claim = 0 ∧ x = 0 ∧ g ≠ 0 ∧
      v' = { v with parentDebt := v.parentDebt.set (m, u, o) (v.parentDebt (m, u, o)) }) ∨
    (0 < v.parentDebt (m, u, o) ∧ g = 0 ∧ x = 0 ∧ 
      resolveParentDefault
        { v with parentDebt := v.parentDebt.set (m, u, o) (v.parentDebt (m, u, o)) } m u o
        (v.parentDebt (m, u, o)) = .ok v') := by
  have hmin : (if v.parentDebt (m, u, o) > claim then claim else v.parentDebt (m, u, o)) =
      min (v.parentDebt (m, u, o)) claim := by
    split <;> omega
  unfold withholdParentDebt at h
  simp only [hmin] at h
  split at h
  · next hpos =>
    obtain ⟨unpaid, hunpaid, h⟩ := bind_ok.mp h
    obtain ⟨v1, h1, h⟩ := bind_ok.mp h
    obtain ⟨v2, h2, h⟩ := bind_ok.mp h
    obtain ⟨rfl, rfl⟩ := Prod.mk.inj (pure_ok.mp h)
    have hunpaid' := (checkedSub_ok.mp hunpaid).1
    unfold restoreWithheld at h1
    by_cases hzero : claim = 0
    · have hx : min (v.parentDebt (m, u, o)) claim = 0 := by omega
      rw [hx] at h1 hunpaid' ⊢
      rw [if_neg (by omega)] at h1
      rw [sub_zero] at hunpaid'
      rw [← ok_ok.mp h1, hunpaid'] at h2
      by_cases hgz : g = 0
      · rw [if_pos ⟨hgz, hpos⟩] at h2
        exact Or.inr (Or.inr (Or.inr ⟨hpos, hgz, rfl, h2⟩))
      · rw [if_neg (fun hk => hgz hk.1)] at h2
        exact Or.inr (Or.inr (Or.inl ⟨hpos, hzero, rfl, hgz, (ok_ok.mp h2).symm⟩))
    · have hgz : g ≠ 0 := fun hk => hzero (hg hk)
      rw [if_pos (by omega)] at h1
      rw [if_neg (fun hk => hgz hk.1)] at h2
      obtain ⟨v3, h3, h1⟩ := bind_ok.mp h1
      refine Or.inr (Or.inl ⟨hpos, by omega, rfl, hgz, ?_⟩)
      rw [← ok_ok.mp h2, creditRepayment_ok h1, releaseChildUsed_ok h3, hunpaid', withheldBy]
  · next hnone =>
    obtain ⟨rfl, rfl⟩ := Prod.mk.inj (ok_ok.mp h)
    exact Or.inl ⟨by omega, rfl, rfl⟩

/-- The books of a market after a deposit. -/
def depositedBy (a : VaultAccounting) (x : ℤ) : VaultAccounting :=
  { a with
    totalDeposited := a.totalDeposited + x
    collateralBacking := a.collateralBacking + x
    refundable := a.refundable + x }

/-- The books of a market after money left its backing. -/
def debitedBy (a : VaultAccounting) (x : ℤ) : VaultAccounting :=
  { a with
    collateralBacking := a.collateralBacking - x
    refundable := a.refundable - x }

/-- The books of a parent market after it lent to a child. -/
def lentBy (a : VaultAccounting) (x : ℤ) : VaultAccounting :=
  { debitedBy a x with childCollateralIssued := a.childCollateralIssued + x }

/-- A deposit touches one market's books. -/
theorem recordDeposit_ok {v v' : VaultState} {m : MarketId} {x : ℤ}
    (h : recordDeposit v m x = .ok v') :
    v' = { v with accounting := v.accounting.set m (depositedBy (v.accounting m) x) } := by
  unfold recordDeposit at h
  obtain ⟨d, hd, h⟩ := bind_ok.mp h
  obtain ⟨a, ha, h⟩ := bind_ok.mp h
  rw [← pure_ok.mp h, creditBacking_ok ha, (checkedAdd_ok.mp hd).1]
  rfl

/-- Proceeds leave one market's books, with the seller's stake and deposit. -/
theorem extractProceeds_ok {v v' : VaultState} {m : MarketId} {u : Address} {o : Outcome}
    {sold x : ℤ} (h : extractProceeds v m u o sold x = .ok v') :
    ∃ rootStake userDeposit, v' = { v with
      rootStake := rootStake
      userDeposit := userDeposit
      accounting := v.accounting.set m (debitedBy (v.accounting m) x) } := by
  unfold extractProceeds at h
  obtain ⟨_, _, h⟩ := bind_ok.mp h
  obtain ⟨s, _, h⟩ := bind_ok.mp h
  obtain ⟨d, _, h⟩ := bind_ok.mp h
  obtain ⟨a, ha, h⟩ := bind_ok.mp h
  rw [debitBacking_ok ha] at h
  exact ⟨s, d, (pure_ok.mp h).symm⟩

/-- Taking proceeds out defaults nothing. -/
theorem extractProceeds_defaulted {v v' : VaultState} {c : MarketId} {u : Address} {o : Outcome}
    {sold x : ℤ} (h : extractProceeds v c u o sold x = .ok v') (m : MarketId) :
    (v'.accounting m).childCollateralDefaulted = (v.accounting m).childCollateralDefaulted := by
  obtain ⟨_, _, rfl⟩ := extractProceeds_ok h
  dsimp only
  rw [Store.set_get]
  split
  · next hm =>
    rw [hm]
    rfl
  · rfl

/-- Booked fees touch one market's books. -/
theorem collectFee_ok {ctx : Ctx} {w w' : World} {m : MarketId} {lp protocol cod : ℤ}
    (h : collectFee ctx w m lp protocol cod = .ok w') :
    ∃ a, w' = { w with vault := { w.vault with accounting := w.vault.accounting.set m a } } := by
  unfold collectFee at h
  obtain ⟨_, _, h⟩ := bind_ok.mp h
  obtain ⟨_, _, h⟩ := bind_ok.mp h
  obtain ⟨_, _, h⟩ := bind_ok.mp h
  obtain ⟨_, _, h⟩ := bind_ok.mp h
  obtain ⟨_, _, h⟩ := bind_ok.mp h
  obtain ⟨_, _, h⟩ := bind_ok.mp h
  obtain ⟨_, _, h⟩ := bind_ok.mp h
  obtain ⟨_, _, h⟩ := bind_ok.mp h
  obtain ⟨_, _, h⟩ := bind_ok.mp h
  exact ⟨_, (pure_ok.mp h).symm⟩

/-- Two vaults with the same record of every debt. -/
structure SameDebts (v v' : VaultState) : Prop where
  childDebt : v'.childDebt = v.childDebt
  parentDebt : v'.parentDebt = v.parentDebt
  childUsedByOutcome : v'.childUsedByOutcome = v.childUsedByOutcome
  childParent : v'.childParent = v.childParent
  childParentOutcome : v'.childParentOutcome = v.childParentOutcome
  childMarketsOf : v'.childMarketsOf = v.childMarketsOf

/-- Proceeds leave without touching any debt. -/
theorem extractProceeds_debts {v v' : VaultState} {m : MarketId} {u : Address} {o : Outcome}
    {sold x : ℤ} (h : extractProceeds v m u o sold x = .ok v') : SameDebts v v' := by
  obtain ⟨_, _, rfl⟩ := extractProceeds_ok h
  exact ⟨rfl, rfl, rfl, rfl, rfl, rfl⟩

/-- A reallocation lends from the parent and deposits into the child. -/
theorem reallocateBacking_ok {v v' : VaultState} {p c : MarketId} {x : ℤ}
    (h : reallocateBacking v p c x = .ok v') :
    recordDeposit
      { v with accounting := v.accounting.set p (lentBy (v.accounting p) x) } c x = .ok v' := by
  unfold reallocateBacking at h
  obtain ⟨_, _, h⟩ := bind_ok.mp h
  obtain ⟨a, ha, h⟩ := bind_ok.mp h
  obtain ⟨issued, hissued, h⟩ := bind_ok.mp h
  rw [debitBacking_ok ha] at h hissued
  rw [(checkedAdd_ok.mp hissued).1] at h
  exact h

/-- A new loan raises the child debt, the parent debt and the recorded use of
the stake by the same amount, and leaves all books alone. -/
theorem recordLoan_ok {v v' : VaultState} {u : Address} {p c : MarketId} {po co : Outcome} {x : ℤ}
    (h : recordLoan v u p po c co x = .ok v') :
    ∃ used loan loanByOutcome childParent childParentOutcome children,
      v' = { v with
        childUsedByOutcome :=
          v.childUsedByOutcome.set (p, u, po) (v.childUsedByOutcome (p, u, po) + x)
        childUsed := used
        childLoanByOutcome := loanByOutcome
        childLoan := loan
        childDebt := v.childDebt.set (c, u) (v.childDebt (c, u) + x)
        parentDebt := v.parentDebt.set (p, u, po) (v.parentDebt (p, u, po) + x)
        childParent := childParent
        childParentOutcome := childParentOutcome
        childMarketsOf := children } := by
  unfold recordLoan at h
  obtain ⟨byOutcome, h1, h⟩ := bind_ok.mp h
  obtain ⟨used, h2, h⟩ := bind_ok.mp h
  obtain ⟨loanByOutcome, h3, h⟩ := bind_ok.mp h
  obtain ⟨loan, h4, h⟩ := bind_ok.mp h
  obtain ⟨debt, h5, h⟩ := bind_ok.mp h
  obtain ⟨parentDebt, h6, h⟩ := bind_ok.mp h
  rw [addTo_ok h1, addTo_ok h5, addTo_ok h6] at h
  rw [← pure_ok.mp h]
  unfold recordChildMarket
  dsimp only
  split
  · exact ⟨_, _, _, _, _, _, rfl⟩
  · exact ⟨_, _, _, _, _, _, rfl⟩

/-- What redeemed tokens are worth before debts and haircuts, as a plain number. -/
def redemptionValue (v : VaultState) (m : MarketId) (final o : Outcome) (amount : ℤ) : ℤ :=
  match final with
  | .invalid => (v.invalidDustCarry m + amount) / 2
  | .yes => if o = .yes then amount else 0
  | .no => if o = .no then amount else 0

end DikeProtocol.Vault
