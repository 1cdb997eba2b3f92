import DikeProtocol.Vault.Chains

/-!
# The ledgers that record a loan

A loan is recorded as the debt of the child, as the debt on the parent stake,
as the use of that stake and as the use of the whole parent market. The
records agree as long as a child owes one parent stake only, a default takes
away what it writes off, and no redemption withholds from a debt the child
still carries.
-/

namespace DikeProtocol.Vault

open Lib

/-- The tally of what a user's positions funded by one parent stake owe. -/
def borrowedTally (v : VaultState) (p : MarketId) (u : Address) (o : Outcome) :
    Tally (MarketId × Address) ℤ ℤ :=
  Tally.over (fun k => k.2 = u ∧ v.childParent k = p ∧ v.childParentOutcome k = o)

/-- What a user's positions funded by one parent stake owe together. -/
def owedBy (v : VaultState) (p : MarketId) (u : Address) (o : Outcome) : ℤ :=
  v.childDebt.total (borrowedTally v p u o)

/-- What all of a user's positions funded by one parent market owe together. -/
def owedFrom (v : VaultState) (p : MarketId) (u : Address) : ℤ :=
  v.childDebt.total (Tally.over (fun k => k.2 = u ∧ v.childParent k = p))

/-- Sum over the outcomes of a market. -/
def overOutcomes (f : Outcome → ℤ) : ℤ := f .yes + f .no + f .invalid

/-- Sums over the outcomes agree when every summand does. -/
theorem overOutcomes_congr {f g : Outcome → ℤ} (h : ∀ o, f o = g o) :
    overOutcomes f = overOutcomes g := by
  rw [funext h]

/-- No outcome counts for more than all of them. -/
theorem le_overOutcomes {f : Outcome → ℤ} (h : ∀ o, 0 ≤ f o) (o : Outcome) :
    f o ≤ overOutcomes f := by
  have hyes := h .yes
  have hno := h .no
  have hinvalid := h .invalid
  unfold overOutcomes
  cases o <;> omega

/-- Raising one outcome raises the sum as much. -/
theorem overOutcomes_add (f : Outcome → ℤ) (o : Outcome) (x : ℤ) :
    overOutcomes (fun o' => f o' + if o = o' then x else 0) = overOutcomes f + x := by
  unfold overOutcomes
  cases o <;> simp <;> ring

/-- The ledgers of a user's loans from one market agree with each other. -/
def LedgersAgree (v : VaultState) (p : MarketId) (u : Address) : Prop :=
  (∀ o, v.childUsedByOutcome (p, u, o) = v.parentDebt (p, u, o)) ∧
    v.childUsed (p, u) = overOutcomes (fun o => v.childUsedByOutcome (p, u, o)) ∧
    owedFrom v p u = overOutcomes (fun o => v.parentDebt (p, u, o))

/-- Each stake of a user in one market is owed exactly what its children owe. -/
structure LoansAgree (v : VaultState) (p : MarketId) (u : Address) : Prop where
  used : ∀ o, v.childUsedByOutcome (p, u, o) = v.parentDebt (p, u, o)
  usedSum : v.childUsed (p, u) = overOutcomes (fun o => v.childUsedByOutcome (p, u, o))
  owed : ∀ o, owedBy v p u o = v.parentDebt (p, u, o)

/-- Whoever owes has a parent that lists the position, lists hold nothing else,
and market 0 has no children. -/
structure Linked (v : VaultState) : Prop where
  parented : ∀ c u, v.childDebt (c, u) ≠ 0 → v.childParent (c, u) ≠ 0 ∧
    c ∈ v.childMarketsOf (v.childParent (c, u), u, v.childParentOutcome (c, u))
  listed : ∀ p u o c, c ∈ v.childMarketsOf (p, u, o) →
    v.childParent (c, u) = p ∧ v.childParentOutcome (c, u) = o
  rooted : ∀ u o, v.childMarketsOf (0, u, o) = []

/-- A market's positions owe what the positions of each of its outcomes owe. -/
theorem owedFrom_eq (v : VaultState) (p : MarketId) (u : Address) :
    owedFrom v p u = overOutcomes (fun o => owedBy v p u o) := by
  unfold owedFrom overOutcomes owedBy Store.total
  rw [← Finset.sum_add_distrib, ← Finset.sum_add_distrib]
  apply Finset.sum_congr rfl
  intro k _
  simp only [borrowedTally, Tally.over_weight]
  by_cases hk : k.2 = u ∧ v.childParent k = p
  · rw [if_pos hk]
    cases v.childParentOutcome k <;> simp [hk.1, hk.2]
  · have hnone : ∀ o, ¬(k.2 = u ∧ v.childParent k = p ∧ v.childParentOutcome k = o) :=
      fun o h => hk ⟨h.1, h.2.1⟩
    rw [if_neg hk, if_neg (hnone _), if_neg (hnone _), if_neg (hnone _)]
    rfl

/-- Loans that agree stake by stake agree market by market. -/
theorem LoansAgree.ledgers {v : VaultState} {p : MarketId} {u : Address} (h : LoansAgree v p u) :
    LedgersAgree v p u := by
  refine ⟨h.used, h.usedSum, ?_⟩
  rw [owedFrom_eq]
  exact overOutcomes_congr h.owed

section Owed

variable {v v' : VaultState} {p : MarketId} {u : Address} {o : Outcome}

/-- What is owed depends on the children of the stake only. -/
theorem owedBy_congr (hparent : v'.childParent = v.childParent)
    (houtcome : v'.childParentOutcome = v.childParentOutcome)
    (hdebt : ∀ c, v.childParent (c, u) = p → v'.childDebt (c, u) = v.childDebt (c, u)) :
    owedBy v' p u o = owedBy v p u o := by
  have htally : borrowedTally v' p u o = borrowedTally v p u o := by
    unfold borrowedTally
    rw [hparent, houtcome]
  unfold owedBy
  rw [htally]
  apply Store.total_congr
  rintro ⟨c, u'⟩
  simp only [borrowedTally, Tally.over_weight]
  split
  · next hk =>
    obtain ⟨rfl, hp, _⟩ := hk
    exact hdebt c hp
  · rfl

/-- Rewriting one debt moves what its parent stake is owed by the change. -/
theorem owedBy_set {c : MarketId} {u' : Address} {y : ℤ} (hparent : v'.childParent = v.childParent)
    (houtcome : v'.childParentOutcome = v.childParentOutcome)
    (hdebt : v'.childDebt = v.childDebt.set (c, u') y) :
    owedBy v' p u o = owedBy v p u o +
      (if u' = u ∧ v.childParent (c, u') = p ∧ v.childParentOutcome (c, u') = o then
        y - v.childDebt (c, u') else 0) := by
  unfold owedBy borrowedTally
  rw [hparent, houtcome, hdebt, Store.total_set]
  simp only [Tally.over_weight]
  split <;> omega

/-- No child owes more than all children of its stake together. -/
theorem debt_le_owedBy (hv : ∀ k, 0 ≤ v.childDebt k) (c : MarketId) (u : Address) :
    v.childDebt (c, u) ≤ owedBy v (v.childParent (c, u)) u (v.childParentOutcome (c, u)) := by
  have hle := v.childDebt.weight_le_total
    (borrowedTally v (v.childParent (c, u)) u (v.childParentOutcome (c, u))) ?_ (c, u)
  · simpa only [owedBy, borrowedTally, Tally.over_weight, and_self, if_true] using hle
  · intro k
    have hk := hv k
    simp only [borrowedTally, Tally.over_weight]
    split <;> omega

/-- A stake whose children owe nothing is owed nothing. -/
theorem owedBy_eq_zero (h : ∀ c, v.childParent (c, u) = p → v.childParentOutcome (c, u) = o →
    v.childDebt (c, u) = 0) : owedBy v p u o = 0 := by
  unfold owedBy Store.total
  apply Finset.sum_eq_zero
  rintro ⟨c, u'⟩ _
  simp only [borrowedTally, Tally.over_weight]
  split
  · next hk =>
    obtain ⟨rfl, hp, ho⟩ := hk
    exact h c hp ho
  · rfl

end Owed

namespace LoansAgree

variable {v v' : VaultState} {p : MarketId} {u : Address}

/-- Agreement is about the loans of one user from one market. -/
theorem congr (h : LoansAgree v p u)
    (hdebt : ∀ o, v'.parentDebt (p, u, o) = v.parentDebt (p, u, o))
    (hused : ∀ o, v'.childUsedByOutcome (p, u, o) = v.childUsedByOutcome (p, u, o))
    (hsum : v'.childUsed (p, u) = v.childUsed (p, u))
    (howed : ∀ o, owedBy v' p u o = owedBy v p u o) : LoansAgree v' p u where
  used := by
    intro o
    rw [hused, hdebt]
    exact h.used o
  usedSum := by
    rw [hsum, overOutcomes_congr hused]
    exact h.usedSum
  owed := by
    intro o
    rw [howed, hdebt]
    exact h.owed o

/-- A child debt may be overwritten by itself, or when its parent is another. -/
theorem withChildDebt (h : LoansAgree v p u) {c : MarketId} {u' : Address} {y : ℤ}
    (hy : v.childParent (c, u') = p → u' = u → y = v.childDebt (c, u')) :
    LoansAgree (withChildDebt v c u' y) p u := by
  refine h.congr (fun _ => rfl) (fun _ => rfl) rfl ?_
  intro o
  have hset : owedBy (Vault.withChildDebt v c u' y) p u o = owedBy v p u o + _ :=
    owedBy_set rfl rfl rfl
  rw [hset]
  split
  · next hk => rw [hy hk.2.1 hk.1, sub_self, add_zero]
  · exact add_zero _

/-- A repayment within what is owed upstream lowers all records of the loan alike. -/
theorem repaidUpstream (h : LoansAgree v p u) (hv : ∀ k, 0 ≤ v.parentDebt k) {c : MarketId}
    {u' : Address} {x : ℤ}
    (hx : x ≤ v.parentDebt (v.childParent (c, u'), u', v.childParentOutcome (c, u'))) :
    LoansAgree (repaidUpstream v c u' x) p u := by
  have howed : ∀ o, owedBy (Vault.repaidUpstream v c u' x) p u o = owedBy v p u o +
      (if u' = u ∧ v.childParent (c, u') = p ∧ v.childParentOutcome (c, u') = o then
        v.childDebt (c, u') - x - v.childDebt (c, u') else 0) := fun o => owedBy_set rfl rfl rfl
  by_cases hk : v.childParent (c, u') = p ∧ u' = u
  · obtain ⟨hp, rfl⟩ := hk
    have hused : ∀ o, (Vault.repaidUpstream v c u' x).childUsedByOutcome (p, u', o) =
        v.childUsedByOutcome (p, u', o) + if v.childParentOutcome (c, u') = o then -x else 0 := by
      intro o
      have hcap := h.used (v.childParentOutcome (c, u'))
      rw [hp] at hx
      unfold Vault.repaidUpstream
      simp only [hp, Store.set_get, Prod.mk.injEq, true_and]
      split
      · next ho =>
        rw [if_pos ho.symm, ho]
        omega
      · next ho =>
        rw [if_neg (fun hk => ho hk.symm)]
        omega
    constructor
    · intro o
      rw [hused, h.used]
      unfold Vault.repaidUpstream
      simp only [hp, Store.set_get, Prod.mk.injEq, true_and]
      split
      · next ho =>
        rw [if_pos ho.symm, ho]
        omega
      · next ho =>
        rw [if_neg (fun hk => ho hk.symm)]
        omega
    · have hsum := h.usedSum
      have hcap := h.used (v.childParentOutcome (c, u'))
      have hle := le_overOutcomes (f := fun o => v.childUsedByOutcome (p, u', o))
        (fun o => (h.used o).ge.trans' (hv _)) (v.childParentOutcome (c, u'))
      rw [overOutcomes_congr hused, overOutcomes_add]
      rw [hp] at hx
      unfold Vault.repaidUpstream
      simp only [hp, Store.set_get_self]
      omega
    · intro o
      rw [howed, h.owed]
      unfold Vault.repaidUpstream
      simp only [hp, Store.set_get, Prod.mk.injEq, true_and]
      split
      · next ho =>
        rw [if_pos ho.symm, ho]
        omega
      · next ho =>
        rw [if_neg (fun hk => ho hk.symm)]
        omega
  · have hkey : ∀ o o' : Outcome, (p, u, o) ≠ (v.childParent (c, u'), u', o') := by
      intro o o' heq
      obtain ⟨hp, heq⟩ := Prod.mk.inj heq
      exact hk ⟨hp.symm, (Prod.mk.inj heq).1.symm⟩
    have hmarket : (p, u) ≠ (v.childParent (c, u'), u') := by
      intro heq
      obtain ⟨hp, hu⟩ := Prod.mk.inj heq
      exact hk ⟨hp.symm, hu.symm⟩
    refine h.congr ?_ ?_ ?_ ?_
    · intro o
      exact Store.set_get_of_ne _ _ (hkey o _)
    · intro o
      exact Store.set_get_of_ne _ _ (hkey o _)
    · exact Store.set_get_of_ne _ _ hmarket
    · intro o
      rw [howed, if_neg (fun hall => hk ⟨hall.2.1, hall.1⟩), add_zero]

/-- A settlement of child debt keeps the records of every loan in agreement. -/
theorem settleChildDebt (h : LoansAgree v p u) (hv : Sane v) (hl : Linked v) {c : MarketId}
    {u' : Address} {r x : ℤ} (hs : settleChildDebt v c u' r = .ok (x, v')) : LoansAgree v' p u := by
  obtain ⟨_, rfl, _⟩ | ⟨_, rfl, hp, hup⟩ | ⟨rfl, _, hroot, rfl⟩ | ⟨rfl, _, hp, _, rfl⟩ :=
    settleChildDebt_cases hs
  · exact h
  · apply h.withChildDebt
    rintro rfl rfl
    have hle := debt_le_owedBy hv.childDebt_nonneg c u'
    have hnonneg := hv.childDebt_nonneg (c, u')
    rw [h.owed, hup] at hle
    omega
  · have hnone : v.childDebt (c, u') = 0 := by
      by_contra hdebt
      exact (hl.parented c u' hdebt).1 hroot
    have hle := Sane.effectiveDebt_le v c u'
    have hnonneg := hv.effectiveDebt_nonneg c u'
    apply h.withChildDebt
    intro _ _
    omega
  · have hup := Sane.effectiveDebt_le_upstream v hp
    exact h.repaidUpstream hv.parentDebt_nonneg (by omega)

end LoansAgree

/-- Links stay sound while no debt grows. -/
theorem Linked.fall {v v' : VaultState} (h : Linked v) (hlinks : SameLinks v v')
    (hfall : ∀ k, v'.childDebt k ≤ v.childDebt k) (hnonneg : ∀ k, 0 ≤ v'.childDebt k) :
    Linked v' := by
  constructor
  · intro c u hdebt
    have hle := hfall (c, u)
    have hpos := hnonneg (c, u)
    have hold : v.childDebt (c, u) ≠ 0 := by omega
    rw [hlinks.childParent, hlinks.childParentOutcome, hlinks.childMarketsOf]
    exact h.parented c u hold
  · rw [hlinks.childParent, hlinks.childParentOutcome, hlinks.childMarketsOf]
    exact h.listed
  · rw [hlinks.childMarketsOf]
    exact h.rooted

/-- Paying down the children of a stake keeps the records of every loan in agreement. -/
theorem LoansAgree.settleChildren (children : List MarketId) {v v' : VaultState} {p : MarketId}
    {u u' : Address} {pool pool' paid paid' : ℤ} (h : LoansAgree v p u) (hv : Sane v)
    (hl : Linked v) (hs : settleChildren v u' pool paid children = .ok (pool', paid', v')) :
    LoansAgree v' p u := by
  refine (settleChildren_keeps (I := fun s => Sane s ∧ Linked s ∧ LoansAgree s p u) ?_ children hs
    ⟨hv, hl, h⟩).2.2
  rintro _ _ _ _ _ h1 ⟨hsane, hlinked, hagree⟩
  have hsane' := hsane.settleChildDebt h1
  have hfall := (NoNewDebt.settleChildDebt hsane h1).childDebt
  exact ⟨hsane', hlinked.fall (.settleChildDebt h1) hfall hsane'.childDebt_nonneg,
    hagree.settleChildDebt hsane hlinked h1⟩

/-- The vault after a default cleared `x` of one child debt. -/
def clearedChild (v : VaultState) (p : MarketId) (u : Address) (o : Outcome) (c : MarketId)
    (x : ℤ) : VaultState :=
  { v with
    childDebt := v.childDebt.set (c, u) (v.childDebt (c, u) - x)
    childUsedByOutcome :=
      v.childUsedByOutcome.set (p, u, o) (max (v.childUsedByOutcome (p, u, o) - x) 0)
    childUsed := v.childUsed.set (p, u) (max (v.childUsed (p, u) - x) 0) }

/-- The vault with another debt recorded on one parent stake. -/
def withParentDebt (v : VaultState) (p : MarketId) (u : Address) (o : Outcome) (x : ℤ) :
    VaultState :=
  { v with parentDebt := v.parentDebt.set (p, u, o) x }

/-- One child of a defaulted stake: nothing is left to clear, it owes nothing,
or its debt is cleared as far as the rest goes. -/
theorem clearChildDebts_cons {v v' : VaultState} {p : MarketId} {u : Address} {o : Outcome}
    {remaining : ℤ} {c : MarketId} {children : List MarketId}
    (h : clearChildDebts v p u o remaining (c :: children) = .ok v') :
    (remaining = 0 ∧ v' = v) ∨
    (remaining ≠ 0 ∧ v.childDebt (c, u) = 0 ∧
      clearChildDebts v p u o remaining children = .ok v') ∨
    (remaining ≠ 0 ∧ v.childDebt (c, u) ≠ 0 ∧
      clearChildDebts (clearedChild v p u o c (min (v.childDebt (c, u)) remaining)) p u o
        (remaining - min (v.childDebt (c, u)) remaining) children = .ok v') := by
  have hmin : (if v.childDebt (c, u) > remaining then remaining else v.childDebt (c, u)) =
      min (v.childDebt (c, u)) remaining := by
    split <;> omega
  unfold clearChildDebts at h
  simp only [hmin] at h
  split at h
  · next hzero => exact Or.inl ⟨hzero, (ok_ok.mp h).symm⟩
  · next hleft =>
    split at h
    · next hnone => exact Or.inr (Or.inl ⟨hleft, hnone, h⟩)
    · next hdebt =>
      obtain ⟨left, hleft', h⟩ := bind_ok.mp h
      obtain ⟨v1, h1, h⟩ := bind_ok.mp h
      obtain ⟨rest, hrest, h⟩ := bind_ok.mp h
      rw [releaseChildUsed_ok h1, (checkedSub_ok.mp hleft').1, (checkedSub_ok.mp hrest).1] at h
      exact Or.inr (Or.inr ⟨hleft, hdebt, h⟩)

/-- A default books its amount and clears the children listed under the stake. -/
theorem resolveParentDefault_clears {v v' : VaultState} {p : MarketId} {u : Address} {o : Outcome}
    {x : ℤ} (hx : 0 < x) (h : resolveParentDefault v p u o x = .ok v') :
    ∃ v1, SameLinks v v1 ∧ v1.childDebt = v.childDebt ∧ v1.rootStake = v.rootStake ∧
      v1.childUsedByOutcome = v.childUsedByOutcome ∧ v1.childUsed = v.childUsed ∧
      v1.parentDebt = v.parentDebt.set (p, u, o) 0 ∧
      clearChildDebts v1 p u o x (v.childMarketsOf (p, u, o)) = .ok v' := by
  unfold resolveParentDefault at h
  rw [if_neg (by omega : ¬x ≤ 0)] at h
  obtain ⟨_, _, h⟩ := bind_ok.mp h
  obtain ⟨_, _, h⟩ := bind_ok.mp h
  obtain ⟨⟨reserve, parent⟩, _, h⟩ := bind_ok.mp h
  obtain ⟨parent', _, h⟩ := bind_ok.mp h
  dsimp only at h
  refine ⟨_, ⟨?_, ?_, ?_⟩, ?_, ?_, ?_, ?_, ?_, h⟩ <;> rfl

namespace LoansAgree

variable {v v' : VaultState} {p q : MarketId} {u u' : Address} {o : Outcome} {x : ℤ}

/-- Clearing the children of a defaulted stake does not touch other users' or
other markets' loans. -/
theorem clearChildDebts_other (children : List MarketId) (h : LoansAgree v p u)
    (hother : ¬(q = p ∧ u' = u)) (hlist : ∀ c ∈ children, v.childParent (c, u') = q)
    (hs : clearChildDebts v q u' o x children = .ok v') : LoansAgree v' p u := by
  induction children generalizing v x with
  | nil =>
    obtain rfl := ok_ok.mp hs
    exact h
  | cons c children ih =>
    have hrest : ∀ c ∈ children, v.childParent (c, u') = q :=
      fun c' hc => hlist c' (List.mem_cons_of_mem c hc)
    obtain ⟨_, rfl⟩ | ⟨_, _, hs⟩ | ⟨_, _, hs⟩ := clearChildDebts_cons hs
    · exact h
    · exact ih h hrest hs
    · have hc := hlist c List.mem_cons_self
      have hkey : ∀ o' : Outcome, (p, u, o') ≠ (q, u', o) := by
        intro o' heq
        obtain ⟨hp, heq⟩ := Prod.mk.inj heq
        exact hother ⟨hp.symm, (Prod.mk.inj heq).1.symm⟩
      have hmarket : (p, u) ≠ (q, u') := by
        intro heq
        obtain ⟨hp, hu⟩ := Prod.mk.inj heq
        exact hother ⟨hp.symm, hu.symm⟩
      have hcleared : ∀ y, LoansAgree (clearedChild v q u' o c y) p u := by
        intro y
        refine h.congr (fun _ => rfl) (fun o' => Store.set_get_of_ne _ _ (hkey o'))
          (Store.set_get_of_ne _ _ hmarket) ?_
        intro o'
        refine owedBy_congr rfl rfl ?_
        intro c' hp
        apply Store.set_get_of_ne
        intro heq
        obtain ⟨rfl, rfl⟩ := Prod.mk.inj heq
        exact hother ⟨hc.symm.trans hp, rfl⟩
      exact ih (hcleared _) hrest hs

/-- Nothing more to clear is nothing owed. -/
theorem withParentDebt_done (h : LoansAgree (withParentDebt v p u o x) p u)
    (hzero : v.parentDebt (p, u, o) = 0) (hx : x = 0) : LoansAgree v p u := by
  refine h.congr ?_ (fun _ => rfl) rfl (fun _ => rfl)
  intro o'
  unfold withParentDebt
  dsimp only
  rw [Store.set_get]
  split
  · next hk => rw [hk, hzero, hx]
  · rfl

/-- What is still to clear is what the children still owe. -/
theorem withParentDebt_owed (h : LoansAgree (withParentDebt v p u o x) p u) :
    owedBy v p u o = x := by
  have hall := h.owed o
  unfold withParentDebt at hall
  dsimp only at hall
  rw [Store.set_get_self] at hall
  exact hall

/-- Clearing exactly what the children of a stake owe clears all of them: with
the rest still to clear written in place of the parent debt, every child lowers
all records alike. -/
theorem clearChildDebts_own (children : List MarketId)
    (h : LoansAgree (withParentDebt v p u o x) p u) (hchild : ∀ k, 0 ≤ v.childDebt k)
    (hparent : ∀ k, 0 ≤ v.parentDebt k) (hx : 0 ≤ x) (hzero : v.parentDebt (p, u, o) = 0)
    (hlist : ∀ c ∈ children, v.childParent (c, u) = p ∧ v.childParentOutcome (c, u) = o)
    (hcovers : ∀ c, v.childParent (c, u) = p → v.childParentOutcome (c, u) = o →
      v.childDebt (c, u) ≠ 0 → c ∈ children)
    (hs : clearChildDebts v p u o x children = .ok v') : LoansAgree v' p u := by
  induction children generalizing v x with
  | nil =>
    obtain rfl := ok_ok.mp hs
    refine h.withParentDebt_done hzero ?_
    rw [← h.withParentDebt_owed]
    apply owedBy_eq_zero
    intro c hp ho
    by_contra hdebt
    cases hcovers c hp ho hdebt
  | cons c children ih =>
    have hrest : ∀ c ∈ children, v.childParent (c, u) = p ∧ v.childParentOutcome (c, u) = o :=
      fun c' hc => hlist c' (List.mem_cons_of_mem c hc)
    obtain ⟨hnone, rfl⟩ | ⟨_, hnone, hs⟩ | ⟨_, hdebt, hs⟩ := clearChildDebts_cons hs
    · exact h.withParentDebt_done hzero hnone
    · refine ih h hchild hparent hx hzero hrest ?_ hs
      intro c' hp ho hdebt
      rcases List.mem_cons.mp (hcovers c' hp ho hdebt) with rfl | hc
      · exact absurd hnone hdebt
      · exact hc
    · obtain ⟨hp, ho⟩ := hlist c List.mem_cons_self
      have hle := debt_le_owedBy hchild c u
      have hnonneg := hchild (c, u)
      rw [hp, ho, h.withParentDebt_owed] at hle
      rw [min_eq_left hle] at hs
      have hnext : LoansAgree (withParentDebt (clearedChild v p u o c (v.childDebt (c, u))) p u o
          (x - v.childDebt (c, u))) p u := by
        have hupstream : v.childDebt (c, u) ≤ (withParentDebt v p u o x).parentDebt
            (v.childParent (c, u), u, v.childParentOutcome (c, u)) := by
          rw [hp, ho]
          unfold withParentDebt
          dsimp only
          rw [Store.set_get_self]
          exact hle
        refine (h.repaidUpstream (nonneg_set hparent hx) hupstream).congr ?_ ?_ ?_ ?_
        · intro o'
          unfold Vault.repaidUpstream withParentDebt clearedChild
          simp only [hp, ho, Store.set_get]
          split <;> simp
        · intro o'
          unfold Vault.repaidUpstream withParentDebt clearedChild
          simp only [hp, ho]
        · unfold Vault.repaidUpstream withParentDebt clearedChild
          simp only [hp]
        · intro o'
          exact owedBy_congr rfl rfl (fun _ _ => rfl)
      have hkept : ∀ c', v.childParent (c', u) = p → v.childParentOutcome (c', u) = o →
          (clearedChild v p u o c (v.childDebt (c, u))).childDebt (c', u) ≠ 0 → c' ∈ children := by
        intro c' hp' ho' hdebt'
        unfold clearedChild at hdebt'
        simp only [Store.set_get, Prod.mk.injEq, and_true] at hdebt'
        split at hdebt'
        · exact absurd (sub_self _) hdebt'
        · next hne => 
          rcases List.mem_cons.mp (hcovers c' hp' ho' hdebt') with hc | hc
          · exact absurd hc hne
          · exact hc
      exact ih hnext (nonneg_set hchild (sub_self _).ge) hparent (by omega) hzero hrest hkept hs

/-- A default of exactly the debt of a stake keeps the records of every loan in
agreement; a default elsewhere does so whatever its amount. -/
theorem resolveParentDefault (h : LoansAgree v p u) (hv : Sane v) (hl : Linked v)
    (hexact : q = p → u' = u → x = v.parentDebt (q, u', o))
    (hs : resolveParentDefault v q u' o x = .ok v') : LoansAgree v' p u := by
  by_cases hx : 0 < x
  · obtain ⟨v1, hlinks, hchild, _, hused, hsum, hparent, hclear⟩ :=
      resolveParentDefault_clears hx hs
    have hlisted := hl.listed q u' o
    have howed : ∀ o', owedBy v1 p u o' = owedBy v p u o' := fun o' =>
      owedBy_congr hlinks.childParent hlinks.childParentOutcome (fun c _ => by rw [hchild])
    rw [← hlinks.childParent, ← hlinks.childParentOutcome] at hlisted
    by_cases hk : q = p ∧ u' = u
    · obtain ⟨rfl, rfl⟩ := hk
      refine clearChildDebts_own _ ?_ ?_ ?_ hx.le ?_ hlisted ?_ hclear
      · refine h.congr ?_ (fun o' => by rw [← hused]; rfl) (by rw [← hsum]; rfl) howed
        intro o'
        unfold withParentDebt
        dsimp only
        rw [hparent, Store.set_get, Store.set_get]
        split
        · next hkey => rw [hkey, hexact rfl rfl]
        · rfl
      · rw [hchild]
        exact hv.childDebt_nonneg
      · rw [hparent]
        exact nonneg_set hv.parentDebt_nonneg le_rfl
      · rw [hparent, Store.set_get_self]
      · rintro c hp ho hne
        rw [hchild] at hne
        have hin := (hl.parented c u' hne).2
        rw [← hlinks.childParent, ← hlinks.childParentOutcome, hp, ho] at hin
        exact hin
    · refine clearChildDebts_other _ ?_ hk (fun c hc => (hlisted c hc).1) hclear
      refine h.congr ?_ (fun o' => by rw [hused]) (by rw [hsum]) howed
      intro o'
      rw [hparent]
      apply Store.set_get_of_ne
      intro heq
      obtain ⟨hp, heq⟩ := Prod.mk.inj heq
      exact hk ⟨hp.symm, (Prod.mk.inj heq).1.symm⟩
  · unfold Vault.resolveParentDefault at hs
    rw [if_pos (by omega)] at hs
    rw [← ok_ok.mp hs]
    exact h

end LoansAgree

end DikeProtocol.Vault
