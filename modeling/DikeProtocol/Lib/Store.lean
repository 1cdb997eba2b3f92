import Mathlib.Algebra.BigOperators.Group.Finset.Basic
import Mathlib.Algebra.BigOperators.Group.Finset.Piecewise
import Mathlib.Algebra.BigOperators.Ring.Finset
import Mathlib.Algebra.Order.BigOperators.Group.Finset
import Mathlib.Tactic.Abel

/-!
# Finite stores and conserved tallies

A store is a total lookup that differs from its default only on a finite
set of written keys. A tally weighs every entry and vanishes on the default,
so its total over a store is a finite sum that does not depend on which
unwritten keys are enumerated. Writing one key moves the total by exactly
the change of that key's weight.
-/

namespace DikeProtocol.Lib

/-- Total lookup with finitely many written keys. -/
structure Store (K V : Type*) [Inhabited V] where
  /-- Current value of every key, written or not. -/
  get : K → V
  /-- Every key that was ever written. -/
  written : Finset K
  /-- A key outside the written set still carries the default value. -/
  get_unwritten : ∀ k, k ∉ written → get k = default

namespace Store

variable {K V : Type*} [Inhabited V]

instance : CoeFun (Store K V) (fun _ => K → V) := ⟨Store.get⟩

/-- The store in which nothing was written. -/
def empty : Store K V := ⟨fun _ => default, ∅, fun _ _ => rfl⟩

instance : Inhabited (Store K V) := ⟨empty⟩

@[simp] theorem empty_get (k : K) : (empty : Store K V) k = default := rfl

variable [DecidableEq K]

/-- Write one key and leave every other key alone. -/
def set (s : Store K V) (k : K) (v : V) : Store K V where
  get := fun k' => if k' = k then v else s k'
  written := insert k s.written
  get_unwritten := by
    intro k' hk'
    rw [Finset.mem_insert, not_or] at hk'
    rw [if_neg hk'.1]
    exact s.get_unwritten k' hk'.2

/-- Reading after a write, at any key. -/
theorem set_get (s : Store K V) (k k' : K) (v : V) :
    (s.set k v) k' = if k' = k then v else s k' := rfl

@[simp] theorem set_get_self (s : Store K V) (k : K) (v : V) : (s.set k v) k = v := by
  rw [set_get, if_pos rfl]

@[simp] theorem set_get_of_ne (s : Store K V) {k k' : K} (v : V) (h : k' ≠ k) :
    (s.set k v) k' = s k' := by
  rw [set_get, if_neg h]

end Store

/-- A weight on entries that ignores unwritten keys. -/
structure Tally (K V M : Type*) [Inhabited V] [Zero M] where
  /-- Contribution of one entry. -/
  weight : K → V → M
  /-- The default value contributes nothing at any key. -/
  weight_default : ∀ k, weight k default = 0

namespace Store

variable {K V M : Type*} [Inhabited V]

/-- Total weight of a store. -/
def total [AddCommMonoid M] (s : Store K V) (t : Tally K V M) : M :=
  ∑ k ∈ s.written, t.weight k (s k)

/-- Nothing written weighs nothing. -/
@[simp] theorem total_empty [AddCommMonoid M] (t : Tally K V M) :
    (empty : Store K V).total t = 0 := rfl

/-- The total may be taken over any finite set that covers the written keys. -/
theorem total_eq_sum [AddCommMonoid M] (s : Store K V) (t : Tally K V M) {A : Finset K}
    (hA : s.written ⊆ A) : s.total t = ∑ k ∈ A, t.weight k (s k) := by
  apply Finset.sum_subset hA
  intro k _ hk
  rw [s.get_unwritten k hk, t.weight_default]

/-- Stores that agree on every lookup have equal totals. -/
theorem total_congr [AddCommMonoid M] [DecidableEq K] {s s' : Store K V} (t : Tally K V M)
    (h : ∀ k, t.weight k (s k) = t.weight k (s' k)) : s.total t = s'.total t := by
  rw [s.total_eq_sum t Finset.subset_union_left, s'.total_eq_sum t Finset.subset_union_right]
  exact Finset.sum_congr rfl (fun k _ => h k)

/-- Two totals are equal when every key weighs the same in both. -/
theorem total_eq_of_weight [AddCommMonoid M] [DecidableEq K] {s s' : Store K V} {t t' : Tally K V M}
    (h : ∀ k, t.weight k (s k) = t'.weight k (s' k)) : s.total t = s'.total t' := by
  rw [s.total_eq_sum t Finset.subset_union_left, s'.total_eq_sum t' Finset.subset_union_right]
  exact Finset.sum_congr rfl (fun k _ => h k)

/-- Weights that add up, one of them scaled, have totals that do. -/
theorem total_add_mul (s : Store K V) {t t' u : Tally K V ℤ} (c : ℤ)
    (h : ∀ k, t'.weight k (s k) = t.weight k (s k) + c * u.weight k (s k)) :
    s.total t' = s.total t + c * s.total u := by
  unfold total
  rw [Finset.mul_sum, ← Finset.sum_add_distrib]
  exact Finset.sum_congr rfl (fun k _ => h k)

/-- A write moves the total by the change of weight at the written key. -/
theorem total_set [AddCommGroup M] [DecidableEq K] (s : Store K V) (t : Tally K V M)
    (k : K) (v : V) : (s.set k v).total t = s.total t - t.weight k (s k) + t.weight k v := by
  have hsub : s.written ⊆ insert k s.written := Finset.subset_insert _ _
  rw [s.total_eq_sum t hsub]
  have hmem : k ∈ insert k s.written := Finset.mem_insert_self _ _
  change ∑ k' ∈ insert k s.written, t.weight k' ((s.set k v) k') = _
  rw [← Finset.add_sum_erase _ _ hmem, ← Finset.add_sum_erase _ (fun k' => t.weight k' (s k')) hmem,
    set_get_self]
  have hrest : ∑ k' ∈ (insert k s.written).erase k, t.weight k' ((s.set k v) k') =
      ∑ k' ∈ (insert k s.written).erase k, t.weight k' (s k') := by
    apply Finset.sum_congr rfl
    intro k' hk'
    rw [set_get_of_ne _ _ (Finset.ne_of_mem_erase hk')]
  rw [hrest]
  abel

/-- Two totals that weigh every other key alike differ by the weights at one key. -/
theorem total_change [AddCommGroup M] [DecidableEq K] {s s' : Store K V} {t t' : Tally K V M}
    (k : K)
    (h : ∀ k', k' ≠ k → t'.weight k' (s' k') = t.weight k' (s k')) :
    s'.total t' = s.total t - t.weight k (s k) + t'.weight k (s' k) := by
  have hs : s.written ⊆ insert k (s.written ∪ s'.written) :=
    Finset.subset_union_left.trans (Finset.subset_insert _ _)
  have hs' : s'.written ⊆ insert k (s.written ∪ s'.written) :=
    Finset.subset_union_right.trans (Finset.subset_insert _ _)
  have hmem : k ∈ insert k (s.written ∪ s'.written) := Finset.mem_insert_self _ _
  rw [s.total_eq_sum t hs, s'.total_eq_sum t' hs', ← Finset.add_sum_erase _ _ hmem,
    ← Finset.add_sum_erase _ (fun k' => t.weight k' (s k')) hmem]
  have hrest : ∑ k' ∈ (insert k (s.written ∪ s'.written)).erase k, t'.weight k' (s' k') =
      ∑ k' ∈ (insert k (s.written ∪ s'.written)).erase k, t.weight k' (s k') :=
    Finset.sum_congr rfl (fun k' hk' => h k' (Finset.ne_of_mem_erase hk'))
  rw [hrest]
  abel

/-- A finite set of entries weighs no more than all entries of nonnegative weight. -/
theorem sum_le_total [DecidableEq K] (s : Store K V) (t : Tally K V ℤ)
    (h : ∀ k, 0 ≤ t.weight k (s k)) (A : Finset K) : ∑ k ∈ A, t.weight k (s k) ≤ s.total t := by
  rw [s.total_eq_sum t (Finset.subset_union_left : s.written ⊆ s.written ∪ A)]
  exact Finset.sum_le_sum_of_subset_of_nonneg Finset.subset_union_right (fun k _ _ => h k)

/-- Entries of nonnegative weight have a nonnegative total. -/
theorem total_nonneg (s : Store K V) (t : Tally K V ℤ) (h : ∀ k, 0 ≤ t.weight k (s k)) :
    0 ≤ s.total t :=
  Finset.sum_nonneg (fun k _ => h k)

/-- No single entry outweighs a total of nonnegative entries. -/
theorem weight_le_total [DecidableEq K] (s : Store K V) (t : Tally K V ℤ)
    (h : ∀ k, 0 ≤ t.weight k (s k)) (k : K) : t.weight k (s k) ≤ s.total t := by
  rw [s.total_eq_sum t (Finset.subset_insert k s.written)]
  exact Finset.single_le_sum (f := fun k' => t.weight k' (s k')) (fun k' _ => h k')
    (Finset.mem_insert_self _ _)

end Store

/-- The tally that adds the integer values of all keys satisfying a predicate. -/
def Tally.over {K : Type*} (p : K → Prop) [DecidablePred p] : Tally K ℤ ℤ where
  weight := fun k v => if p k then v else 0
  weight_default := by
    intro k
    exact ite_self 0

/-- Weight of an entry under a restricted sum. -/
theorem Tally.over_weight {K : Type*} (p : K → Prop) [DecidablePred p] (k : K) (v : ℤ) :
    (Tally.over p).weight k v = if p k then v else 0 := rfl

end DikeProtocol.Lib
