import Mathlib.Data.Nat.Log
import Mathlib.Order.Monotone.Basic
import Mathlib.Tactic.Ring

/-!
# Naturals as double-precision numbers

A double keeps 53 significant bits. A natural number with more is rounded to a
nearest one that it can keep, to the even one of two. Rounding keeps the order
and changes nothing up to `2 ^ 53`.
-/

namespace DikeProtocol.Lib

/-- A quotient rounded to the nearest integer, halves to the even one. -/
def roundDiv (n unit : ℕ) : ℕ :=
  let q := n / unit
  let r := n % unit
  if 2 * r < unit ∨ (2 * r = unit ∧ q % 2 = 0) then q else q + 1

/-- The distance between doubles around `n`. -/
def doubleUnit (n : ℕ) : ℕ := 2 ^ (Nat.log 2 n - 52)

/-- The double nearest to `n`. -/
def toDouble (n : ℕ) : ℕ := roundDiv n (doubleUnit n) * doubleUnit n

theorem doubleUnit_pos (n : ℕ) : 0 < doubleUnit n := Nat.two_pow_pos _

/-- Rounding a quotient is off by less than one. -/
theorem roundDiv_bounds (n unit : ℕ) :
    n / unit ≤ roundDiv n unit ∧ roundDiv n unit ≤ n / unit + 1 := by
  unfold roundDiv
  dsimp only
  split <;> omega

/-- Rounding quotients by the same unit keeps the order. -/
theorem roundDiv_mono {m n unit : ℕ} (h : m ≤ n) : roundDiv m unit ≤ roundDiv n unit := by
  have hm := roundDiv_bounds m unit
  have hn := roundDiv_bounds n unit
  have hq : m / unit ≤ n / unit := Nat.div_le_div_right h
  by_cases hlt : m / unit < n / unit
  · omega
  · -- the same quotient: the larger remainder is rounded up if the smaller is
    have heq : m / unit = n / unit := by omega
    have hr : m % unit ≤ n % unit := by
      have hdm := Nat.div_add_mod m unit
      have hdn := Nat.div_add_mod n unit
      rw [heq] at hdm
      omega
    unfold roundDiv
    dsimp only
    rw [heq]
    split
    · split <;> omega
    · next hup =>
      rw [if_neg (fun hdown => hup ?_)]
      rcases hdown with hdown | ⟨hhalf, heven⟩
      · exact Or.inl (by omega)
      · rcases Nat.lt_or_ge (2 * (m % unit)) unit with hless | hmore
        · exact Or.inl hless
        · exact Or.inr ⟨by omega, heven⟩

/-- A number of at most 53 bits is kept. -/
theorem toDouble_of_le {n : ℕ} (h : n ≤ 2 ^ 53) : toDouble n = n := by
  rcases Nat.lt_or_ge n (2 ^ 53) with hlt | hge
  · have hlog : Nat.log 2 n - 52 = 0 := by
      have hle : Nat.log 2 n < 53 := Nat.log_lt_of_lt_pow' (by omega) hlt
      omega
    unfold toDouble doubleUnit roundDiv
    rw [hlog, pow_zero, Nat.div_one, Nat.mod_one, mul_one]
    exact if_pos (Or.inl Nat.one_pos)
  · have heq : n = 2 ^ 53 := le_antisymm h hge
    subst heq
    unfold toDouble doubleUnit
    rw [Nat.log_pow Nat.one_lt_two]
    decide

/-- A double is at most the next power of two. -/
theorem toDouble_le_pow (n : ℕ) : toDouble n ≤ 2 ^ (Nat.log 2 n - 52 + 53) := by
  have hn : n < 2 ^ (Nat.log 2 n - 52 + 53) :=
    (Nat.lt_pow_succ_log_self Nat.one_lt_two n).trans_le
      (Nat.pow_le_pow_right Nat.two_pos (by omega))
  have hq : n / doubleUnit n < 2 ^ 53 := by
    apply Nat.div_lt_of_lt_mul
    unfold doubleUnit
    rwa [← pow_add]
  have hround := (roundDiv_bounds n (doubleUnit n)).2
  calc toDouble n ≤ 2 ^ 53 * doubleUnit n := Nat.mul_le_mul_right _ (by omega)
    _ = 2 ^ (Nat.log 2 n - 52 + 53) := by rw [doubleUnit, ← pow_add, add_comm]

/-- A rounded number of more than 53 bits is at least its leading power of two. -/
theorem pow_le_toDouble {n : ℕ} (h : 52 < Nat.log 2 n) : 2 ^ Nat.log 2 n ≤ toDouble n := by
  have hne : n ≠ 0 := by
    rintro rfl
    rw [Nat.log_zero_right] at h
    cases h
  have hsplit : 2 ^ Nat.log 2 n = 2 ^ 52 * doubleUnit n := by
    rw [doubleUnit, ← pow_add]
    congr 1
    omega
  have hq : 2 ^ 52 ≤ n / doubleUnit n := by
    rw [Nat.le_div_iff_mul_le (doubleUnit_pos n), ← hsplit]
    exact Nat.pow_log_le_self 2 hne
  rw [hsplit]
  exact Nat.mul_le_mul_right _ (hq.trans (roundDiv_bounds n (doubleUnit n)).1)

/-- Rounding to doubles keeps the order. -/
theorem toDouble_mono : Monotone toDouble := by
  intro m n h
  have hlog := Nat.log_mono_right (b := 2) h
  rcases Nat.eq_or_lt_of_le (Nat.sub_le_sub_right hlog 52) with heq | hlt
  · unfold toDouble doubleUnit
    rw [heq]
    exact Nat.mul_le_mul_right _ (roundDiv_mono h)
  · calc toDouble m ≤ 2 ^ (Nat.log 2 m - 52 + 53) := toDouble_le_pow m
      _ ≤ 2 ^ Nat.log 2 n := Nat.pow_le_pow_right Nat.two_pos (by omega)
      _ ≤ toDouble n := pow_le_toDouble (by omega)

end DikeProtocol.Lib
