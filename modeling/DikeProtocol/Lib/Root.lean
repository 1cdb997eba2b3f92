import Mathlib.Analysis.Real.Sqrt
import Mathlib.Data.Int.Sqrt
import Mathlib.Tactic.Linarith
import Mathlib.Tactic.Ring

/-!
# Integer square roots and the smaller root of a quadratic

The integer square root as the largest integer whose square fits, the test by
which the Babylonian iteration ends, and the smaller root of
`x * x - s * x + p` rounded to an integer by way of the root of its
discriminant.
-/

namespace DikeProtocol.Lib

/-- The square of the integer root fits. -/
theorem sqrt_mul_self_le {n : ℤ} (h : 0 ≤ n) : Int.sqrt n * Int.sqrt n ≤ n := by
  have hnat := Nat.sqrt_le n.toNat
  unfold Int.sqrt
  have hcast : ((Nat.sqrt n.toNat * Nat.sqrt n.toNat : ℕ) : ℤ) ≤ (n.toNat : ℤ) := by
    exact_mod_cast hnat
  rw [Int.toNat_of_nonneg h] at hcast
  exact_mod_cast hcast

/-- The square of the next integer does not fit. -/
theorem lt_succ_sqrt (n : ℤ) : n < (Int.sqrt n + 1) * (Int.sqrt n + 1) := by
  have hnat := Nat.lt_succ_sqrt n.toNat
  have hself := Int.self_le_toNat n
  unfold Int.sqrt
  have hcast : (n.toNat : ℤ) <
      ((Nat.succ (Nat.sqrt n.toNat) * Nat.succ (Nat.sqrt n.toNat) : ℕ) : ℤ) := by
    exact_mod_cast hnat
  push_cast at hcast
  omega

/-- The integer root is the largest integer whose square fits. -/
theorem le_sqrt {n s : ℤ} (h : s * s ≤ n) : s ≤ Int.sqrt n := by
  by_contra hlt
  have hnext := lt_succ_sqrt n
  have hroot := Int.sqrt_nonneg n
  nlinarith

/-- A number between two consecutive squares has the root of the lower one. -/
theorem eq_sqrt {n x : ℤ} (hx : 0 ≤ x) (hle : x * x ≤ n) (hlt : n < (x + 1) * (x + 1)) :
    x = Int.sqrt n := by
  have hn : 0 ≤ n := (mul_self_nonneg x).trans hle
  have hbelow := le_sqrt hle
  have hfits := sqrt_mul_self_le hn
  have habove : Int.sqrt n ≤ x := by
    by_contra hgt
    nlinarith
  omega

/-- An estimate that the mean with its own quotient does not lower is no larger
than the root. -/
theorem le_sqrt_of_le_mean {n x : ℤ} (hx : 0 < x) (h : x ≤ (x + n / x) / 2) :
    x ≤ Int.sqrt n := by
  have hquotient : x ≤ n / x := by omega
  exact le_sqrt ((Int.le_ediv_iff_mul_le hx).mp hquotient)

/-- An estimate between one and the number, together with its quotient, exceeds
the number by at most one. -/
theorem add_ediv_le {n x : ℤ} (hx : 0 < x) (hn : x ≤ n) : x + n / x ≤ n + 1 := by
  have hquotient : 1 ≤ n / x := by
    rw [Int.le_ediv_iff_mul_le hx]
    omega
  have hfits : n / x * x ≤ n := Int.ediv_mul_le n (by omega)
  nlinarith [mul_nonneg (sub_nonneg.mpr hquotient) (show 0 ≤ x - 1 by omega)]

/-- The smaller root of `x * x - s * x + p`, rounded to an integer. -/
def lowerRoot (s p : ℤ) : ℤ := (s - Int.sqrt (s * s - 4 * p)) / 2

section LowerRoot

variable {s p : ℤ}

/-- Twice the rounded root and the root of the discriminant miss the sum by at
most one: nothing when they have the same parity, and one otherwise. -/
theorem lowerRoot_gap (s p : ℤ) : s - 2 * lowerRoot s p =
    Int.sqrt (s * s - 4 * p) + (s - Int.sqrt (s * s - 4 * p)) % 2 := by
  unfold lowerRoot
  omega

/-- The quadratic at an integer is positive outside its roots. -/
theorem quadratic_eq (s p x : ℤ) :
    4 * (x * x - s * x + p) = (s - 2 * x) * (s - 2 * x) - (s * s - 4 * p) := by
  ring

/-- The rounded root does not pass the exact one exactly when the discriminant
is a square, or its integer root and the sum differ in parity. -/
theorem lowerRoot_below_iff (hdisc : 0 ≤ s * s - 4 * p) :
    0 ≤ lowerRoot s p * lowerRoot s p - s * lowerRoot s p + p ↔
      IsSquare (s * s - 4 * p) ∨ Odd (s + Int.sqrt (s * s - 4 * p)) := by
  have hvalue := quadratic_eq s p (lowerRoot s p)
  rw [lowerRoot_gap] at hvalue
  have hfits := sqrt_mul_self_le hdisc
  have hnext := lt_succ_sqrt (s * s - 4 * p)
  have hodd : Odd (s + Int.sqrt (s * s - 4 * p)) ↔
      (s - Int.sqrt (s * s - 4 * p)) % 2 = 1 := by
    rw [Int.odd_iff]
    omega
  rw [hodd]
  rcases Int.emod_two_eq_zero_or_one (s - Int.sqrt (s * s - 4 * p)) with heven | hone
  · rw [heven, add_zero] at hvalue
    rw [heven, or_iff_left (by decide)]
    constructor
    · intro hpos
      exact ⟨Int.sqrt (s * s - 4 * p), by omega⟩
    · rintro ⟨r, hr⟩
      have hroot : Int.sqrt (s * s - 4 * p) * Int.sqrt (s * s - 4 * p) = s * s - 4 * p := by
        rw [← Int.exists_mul_self]
        exact ⟨r, hr.symm⟩
      omega
  · rw [hone] at hvalue
    rw [hone]
    exact ⟨fun _ => Or.inr rfl, fun _ => by omega⟩

/-- The exact smaller root. -/
noncomputable def exactRoot (s p : ℤ) : ℝ := ((s : ℝ) - √((s : ℝ) * s - 4 * p)) / 2

/-- It is the least of the roots. -/
theorem exactRoot_isLeast (hdisc : 0 ≤ s * s - 4 * p) :
    IsLeast {x : ℝ | x ^ 2 - x * s + p = 0} (exactRoot s p) := by
  have hcast : (0 : ℝ) ≤ (s : ℝ) * s - 4 * p := by exact_mod_cast hdisc
  have hsq := Real.mul_self_sqrt hcast
  have hroot := Real.sqrt_nonneg ((s : ℝ) * s - 4 * p)
  unfold exactRoot
  constructor
  · change (((s : ℝ) - √((s : ℝ) * s - 4 * p)) / 2) ^ 2 -
      ((s : ℝ) - √((s : ℝ) * s - 4 * p)) / 2 * s + p = 0
    nlinarith
  · intro x hx
    have hzero : x ^ 2 - x * s + p = 0 := hx
    by_contra hlt
    -- below the smaller root the quadratic is positive
    have hgap : √((s : ℝ) * s - 4 * p) < s - 2 * x := by linarith
    nlinarith

/-- The rounded root is less than one away from the exact one. -/
theorem lowerRoot_near (hdisc : 0 ≤ s * s - 4 * p) :
    |(lowerRoot s p : ℝ) - exactRoot s p| < 1 := by
  have hcast : (0 : ℝ) ≤ (s : ℝ) * s - 4 * p := by exact_mod_cast hdisc
  have hbelow : ((Int.sqrt (s * s - 4 * p) : ℤ) : ℝ) ≤ √((s : ℝ) * s - 4 * p) := by
    apply Real.le_sqrt_of_sq_le
    rw [pow_two]
    exact_mod_cast sqrt_mul_self_le hdisc
  have habove : √((s : ℝ) * s - 4 * p) < (Int.sqrt (s * s - 4 * p) : ℤ) + 1 := by
    have hroot : (0 : ℝ) ≤ (Int.sqrt (s * s - 4 * p) : ℤ) := by
      exact_mod_cast Int.sqrt_nonneg _
    rw [Real.sqrt_lt' (by linarith), pow_two]
    exact_mod_cast lt_succ_sqrt (s * s - 4 * p)
  have hgap := lowerRoot_gap s p
  have hparity := Int.emod_two_eq_zero_or_one (s - Int.sqrt (s * s - 4 * p))
  have hlow : Int.sqrt (s * s - 4 * p) ≤ s - 2 * lowerRoot s p := by omega
  have hhigh : s - 2 * lowerRoot s p ≤ Int.sqrt (s * s - 4 * p) + 1 := by omega
  have hlow' : ((Int.sqrt (s * s - 4 * p) : ℤ) : ℝ) ≤ (s : ℝ) - 2 * lowerRoot s p := by
    exact_mod_cast hlow
  have hhigh' : (s : ℝ) - 2 * lowerRoot s p ≤ (Int.sqrt (s * s - 4 * p) : ℤ) + 1 := by
    exact_mod_cast hhigh
  unfold exactRoot
  rw [abs_lt]
  constructor <;> linarith

end LowerRoot

end DikeProtocol.Lib
