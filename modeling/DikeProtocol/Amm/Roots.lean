import DikeProtocol.Amm.Quotes
import DikeProtocol.Lib.Root

/-!
# What the square root and the sale quote compute

The Babylonian iteration returns the integer square root of every number but
the largest of the 128-bit range, whose first estimate overflows. With it a
sale is quoted whenever the square of the enlarged reserves fits, and the quote
is the smaller root of the sale's quadratic, rounded.
-/

namespace DikeProtocol

open Lib

/-- The iteration, started from an estimate between the root and the number,
ends at the root and overflows nowhere. -/
theorem isqrtLoop_root {n x : ℤ} (hn : n < i128Max) (hlow : Int.sqrt n ≤ x) (hx : 0 < x)
    (hle : x ≤ n) : isqrtLoop n x ((x + n / x) / 2) = .ok (Int.sqrt n) := by
  have hpos : 0 < n := hx.trans_le hle
  have hfits := sqrt_mul_self_le hpos.le
  have hroot : 0 < Int.sqrt n := le_sqrt (by omega : (1 : ℤ) * 1 ≤ n)
  -- the mean with the quotient stays above the root
  have hmean : Int.sqrt n ≤ (x + n / x) / 2 := by
    have hstep := babylonian_step_le hx hfits
    have hquotient : 0 ≤ n / x := Int.ediv_nonneg hpos.le hx.le
    rw [Int.tdiv_eq_ediv_of_nonneg hpos.le, Int.tdiv_eq_ediv_of_nonneg (by omega)] at hstep
    exact hstep
  rw [isqrtLoop]
  by_cases hfalls : (x + n / x) / 2 < x
  · generalize hy : (x + n / x) / 2 = y at hfalls hmean
    have hypos : 0 < y := hroot.trans_le hmean
    have hyn : y ≤ n := by omega
    have hsum := add_ediv_le hypos hyn
    have hquotient : 0 ≤ n / y := Int.ediv_nonneg hpos.le hypos.le
    have hdiv : checkedDiv n y = .ok (n / y) := by
      rw [checkedDiv_ok, Int.tdiv_eq_ediv_of_nonneg hpos.le]
      refine ⟨by omega, rfl, ?_⟩
      unfold InRange i128Min
      constructor <;> omega
    have hadd : checkedAdd y (n / y) = .ok (y + n / y) := by
      rw [checkedAdd_ok]
      refine ⟨rfl, ?_⟩
      unfold InRange i128Min
      constructor <;> omega
    have hhalf : checkedDiv (y + n / y) 2 = .ok ((y + n / y) / 2) := by
      rw [checkedDiv_ok, Int.tdiv_eq_ediv_of_nonneg (by omega)]
      refine ⟨by decide, rfl, ?_⟩
      unfold InRange i128Min
      constructor <;> omega
    rw [dif_pos ⟨hypos.le, hfalls⟩, hdiv]
    dsimp only
    rw [hadd]
    dsimp only
    rw [hhalf]
    dsimp only
    exact isqrtLoop_root hn hmean hypos hyn
  · have hbelow := le_sqrt_of_le_mean hx (not_lt.mp hfalls)
    rw [dif_neg (fun hk => hfalls hk.2), if_neg hfalls, le_antisymm hbelow hlow]
termination_by x.toNat
decreasing_by omega

/-- Below the largest number of the range, the square root succeeds with the
integer root. -/
theorem isqrt_root {n : ℤ} (h0 : 0 ≤ n) (hn : n < i128Max) : isqrt n = .ok (Int.sqrt n) := by
  unfold isqrt
  refine bind_ok.mpr ⟨(), refuse_ok.mpr (by omega), ?_⟩
  split
  · next hsmall =>
    have hself : n * n ≤ n := by nlinarith
    exact pure_ok.mpr (eq_sqrt h0 hself (by nlinarith))
  · next hbig =>
    have hfirst : checkedAdd n 1 = .ok (n + 1) := by
      rw [checkedAdd_ok]
      refine ⟨rfl, ?_⟩
      unfold InRange i128Min
      constructor <;> omega
    have hhalf : checkedDiv (n + 1) 2 = .ok ((n + n / n) / 2) := by
      rw [checkedDiv_ok, Int.tdiv_eq_ediv_of_nonneg (by omega), Int.ediv_self (by omega)]
      refine ⟨by decide, rfl, ?_⟩
      unfold InRange i128Min
      constructor <;> omega
    refine bind_ok.mpr ⟨_, hfirst, bind_ok.mpr ⟨_, hhalf, ?_⟩⟩
    have hlow : Int.sqrt n ≤ n := by
      have hfits := sqrt_mul_self_le h0
      nlinarith [Int.sqrt_nonneg n]
    exact isqrtLoop_root hn hlow (by omega) le_rfl

/-- The first estimate of the largest number of the range overflows. -/
theorem isqrt_max : isqrt i128Max = .error (.error .arithmeticError) := by decide +kernel

/-- On the nonnegative range, the square root succeeds with the largest integer
whose square fits exactly below the largest number. -/
theorem isqrt_correct_iff {n : ℤ} (h0 : 0 ≤ n) (hmax : n ≤ i128Max) :
    (∃ x, isqrt n = .ok x ∧ 0 ≤ x ∧ x * x ≤ n ∧ n < (x + 1) * (x + 1)) ↔ n < i128Max := by
  constructor
  · rintro ⟨x, hx, _⟩
    rcases hmax.lt_or_eq with hlt | rfl
    · exact hlt
    · rw [isqrt_max] at hx
      cases hx
  · intro hlt
    exact ⟨Int.sqrt n, isqrt_root h0 hlt, Int.sqrt_nonneg n, sqrt_mul_self_le h0, lt_succ_sqrt n⟩

/-- The square root of the second largest number. -/
theorem isqrt_correct_sample : (0 : ℤ) ≤ i128Max - 1 ∧ i128Max - 1 ≤ i128Max ∧
    ((∃ x, isqrt (i128Max - 1) = .ok x ∧ 0 ≤ x ∧ x * x ≤ i128Max - 1 ∧
      i128Max - 1 < (x + 1) * (x + 1)) ↔ i128Max - 1 < i128Max) :=
  ⟨by decide, by decide, isqrt_correct_iff (by decide) (by decide)⟩

/-- The largest number has no computed square root. -/
theorem not_always_isqrt : ¬∀ n : ℤ, 0 ≤ n → n ≤ i128Max →
    ∃ x, isqrt n = .ok x ∧ 0 ≤ x ∧ x * x ≤ n ∧ n < (x + 1) * (x + 1) := by
  intro hall
  obtain ⟨x, hx, _⟩ := hall i128Max (by decide) le_rfl
  rw [isqrt_max] at hx
  cases hx

/-- What a sale is quoted: the smaller root of `c * c - c * (O + S + P) + S * P`, rounded. -/
def saleRoot (reserve opposite amountIn : ℤ) : ℤ :=
  lowerRoot (reserve + amountIn + opposite) (amountIn * opposite)

/-- The discriminant of a sale is that of a purchase at the same reserves. -/
theorem sale_discriminant (reserve opposite amountIn : ℤ) :
    (reserve + amountIn + opposite) * (reserve + amountIn + opposite) -
        4 * (amountIn * opposite) =
      (reserve + amountIn - opposite) * (reserve + amountIn - opposite) +
        4 * (reserve * opposite) := by
  ring

section Sale

variable {reserve opposite amountIn gross : ℤ}

/-- The discriminant of a sale is positive. -/
theorem sale_discriminant_pos (hr : 0 < reserve) (ho : 0 < opposite) (amountIn : ℤ) :
    0 < (reserve + amountIn + opposite) * (reserve + amountIn + opposite) -
      4 * (amountIn * opposite) := by
  have hproduct := mul_pos hr ho
  have hsquare := mul_self_nonneg (reserve + amountIn - opposite)
  rw [sale_discriminant]
  omega

/-- The root of the discriminant is at most the sum. -/
theorem sqrt_discriminant_le (hr : 0 < reserve) (ho : 0 < opposite) (hin : 0 < amountIn) :
    Int.sqrt ((reserve + amountIn + opposite) * (reserve + amountIn + opposite) -
      4 * (amountIn * opposite)) ≤ reserve + amountIn + opposite := by
  have hbelow := sqrt_mul_self_le (sale_discriminant_pos hr ho amountIn).le
  have hproduct := mul_pos hin ho
  nlinarith

/-- A sale pays no negative amount. -/
theorem saleRoot_nonneg (hr : 0 < reserve) (ho : 0 < opposite) (hin : 0 < amountIn) :
    0 ≤ saleRoot reserve opposite amountIn := by
  have hle := sqrt_discriminant_le hr ho hin
  unfold saleRoot lowerRoot
  omega

/-- A sale is quoted exactly when all amounts are positive and the square of
their sum fits, and then at the rounded smaller root. -/
theorem quoteSell_ok : quoteSell reserve opposite amountIn = .ok gross ↔
    0 < reserve ∧ 0 < opposite ∧ 0 < amountIn ∧
      (reserve + amountIn + opposite) * (reserve + amountIn + opposite) ≤ i128Max ∧
      gross = saleRoot reserve opposite amountIn := by
  unfold quoteSell
  constructor
  · intro h
    obtain ⟨_, hpos, h⟩ := bind_ok.mp h
    obtain ⟨held, hheld, h⟩ := bind_ok.mp h
    obtain ⟨sum, hsum, h⟩ := bind_ok.mp h
    obtain ⟨sumSq, hsumSq, h⟩ := bind_ok.mp h
    obtain ⟨sp, hsp, h⟩ := bind_ok.mp h
    obtain ⟨fourSp, hfourSp, h⟩ := bind_ok.mp h
    obtain ⟨disc, hdisc, h⟩ := bind_ok.mp h
    obtain ⟨_, _, h⟩ := bind_ok.mp h
    obtain ⟨root, hroot, h⟩ := bind_ok.mp h
    obtain ⟨difference, hdifference, h⟩ := bind_ok.mp h
    have hpos' := refuse_ok.mp hpos
    have hr : 0 < reserve := by omega
    have ho : 0 < opposite := by omega
    have hin : 0 < amountIn := by omega
    obtain ⟨hsumSq', hfits⟩ := checkedMul_ok.mp hsumSq
    rw [(checkedAdd_ok.mp hsum).1, (checkedAdd_ok.mp hheld).1] at hsumSq' hfits
    have hwhole : disc = (reserve + amountIn + opposite) * (reserve + amountIn + opposite) -
        4 * (amountIn * opposite) := by
      rw [(checkedSub_ok.mp hdisc).1, hsumSq', (checkedMul_ok.mp hfourSp).1,
        (checkedMul_ok.mp hsp).1]
    have hdiscPos := sale_discriminant_pos hr ho amountIn
    have hproduct := mul_pos hin ho
    rw [isqrt_root (by omega) (by unfold InRange at hfits; omega)] at hroot
    refine ⟨hr, ho, hin, hfits.2, ?_⟩
    have hle : 0 ≤ difference := by
      rw [(checkedSub_ok.mp hdifference).1, ← ok_ok.mp hroot, (checkedAdd_ok.mp hsum).1,
        (checkedAdd_ok.mp hheld).1]
      have hbelow := sqrt_mul_self_le (n := disc) (by omega)
      have hnonneg := Int.sqrt_nonneg disc
      nlinarith
    rw [(checkedDiv_ok.mp h).2.1, Int.tdiv_eq_ediv_of_nonneg hle, (checkedSub_ok.mp hdifference).1,
      ← ok_ok.mp hroot, (checkedAdd_ok.mp hsum).1, (checkedAdd_ok.mp hheld).1, hwhole]
    rfl
  · rintro ⟨hr, ho, hin, hfits, rfl⟩
    have hdiscPos := sale_discriminant_pos hr ho amountIn
    have hproduct := mul_pos hin ho
    have hsumPos : 0 < reserve + amountIn + opposite := by omega
    have hsumFits : reserve + amountIn + opposite ≤ i128Max := by nlinarith
    have hnonneg := Int.sqrt_nonneg ((reserve + amountIn + opposite) *
      (reserve + amountIn + opposite) - 4 * (amountIn * opposite))
    have hrootLe := sqrt_discriminant_le hr ho hin
    have hrange : ∀ x : ℤ, 0 ≤ x → x ≤ i128Max → InRange x := by
      intro x hx hmax
      exact ⟨by unfold i128Min; omega, hmax⟩
    refine bind_ok.mpr ⟨(), refuse_ok.mpr (by omega), ?_⟩
    refine bind_ok.mpr ⟨_, checkedAdd_ok.mpr ⟨rfl, hrange _ (by omega) (by omega)⟩, ?_⟩
    refine bind_ok.mpr ⟨_, checkedAdd_ok.mpr ⟨rfl, hrange _ (by omega) (by omega)⟩, ?_⟩
    refine bind_ok.mpr ⟨_, checkedMul_ok.mpr ⟨rfl, hrange _ (by positivity) hfits⟩, ?_⟩
    refine bind_ok.mpr ⟨_, checkedMul_ok.mpr ⟨rfl, hrange _ (by omega) (by omega)⟩, ?_⟩
    refine bind_ok.mpr ⟨_, checkedMul_ok.mpr ⟨rfl, hrange _ (by omega) (by omega)⟩, ?_⟩
    refine bind_ok.mpr ⟨_, checkedSub_ok.mpr ⟨rfl, hrange _ (by omega) (by omega)⟩, ?_⟩
    refine bind_ok.mpr ⟨(), refuse_ok.mpr (by omega), ?_⟩
    refine bind_ok.mpr ⟨_, isqrt_root (by omega) (by omega), ?_⟩
    refine bind_ok.mpr ⟨_, checkedSub_ok.mpr ⟨rfl, hrange _ (by omega) (by omega)⟩, ?_⟩
    rw [checkedDiv_ok, Int.tdiv_eq_ediv_of_nonneg (by omega)]
    exact ⟨by decide, rfl, hrange _ (by omega) (by omega)⟩

/-- A larger sale is quoted no less. -/
theorem saleRoot_mono {more : ℤ} (hr : 0 < reserve) (ho : 0 < opposite) (hle : amountIn ≤ more) :
    saleRoot reserve opposite amountIn ≤ saleRoot reserve opposite more := by
  -- the root of the discriminant grows no faster than the amount
  have hslow : Int.sqrt ((reserve + more + opposite) * (reserve + more + opposite) -
        4 * (more * opposite)) - (more - amountIn) ≤
      Int.sqrt ((reserve + amountIn + opposite) * (reserve + amountIn + opposite) -
        4 * (amountIn * opposite)) := by
    have hproduct := mul_pos hr ho
    have hover : reserve + more - opposite ≤ Int.sqrt ((reserve + more + opposite) *
        (reserve + more + opposite) - 4 * (more * opposite)) := by
      apply le_sqrt
      rw [sale_discriminant]
      omega
    have hbelow := sqrt_mul_self_le (sale_discriminant_pos hr ho more).le
    apply le_sqrt
    rw [sale_discriminant] at hbelow hover ⊢
    rw [sale_discriminant]
    nlinarith
  have hsum : reserve + more + opposite = reserve + amountIn + opposite + (more - amountIn) := by
    omega
  unfold saleRoot lowerRoot
  omega

/-- A quoted sale pays the smaller root of its quadratic up to less than one
unit, never more than the tokens sold or the opposite reserve, and never less
than a smaller sale. -/
theorem quoteSell_smallerRoot (hr : 0 < reserve) (ho : 0 < opposite) (hin : 0 < amountIn)
    (hfits : (reserve + amountIn + opposite) * (reserve + amountIn + opposite) ≤ i128Max) :
    ∃ c, quoteSell reserve opposite amountIn = .ok c ∧ 0 ≤ c ∧ c ≤ min amountIn opposite ∧
      (∃ root : ℝ,
        IsLeast {x : ℝ | x ^ 2 - x * ((reserve + amountIn + opposite : ℤ) : ℝ) +
          ((amountIn * opposite : ℤ) : ℝ) = 0} root ∧ |(c : ℝ) - root| < 1) ∧
      ∀ less c', less ≤ amountIn → quoteSell reserve opposite less = .ok c' → c' ≤ c := by
  have hquote : quoteSell reserve opposite amountIn =
      .ok (saleRoot reserve opposite amountIn) :=
    quoteSell_ok.mpr ⟨hr, ho, hin, hfits, rfl⟩
  have hdisc := (sale_discriminant_pos hr ho amountIn).le
  have hbounds := quoteSell_le hquote
  refine ⟨_, hquote, saleRoot_nonneg hr ho hin, le_min hbounds.1 hbounds.2,
    ⟨_, exactRoot_isLeast hdisc, lowerRoot_near hdisc⟩, ?_⟩
  intro less c' hle hless
  rw [(quoteSell_ok.mp hless).2.2.2.2]
  exact saleRoot_mono hr ho hle

/-- One token sold to a balanced pool of a hundred each. -/
theorem quoteSell_smallerRoot_sample : (0 : ℤ) < 1000000000 ∧ (0 : ℤ) < 10000000 ∧
    ∃ c, quoteSell 1000000000 1000000000 10000000 = .ok c ∧ 0 ≤ c ∧
      c ≤ min 10000000 1000000000 := by
  obtain ⟨c, hc, hnonneg, hle, _⟩ := quoteSell_smallerRoot
    (by decide : (0 : ℤ) < 1000000000) (by decide : (0 : ℤ) < 1000000000)
    (by decide : (0 : ℤ) < 10000000) (by decide)
  exact ⟨by decide, by decide, c, hc, hnonneg, hle⟩

end Sale

end DikeProtocol
