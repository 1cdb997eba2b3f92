import DikeProtocol.Amm.Entry

/-!
# What a pool quotes it can deliver

A purchase takes no more than the minted sets and the reserve hold, a sale
merges no more than the seller brings in and the opposite reserve holds, and
a share of a pool is at most the pool. The bound on a sale rests on the square
root never being rounded below a root that the discriminant covers.
-/

namespace DikeProtocol

open Lib

/-- A Babylonian step from a positive estimate stays above every root the
number covers. -/
theorem babylonian_step_le {n s y : ℤ} (hy : 0 < y) (hs : s * s ≤ n) :
    s ≤ (y + n.tdiv y).tdiv 2 := by
  have hn : 0 ≤ n := (mul_self_nonneg s).trans hs
  rw [Int.tdiv_eq_ediv_of_nonneg hn,
    Int.tdiv_eq_ediv_of_nonneg (add_nonneg hy.le (Int.ediv_nonneg hn hy.le))]
  have hquotient : 2 * s - y ≤ n / y := by
    rw [Int.le_ediv_iff_mul_le hy]
    nlinarith [mul_self_nonneg (s - y)]
  omega

/-- The iteration ends above every root the number covers. -/
theorem isqrtLoop_lower {n s x y r : ℤ} (hs : s * s ≤ n) (hx : s ≤ x) (hy : s ≤ y)
    (h : isqrtLoop n x y = .ok r) : s ≤ r := by
  induction x, y using isqrtLoop.induct n with
  | case1 x y hlt e he =>
    rw [isqrtLoop, dif_pos hlt, he] at h
    cases h
  | case2 x y hlt quotient hq e he =>
    rw [isqrtLoop, dif_pos hlt, hq] at h
    dsimp only at h
    rw [he] at h
    cases h
  | case3 x y hlt quotient hq sum hsum e he =>
    rw [isqrtLoop, dif_pos hlt, hq] at h
    dsimp only at h
    rw [hsum] at h
    dsimp only at h
    rw [he] at h
    cases h
  | case4 x y hlt quotient hq sum hsum next hnext ih =>
    rw [isqrtLoop, dif_pos hlt, hq] at h
    dsimp only at h
    rw [hsum] at h
    dsimp only at h
    rw [hnext] at h
    dsimp only at h
    obtain ⟨hne, hquotient, _⟩ := checkedDiv_ok.mp hq
    have hsum' := (checkedAdd_ok.mp hsum).1
    have hnext' := (checkedDiv_ok.mp hnext).2.1
    have hpos : 0 < y := by omega
    have hstep := babylonian_step_le hpos hs
    rw [hsum', hquotient] at hnext'
    exact ih hy (by rw [hnext']; exact hstep) h
  | case5 x y hlt hneg =>
    rw [isqrtLoop, dif_neg hlt, if_pos hneg] at h
    cases h
  | case6 x y hlt hneg =>
    rw [isqrtLoop, dif_neg hlt, if_neg hneg] at h
    rw [← ok_ok.mp h]
    exact hx

/-- The integer square root is no smaller than any root the number covers. -/
theorem isqrt_lower {n s r : ℤ} (hs : s * s ≤ n) (h : isqrt n = .ok r) : s ≤ r := by
  unfold isqrt at h
  obtain ⟨_, hneg, h⟩ := bind_ok.mp h
  have hn : ¬n < 0 := refuse_ok.mp hneg
  have hself : s ≤ n := by
    rcases le_or_gt s 0 with hs0 | hs0
    · omega
    · nlinarith
  split at h
  · rw [← pure_ok.mp h]
    exact hself
  · next hbig =>
    obtain ⟨first, hfirst, h⟩ := bind_ok.mp h
    obtain ⟨y, hy, h⟩ := bind_ok.mp h
    have hfirst' := (checkedAdd_ok.mp hfirst).1
    have hy' := (checkedDiv_ok.mp hy).2.1
    -- the first estimate is the step from one
    have hstep := babylonian_step_le (y := 1) one_pos hs
    rw [Int.tdiv_one] at hstep
    refine isqrtLoop_lower hs hself ?_ h
    rw [hy', hfirst', add_comm]
    exact hstep

/-- A sale merges at most what the seller brings in and at most the opposite
reserve. -/
theorem quoteSell_le {reserve opposite amountIn gross : ℤ}
    (h : quoteSell reserve opposite amountIn = .ok gross) :
    gross ≤ amountIn ∧ gross ≤ opposite := by
  unfold quoteSell at h
  obtain ⟨_, hpos, h⟩ := bind_ok.mp h
  obtain ⟨held, hheld, h⟩ := bind_ok.mp h
  obtain ⟨sum, hsum, h⟩ := bind_ok.mp h
  obtain ⟨sumSq, hsumSq, h⟩ := bind_ok.mp h
  obtain ⟨sp, hsp, h⟩ := bind_ok.mp h
  obtain ⟨fourSp, hfourSp, h⟩ := bind_ok.mp h
  obtain ⟨disc, hdisc, h⟩ := bind_ok.mp h
  obtain ⟨_, _, h⟩ := bind_ok.mp h
  obtain ⟨root, hroot, h⟩ := bind_ok.mp h
  obtain ⟨difference, hdifference, h⟩ := bind_ok.mp h
  have hpos' := refuse_ok.mp hpos
  have hheld' := (checkedAdd_ok.mp hheld).1
  have hsum' := (checkedAdd_ok.mp hsum).1
  have hsumSq' := (checkedMul_ok.mp hsumSq).1
  have hsp' := (checkedMul_ok.mp hsp).1
  have hfourSp' := (checkedMul_ok.mp hfourSp).1
  have hdisc' := (checkedSub_ok.mp hdisc).1
  have hdifference' := (checkedSub_ok.mp hdifference).1
  have hgross := (checkedDiv_ok.mp h).2.1
  have hreserve : 0 < reserve ∧ 0 < opposite ∧ 0 < amountIn := by omega
  have hwhole : disc = (reserve + amountIn + opposite) * (reserve + amountIn + opposite) -
      4 * (amountIn * opposite) := by
    rw [hdisc', hsumSq', hfourSp', hsp', hsum', hheld']
  have hproducts : 0 ≤ reserve * opposite ∧ 0 ≤ reserve * amountIn :=
    ⟨(mul_pos hreserve.1 hreserve.2.1).le, (mul_pos hreserve.1 hreserve.2.2).le⟩
  have hover : reserve + amountIn - opposite ≤ root := by
    refine isqrt_lower ?_ hroot
    rw [hwhole]
    nlinarith
  have hover' : reserve + opposite - amountIn ≤ root := by
    refine isqrt_lower ?_ hroot
    rw [hwhole]
    nlinarith
  have hhalf : 2 * gross ≤ max difference 0 := by
    rw [hgross]
    rcases le_or_gt 0 difference with hd | hd
    · rw [Int.tdiv_eq_ediv_of_nonneg hd]
      omega
    · have hneg : 0 ≤ (-difference).tdiv 2 := Int.tdiv_nonneg (by omega) (by decide)
      rw [Int.neg_tdiv] at hneg
      omega
  constructor <;> omega

/-- A purchase takes at most the reserve and the minted sets together. -/
theorem quoteBuyCompleteSet_le {reserve opposite netIn out : ℤ}
    (h : quoteBuyCompleteSet reserve opposite netIn = .ok out) :
    0 < netIn ∧ out ≤ reserve + netIn := by
  unfold quoteBuyCompleteSet at h
  obtain ⟨_, hpos, h⟩ := bind_ok.mp h
  obtain ⟨k, hk, h⟩ := bind_ok.mp h
  obtain ⟨newOpposite, hopposite, h⟩ := bind_ok.mp h
  obtain ⟨newOutcome, houtcome, h⟩ := bind_ok.mp h
  obtain ⟨minted, hminted, h⟩ := bind_ok.mp h
  have hpos' := refuse_ok.mp hpos
  have hreserve : 0 < reserve ∧ 0 < opposite ∧ 0 < netIn := by omega
  have hleft : 0 ≤ newOutcome := by
    rw [(checkedDiv_ok.mp houtcome).2.1, (checkedMul_ok.mp hk).1, (checkedAdd_ok.mp hopposite).1]
    exact Int.tdiv_nonneg (mul_pos hreserve.1 hreserve.2.1).le (by omega)
  have hminted' := (checkedAdd_ok.mp hminted).1
  have hout := (checkedSub_ok.mp h).1
  exact ⟨hreserve.2.2, by omega⟩

/-- The part of an amount that belongs to some of the shares, as a plain number. -/
def proportionOf (amount shares total : ℤ) : ℤ := (amount * shares).tdiv total

/-- A part succeeds exactly when its product fits, with the truncated quotient. -/
theorem proportional_ok {amount shares total part : ℤ}
    (h : proportional amount shares total = .ok part) :
    part = proportionOf amount shares total := by
  unfold proportional at h
  obtain ⟨product, hproduct, h⟩ := bind_ok.mp h
  rw [(checkedDiv_ok.mp h).2.1, (checkedMul_ok.mp hproduct).1, proportionOf]

/-- Some of the shares own between nothing and the whole amount. -/
theorem proportionOf_bounds {amount shares total : ℤ} (ha : 0 ≤ amount) (hs : 0 < shares)
    (hle : shares ≤ total) :
    0 ≤ proportionOf amount shares total ∧ proportionOf amount shares total ≤ amount := by
  have hproduct : 0 ≤ amount * shares := mul_nonneg ha hs.le
  unfold proportionOf
  rw [Int.tdiv_eq_ediv_of_nonneg hproduct]
  have hup : amount * shares ≤ amount * total := mul_le_mul_of_nonneg_left hle ha
  have htotal : 0 < total := by omega
  exact ⟨Int.ediv_nonneg hproduct htotal.le, Int.ediv_le_of_le_mul htotal hup⟩

end DikeProtocol
