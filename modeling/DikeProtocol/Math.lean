import DikeProtocol.Types
import Mathlib.Tactic.Linarith
import Mathlib.Tactic.Positivity
import Mathlib.Tactic.Ring

/-!
# Checked 128-bit arithmetic and pool quotes

Amounts are integers; every operation of the source that may leave the signed
128-bit range is checked here too. Division truncates toward zero, which on
the nonnegative amounts of the protocol is rounding down.
-/

namespace DikeProtocol

open Lib

/-- Largest signed 128-bit integer. -/
def i128Max : ℤ := 170141183460469231731687303715884105727

/-- Smallest signed 128-bit integer. -/
def i128Min : ℤ := -170141183460469231731687303715884105728

/-- Largest unsigned 64-bit integer. -/
def u64Max : ℕ := 18446744073709551615

/-- Largest unsigned 32-bit integer. -/
def u32Max : ℤ := 4294967295

/-- Denominator of every rate. -/
def bpsDenominator : ℤ := 10000

/-- Values that fit a signed 128-bit integer. -/
def InRange (x : ℤ) : Prop := i128Min ≤ x ∧ x ≤ i128Max

instance (x : ℤ) : Decidable (InRange x) := inferInstanceAs (Decidable (_ ∧ _))

/-- Keep a value that fits, refuse any other. -/
def checked (x : ℤ) : Res ℤ := if InRange x then .ok x else .error (.error .arithmeticError)

/-- A checked value is the value itself, in range. -/
theorem checked_ok {x y : ℤ} : checked x = .ok y ↔ y = x ∧ InRange x := by
  unfold checked
  split
  · next h => exact ⟨fun hk => ⟨(ok_ok.mp hk).symm, h⟩, fun hk => ok_ok.mpr hk.1.symm⟩
  · next h => exact ⟨fun hk => (error_ok.mp hk).elim, fun hk => (h hk.2).elim⟩

/-- Only a value out of range is refused, always with the same error. -/
theorem checked_error {x : ℤ} {e : Fault} (h : checked x = .error e) :
    e = .error .arithmeticError := by
  unfold checked at h
  split at h
  · cases h
  · cases h
    rfl

/-- Checked addition. -/
def checkedAdd (a b : ℤ) : Res ℤ := checked (a + b)

/-- Checked subtraction. -/
def checkedSub (a b : ℤ) : Res ℤ := checked (a - b)

/-- Checked multiplication. -/
def checkedMul (a b : ℤ) : Res ℤ := checked (a * b)

/-- Checked division; a zero divisor is refused before the range is. -/
def checkedDiv (a b : ℤ) : Res ℤ := do
  refuse (b = 0) (.error .invalidAmount)
  checked (a.tdiv b)

/-- Successful addition is addition. -/
theorem checkedAdd_ok {a b c : ℤ} : checkedAdd a b = .ok c ↔ c = a + b ∧ InRange (a + b) :=
  checked_ok

/-- Successful subtraction is subtraction. -/
theorem checkedSub_ok {a b c : ℤ} : checkedSub a b = .ok c ↔ c = a - b ∧ InRange (a - b) :=
  checked_ok

/-- Successful multiplication is multiplication. -/
theorem checkedMul_ok {a b c : ℤ} : checkedMul a b = .ok c ↔ c = a * b ∧ InRange (a * b) :=
  checked_ok

/-- Successful division is truncated division by a nonzero divisor. -/
theorem checkedDiv_ok {a b c : ℤ} :
    checkedDiv a b = .ok c ↔ b ≠ 0 ∧ c = a.tdiv b ∧ InRange (a.tdiv b) := by
  unfold checkedDiv
  rw [bind_ok]
  constructor
  · rintro ⟨u, hu, hc⟩
    exact ⟨refuse_ok.mp hu, checked_ok.mp hc⟩
  · rintro ⟨hb, hc⟩
    exact ⟨(), refuse_ok.mpr hb, checked_ok.mpr hc⟩

/-- Checked addition of unsigned 64-bit integers. -/
def checkedAddU64 (a b : ℕ) : Res ℕ :=
  if a + b ≤ u64Max then .ok (a + b) else .error (.error .arithmeticError)

/-- Successful unsigned addition is addition. -/
theorem checkedAddU64_ok {a b c : ℕ} : checkedAddU64 a b = .ok c ↔ c = a + b ∧ a + b ≤ u64Max := by
  unfold checkedAddU64
  split
  · next h => exact ⟨fun hk => ⟨(ok_ok.mp hk).symm, h⟩, fun hk => ok_ok.mpr hk.1.symm⟩
  · next h => exact ⟨fun hk => (error_ok.mp hk).elim, fun hk => (h hk.2).elim⟩

/-- Checked multiplication of unsigned 64-bit integers. -/
def checkedMulU64 (a b : ℕ) : Res ℕ :=
  if a * b ≤ u64Max then .ok (a * b) else .error (.error .arithmeticError)

/-- Share of an amount at a rate in basis points. -/
def bps (amount : ℤ) (rateBps : ℕ) : Res ℤ := do
  let product ← checkedMul amount rateBps
  checkedDiv product bpsDenominator

/-- The share at a rate as a plain number. -/
def bpsOf (amount : ℤ) (rateBps : ℕ) : ℤ := (amount * rateBps).tdiv bpsDenominator

/-- A share succeeds exactly when its product fits, with the truncated quotient. -/
theorem bps_ok {amount c : ℤ} {rateBps : ℕ} :
    bps amount rateBps = .ok c ↔ c = bpsOf amount rateBps ∧ InRange (amount * rateBps) := by
  unfold bps
  rw [bind_ok]
  constructor
  · rintro ⟨product, hp, hd⟩
    obtain ⟨rfl, hr⟩ := checkedMul_ok.mp hp
    exact ⟨(checkedDiv_ok.mp hd).2.1, hr⟩
  · rintro ⟨rfl, hr⟩
    refine ⟨_, checkedMul_ok.mpr ⟨rfl, hr⟩, checkedDiv_ok.mpr ⟨by decide, rfl, ?_⟩⟩
    have ha : ((amount * rateBps).tdiv bpsDenominator).natAbs = (amount * rateBps).natAbs / 10000 :=
      Int.natAbs_tdiv _ _
    unfold InRange i128Min i128Max at *
    omega

/-- A share of a nonnegative amount is nonnegative. -/
theorem bpsOf_nonneg {amount : ℤ} (h : 0 ≤ amount) (rateBps : ℕ) : 0 ≤ bpsOf amount rateBps :=
  Int.tdiv_nonneg (by positivity) (by decide)

/-- A share of a nonnegative amount at a rate of at most one does not exceed it. -/
theorem bpsOf_le {amount : ℤ} (h : 0 ≤ amount) {rateBps : ℕ} (hr : rateBps ≤ 10000) :
    bpsOf amount rateBps ≤ amount := by
  unfold bpsOf bpsDenominator
  rw [Int.tdiv_eq_ediv_of_nonneg (by positivity)]
  apply Int.ediv_le_of_le_mul (by norm_num)
  have : (rateBps : ℤ) ≤ 10000 := by exact_mod_cast hr
  nlinarith

/-- A larger amount has no smaller share. -/
theorem bpsOf_mono {a b : ℤ} (h : 0 ≤ a) (hle : a ≤ b) (rateBps : ℕ) :
    bpsOf a rateBps ≤ bpsOf b rateBps := by
  unfold bpsOf bpsDenominator
  have hb : 0 ≤ b := h.trans hle
  rw [Int.tdiv_eq_ediv_of_nonneg (by positivity), Int.tdiv_eq_ediv_of_nonneg (by positivity)]
  have hscaled : a * rateBps ≤ b * rateBps := mul_le_mul_of_nonneg_right hle (by positivity)
  exact Int.ediv_le_ediv (by norm_num) hscaled

/-- Two shares of rates that stay within the whole stay within the amount. -/
theorem bpsOf_add_le {amount : ℤ} (h : 0 ≤ amount) {rate rate' : ℕ} (hr : rate + rate' ≤ 10000) :
    bpsOf amount rate + bpsOf amount rate' ≤ amount := by
  unfold bpsOf bpsDenominator
  rw [Int.tdiv_eq_ediv_of_nonneg (by positivity), Int.tdiv_eq_ediv_of_nonneg (by positivity)]
  have hsum : amount * rate + amount * rate' ≤ amount * 10000 := by
    rw [← mul_add]
    have hrate : (rate : ℤ) + rate' ≤ 10000 := by exact_mod_cast hr
    exact mul_le_mul_of_nonneg_left hrate h
  omega

/-- Capital that may back child credit. -/
def collateralLimit (amount : ℤ) (collateralBps : ℕ) : Res ℤ := do
  refuse (amount < 0) (.error .invalidAmount)
  bps amount collateralBps

/-- The larger of the minimum bond and the share of market liquidity. -/
def requiredBond (minimumBond marketLiquidity : ℤ) (bondBps : ℕ) : Res ℤ := do
  let scaled ← bps marketLiquidity bondBps
  return if scaled > minimumBond then scaled else minimumBond

/-- Split an amount into the fee and the rest. -/
def splitFee (amount : ℤ) (feeBps : ℕ) : Res (ℤ × ℤ) := do
  let fee ← bps amount feeBps
  let rest ← checkedSub amount fee
  return (fee, rest)

/-- The fee and the rest add up to the amount. -/
theorem splitFee_ok {amount fee rest : ℤ} {feeBps : ℕ}
    (h : splitFee amount feeBps = .ok (fee, rest)) :
    fee = bpsOf amount feeBps ∧ fee + rest = amount := by
  unfold splitFee at h
  obtain ⟨fee', hf, h⟩ := bind_ok.mp h
  obtain ⟨rest', hr, h⟩ := bind_ok.mp h
  obtain ⟨rfl, rfl⟩ := Prod.mk.inj (pure_ok.mp h)
  have hr' := (checkedSub_ok.mp hr).1
  exact ⟨(bps_ok.mp hf).1, by omega⟩

/-- Pro-rata part of an amount. -/
def proportional (amount shares totalShares : ℤ) : Res ℤ := do
  let product ← checkedMul amount shares
  checkedDiv product totalShares

/-- Tokens bought when the net collateral mints complete sets into the pool. -/
def quoteBuyCompleteSet (outcomeReserve oppositeReserve netIn : ℤ) : Res ℤ := do
  refuse (outcomeReserve ≤ 0 ∨ oppositeReserve ≤ 0 ∨ netIn ≤ 0) (.error .invalidAmount)
  let k ← checkedMul outcomeReserve oppositeReserve
  let newOpposite ← checkedAdd oppositeReserve netIn
  let newOutcome ← checkedDiv k newOpposite
  let minted ← checkedAdd outcomeReserve netIn
  checkedSub minted newOutcome

/-- One Babylonian iteration after another until the estimate stops falling.
The estimate `y` is computed from `x` by the checked operations of the source. -/
def isqrtLoop (n x y : ℤ) : Res ℤ :=
  if _h : 0 ≤ y ∧ y < x then
    match checkedDiv n y with
    | .error e => .error e
    | .ok quotient =>
      match checkedAdd y quotient with
      | .error e => .error e
      | .ok sum =>
        match checkedDiv sum 2 with
        | .error e => .error e
        | .ok next => isqrtLoop n y next
  else if y < x then .error .trap
  else .ok x
termination_by x.toNat
decreasing_by omega

/-- Integer square root by the Babylonian method. -/
def isqrt (n : ℤ) : Res ℤ := do
  refuse (n < 0) (.error .invalidAmount)
  if n < 2 then
    return n
  let first ← checkedAdd n 1
  let y ← checkedDiv first 2
  isqrtLoop n n y

/-- Collateral returned for outcome tokens: the smaller root of
`c * c - c * (O + S + P) + S * P = 0`. -/
def quoteSell (outcomeReserve oppositeReserve amountIn : ℤ) : Res ℤ := do
  refuse (outcomeReserve ≤ 0 ∨ oppositeReserve ≤ 0 ∨ amountIn ≤ 0) (.error .invalidAmount)
  let held ← checkedAdd outcomeReserve amountIn
  let sum ← checkedAdd held oppositeReserve
  let sumSq ← checkedMul sum sum
  let sp ← checkedMul amountIn oppositeReserve
  let fourSp ← checkedMul 4 sp
  let discriminant ← checkedSub sumSq fourSp
  refuse (discriminant < 0) (.error .arithmeticError)
  let sqrtDisc ← isqrt discriminant
  let difference ← checkedSub sum sqrtDisc
  checkedDiv difference 2

example : quoteSell 1000000000 1000000000 10000000 = .ok 4987500 := by decide +kernel

/-- Refund of a cancelled or invalid position. -/
def invalidRefund (amount : ℤ) : Res ℤ := checkedDiv amount 2

/-- Price in basis points, which must fit 32 bits. -/
def averagePriceBps (amountIn amountOut : ℤ) : Res ℤ := do
  refuse (amountIn ≤ 0 ∨ amountOut ≤ 0) (.error .invalidAmount)
  let scaled ← checkedMul amountIn bpsDenominator
  let price ← checkedDiv scaled amountOut
  refuse (price > u32Max) (.error .arithmeticError)
  return price

end DikeProtocol
