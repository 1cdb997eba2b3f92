import DikeProtocol.Amm.Roots
import DikeProtocol.Amm.Writes
import DikeProtocol.Deployment
import Mathlib.Tactic.LinearCombination

/-!
# What trades cost

A purchase leaves the floor of the exact reserve in the pool, so rounding is
against the pool; a sale rounds the exact payout either way. From the two
quotes in closed form follow when a purchase sold back at once profits, when a
token costs more than a unit of collateral, and when a trade keeps the
constant product.
-/

namespace DikeProtocol

open Lib

/-- What a purchase leaves of the reserve it takes from. -/
def reserveLeft (reserve opposite netIn : ℤ) : ℤ := reserve * opposite / (opposite + netIn)

/-- What a purchase returns beyond one token for each unit, rounded up. -/
def purchaseGain (reserve opposite netIn : ℤ) : ℤ := -(-(reserve * netIn) / (opposite + netIn))

section Quotes

variable {reserve opposite netIn out back : ℤ}

/-- A purchase is quoted exactly when the amounts are positive and its sums and
its product fit, and then at the minted sets and the reserve less what is left. -/
theorem quoteBuyCompleteSet_ok : quoteBuyCompleteSet reserve opposite netIn = .ok out ↔
    0 < reserve ∧ 0 < opposite ∧ 0 < netIn ∧ reserve * opposite ≤ i128Max ∧
      opposite + netIn ≤ i128Max ∧ reserve + netIn ≤ i128Max ∧
      out = reserve + netIn - reserveLeft reserve opposite netIn := by
  unfold quoteBuyCompleteSet
  constructor
  · intro h
    obtain ⟨_, hpos, h⟩ := bind_ok.mp h
    obtain ⟨k, hk, h⟩ := bind_ok.mp h
    obtain ⟨newOpposite, hopposite, h⟩ := bind_ok.mp h
    obtain ⟨newOutcome, houtcome, h⟩ := bind_ok.mp h
    obtain ⟨minted, hminted, h⟩ := bind_ok.mp h
    have hpos' := refuse_ok.mp hpos
    have hr : 0 < reserve := by omega
    have ho : 0 < opposite := by omega
    obtain ⟨rfl, hkFits⟩ := checkedMul_ok.mp hk
    obtain ⟨rfl, hoppositeFits⟩ := checkedAdd_ok.mp hopposite
    obtain ⟨rfl, hmintedFits⟩ := checkedAdd_ok.mp hminted
    have hleft := (checkedDiv_ok.mp houtcome).2.1
    rw [Int.tdiv_eq_ediv_of_nonneg (mul_pos hr ho).le] at hleft
    refine ⟨hr, ho, by omega, hkFits.2, hoppositeFits.2, hmintedFits.2, ?_⟩
    rw [(checkedSub_ok.mp h).1, hleft]
    rfl
  · rintro ⟨hr, ho, hin, hk, hopposite, hminted, rfl⟩
    have hproduct := mul_pos hr ho
    have hleft : 0 ≤ reserve * opposite / (opposite + netIn) :=
      Int.ediv_nonneg hproduct.le (by omega)
    have hleftLe : reserve * opposite / (opposite + netIn) ≤ reserve := by
      apply Int.ediv_le_of_le_mul (by omega)
      exact mul_le_mul_of_nonneg_left (by omega) hr.le
    have hrange : ∀ x : ℤ, 0 ≤ x → x ≤ i128Max → InRange x := by
      intro x hx hmax
      exact ⟨by unfold i128Min; omega, hmax⟩
    refine bind_ok.mpr ⟨(), refuse_ok.mpr (by omega), ?_⟩
    refine bind_ok.mpr ⟨_, checkedMul_ok.mpr ⟨rfl, hrange _ hproduct.le hk⟩, ?_⟩
    refine bind_ok.mpr ⟨_, checkedAdd_ok.mpr ⟨rfl, hrange _ (by omega) hopposite⟩, ?_⟩
    refine bind_ok.mpr ⟨_, checkedDiv_ok.mpr ⟨by omega, rfl, ?_⟩, ?_⟩
    · rw [Int.tdiv_eq_ediv_of_nonneg hproduct.le]
      exact hrange _ hleft (by omega)
    refine bind_ok.mpr ⟨_, checkedAdd_ok.mpr ⟨rfl, hrange _ (by omega) hminted⟩, ?_⟩
    rw [Int.tdiv_eq_ediv_of_nonneg hproduct.le]
    exact checkedSub_ok.mpr ⟨rfl, hrange _ (by omega) (by omega)⟩

/-- A purchase returns its net amount and the gain. -/
theorem reserveLeft_eq (ho : 0 < opposite) (hin : 0 < netIn) :
    reserveLeft reserve opposite netIn = reserve - purchaseGain reserve opposite netIn := by
  unfold reserveLeft purchaseGain
  have hsplit : reserve * opposite = -(reserve * netIn) + reserve * (opposite + netIn) := by ring
  rw [hsplit, Int.add_mul_ediv_right _ _ (by omega)]
  omega

/-- Bought tokens that are sold back at once bring no profit exactly when the
remainder that the purchase dropped is less than half the reserves. -/
theorem roundTrip_iff (hbuy : quoteBuyCompleteSet reserve opposite netIn = .ok out)
    (hsell : quoteSell (reserve + netIn - out) (opposite + netIn) out = .ok back) :
    back ≤ netIn ↔ 2 * (reserve * opposite % (opposite + netIn)) < reserve + opposite := by
  obtain ⟨hr, ho, hin, _, _, _, hout⟩ := quoteBuyCompleteSet_ok.mp hbuy
  obtain ⟨_, _, _, _, hback⟩ := quoteSell_ok.mp hsell
  have hsum : reserve + netIn - out + out + (opposite + netIn) =
      reserve + opposite + 2 * netIn := by ring
  have hdivmod := Int.mul_ediv_add_emod (reserve * opposite) (opposite + netIn)
  have hmod := Int.emod_nonneg (reserve * opposite) (show opposite + netIn ≠ 0 by omega)
  generalize hrest : reserve * opposite % (opposite + netIn) = rest at hdivmod hmod ⊢
  -- the discriminant of the sale falls short of a square by the remainder
  have hdisc : (reserve + opposite + 2 * netIn) * (reserve + opposite + 2 * netIn) -
      4 * (out * (opposite + netIn)) =
      (reserve + opposite) * (reserve + opposite) - 4 * rest := by
    rw [hout, reserveLeft]
    linear_combination 4 * hdivmod
  have hgap := lowerRoot_gap (reserve + opposite + 2 * netIn) (out * (opposite + netIn))
  rw [hback, saleRoot, hsum]
  rw [hdisc] at hgap
  have hnext := lt_succ_sqrt ((reserve + opposite) * (reserve + opposite) - 4 * rest)
  have hnonneg := Int.sqrt_nonneg ((reserve + opposite) * (reserve + opposite) - 4 * rest)
  have hparity := Int.emod_two_eq_zero_or_one (reserve + opposite + 2 * netIn -
    Int.sqrt ((reserve + opposite) * (reserve + opposite) - 4 * rest))
  constructor
  · intro hle
    by_contra hmore
    -- a remainder of half the reserves or more pulls the root below the sum by two
    have hsmall : Int.sqrt ((reserve + opposite) * (reserve + opposite) - 4 * rest) <
        reserve + opposite - 1 := by
      by_contra hbig
      have hdiscNonneg : 0 ≤ (reserve + opposite) * (reserve + opposite) - 4 * rest := by
        by_contra hneg
        have hzero : Int.sqrt ((reserve + opposite) * (reserve + opposite) - 4 * rest) = 0 := by
          unfold Int.sqrt
          rw [Int.toNat_of_nonpos (by omega)]
          rfl
        omega
      have hfits := sqrt_mul_self_le hdiscNonneg
      have hsquare := mul_self_le_mul_self (show 0 ≤ reserve + opposite - 1 by omega)
        (not_lt.mp hbig)
      linarith
    omega
  · intro hless
    have hbig : reserve + opposite - 1 ≤
        Int.sqrt ((reserve + opposite) * (reserve + opposite) - 4 * rest) := by
      apply le_sqrt
      linarith
    omega

/-- Eight units spent on a pool of five each buy twelve tokens, which sell for nine. -/
theorem roundTrip_sample : quoteBuyCompleteSet 5 5 8 = .ok 12 ∧
    quoteSell (5 + 8 - 12) (5 + 8) 12 = .ok 9 ∧
    ((9 : ℤ) ≤ 8 ↔ 2 * ((5 : ℤ) * 5 % (5 + 8)) < 5 + 5) := by
  have hbuy : quoteBuyCompleteSet 5 5 8 = .ok 12 := by decide +kernel
  have hsell : quoteSell (5 + 8 - 12) (5 + 8) 12 = .ok 9 := by decide +kernel
  exact ⟨hbuy, hsell, roundTrip_iff hbuy hsell⟩

/-- Buying and selling back at once can bring a profit. -/
theorem not_always_roundTrip : ¬∀ reserve opposite netIn out back : ℤ, 0 < reserve →
    0 < opposite → quoteBuyCompleteSet reserve opposite netIn = .ok out →
    quoteSell (reserve + netIn - out) (opposite + netIn) out = .ok back → back ≤ netIn := by
  intro hall
  exact absurd (hall 5 5 8 12 9 (by decide) (by decide) (by decide +kernel) (by decide +kernel))
    (by decide)

/-- A price in basis points is at most a value exactly when the scaled amount stays below the
next one. -/
theorem averagePriceBps_le_iff {amountIn amountOut price bound : ℤ}
    (h : averagePriceBps amountIn amountOut = .ok price) :
    price ≤ bound ↔ amountIn * bpsDenominator < (bound + 1) * amountOut := by
  unfold averagePriceBps at h
  obtain ⟨_, hpos, h⟩ := bind_ok.mp h
  obtain ⟨scaled, hscaled, h⟩ := bind_ok.mp h
  obtain ⟨price', hprice, h⟩ := bind_ok.mp h
  obtain ⟨_, _, h⟩ := bind_ok.mp h
  obtain rfl := pure_ok.mp h
  have hpos' := refuse_ok.mp hpos
  have hscale : 0 ≤ amountIn * bpsDenominator := mul_nonneg (by omega) (by decide)
  rw [(checkedDiv_ok.mp hprice).2.1, (checkedMul_ok.mp hscaled).1,
    Int.tdiv_eq_ediv_of_nonneg hscale, ← Int.lt_add_one_iff, Int.ediv_lt_iff_lt_mul (by omega)]

end Quotes

namespace Amm

/-- A quote by which a token costs, or brings, at most one unit of collateral. -/
structure WithinUnit (price collateral tokens : ℤ) : Prop where
  price : price ≤ bpsDenominator
  amounts : collateral ≤ tokens

/-- The fee of a purchase is at most what the purchase returns beyond its net amount. -/
def FeeCovered (pool : PoolData) (yes : Bool) (amountIn : ℤ) (feeBps : ℕ) : Prop :=
  bpsOf amountIn feeBps ≤ purchaseGain (reserveOf pool yes) (reserveOf pool !yes)
    (amountIn - bpsOf amountIn feeBps)

section Unit

variable {a : AmmState} {poolId : ℕ} {pool : PoolData} {amountIn : ℤ} {yes : Bool}

/-- The closed form of a pool's quote of a purchase. -/
theorem quoteBuyOf_ok {netIn out : ℤ} : quoteBuyOf pool yes netIn = .ok out ↔
    quoteBuyCompleteSet (reserveOf pool yes) (reserveOf pool !yes) netIn = .ok out := by
  cases yes <;> rfl

/-- The closed form of a pool's quote of a sale. -/
theorem quoteSellOf_ok {gross : ℤ} : quoteSellOf pool yes amountIn = .ok gross ↔
    quoteSell (reserveOf pool yes) (reserveOf pool !yes) amountIn = .ok gross := by
  cases yes <;> rfl

/-- A price is within a unit exactly when the amounts are. -/
theorem withinUnit_iff {price collateral tokens : ℤ}
    (h : averagePriceBps collateral tokens = .ok price) :
    WithinUnit price collateral tokens ↔ collateral ≤ tokens := by
  refine ⟨fun hk => hk.amounts, fun hle => ⟨?_, hle⟩⟩
  rw [averagePriceBps_le_iff h]
  unfold averagePriceBps at h
  obtain ⟨_, hpos, _⟩ := bind_ok.mp h
  have hpos' := refuse_ok.mp hpos
  unfold bpsDenominator
  omega

/-- What a purchase is quoted: a token costs at most a unit exactly when the
gain of the purchase covers its fee. -/
theorem quoteBuySide_withinUnit_iff (hpool : a.pool poolId = some pool) {q : TradeQuote}
    (h : quoteBuySide a poolId amountIn yes = .ok q) :
    WithinUnit q.averagePriceBps q.amountIn q.amountOut ↔
      FeeCovered pool yes amountIn (a.poolFee poolId).tradingFeeBps := by
  unfold quoteBuySide at h
  obtain ⟨_, _, h⟩ := bind_ok.mp h
  obtain ⟨pool', hread, h⟩ := bind_ok.mp h
  obtain ⟨⟨fee, netIn⟩, hsplit, h⟩ := bind_ok.mp h
  obtain ⟨out, hquote, h⟩ := bind_ok.mp h
  obtain ⟨price, hprice, h⟩ := bind_ok.mp h
  obtain rfl := pure_ok.mp h
  have hread' := orFault_ok.mp hread
  rw [hpool] at hread'
  obtain rfl := Option.some.inj hread'
  obtain ⟨hfee, hwhole⟩ := splitFee_ok hsplit
  obtain ⟨_, ho, hin, _, _, _, hout⟩ := quoteBuyCompleteSet_ok.mp (quoteBuyOf_ok.mp hquote)
  rw [reserveLeft_eq ho hin] at hout
  dsimp only
  rw [withinUnit_iff hprice]
  unfold FeeCovered
  rw [← hfee, show amountIn - fee = netIn by omega]
  constructor <;> intro hle <;> omega

/-- What a sale is quoted: a token brings at most a unit. -/
theorem quoteSellSide_withinUnit {q : TradeQuote}
    (h : quoteSellSide a poolId amountIn yes = .ok q) :
    WithinUnit q.averagePriceBps q.amountOut q.amountIn := by
  unfold quoteSellSide at h
  obtain ⟨_, _, h⟩ := bind_ok.mp h
  obtain ⟨pool, _, h⟩ := bind_ok.mp h
  obtain ⟨gross, hquote, h⟩ := bind_ok.mp h
  obtain ⟨⟨fee, netOut⟩, hsplit, h⟩ := bind_ok.mp h
  obtain ⟨price, hprice, h⟩ := bind_ok.mp h
  obtain rfl := pure_ok.mp h
  obtain ⟨hfee, hwhole⟩ := splitFee_ok hsplit
  have hle := (quoteSellOf_le hquote).1
  dsimp only
  rw [withinUnit_iff hprice]
  obtain ⟨hr, ho, hin, _, hgross⟩ := quoteSell_ok.mp (quoteSellOf_ok.mp hquote)
  have hnonneg := saleRoot_nonneg hr ho hin
  have hcut : 0 ≤ fee := by
    rw [hfee, hgross]
    exact bpsOf_nonneg hnonneg _
  omega

/-- No quote of a token exceeds a unit of collateral, where for purchases that holds exactly when
the gain of the purchase covers its fee. -/
theorem quotes_withinUnit_iff (hpool : a.pool poolId = some pool) :
    (∀ q, quoteBuySide a poolId amountIn yes = .ok q →
      (WithinUnit q.averagePriceBps q.amountIn q.amountOut ↔
        FeeCovered pool yes amountIn (a.poolFee poolId).tradingFeeBps)) ∧
    ∀ q, quoteSellSide a poolId amountIn yes = .ok q →
      WithinUnit q.averagePriceBps q.amountOut q.amountIn :=
  ⟨fun _ h => quoteBuySide_withinUnit_iff hpool h, fun _ h => quoteSellSide_withinUnit h⟩

end Unit

/-- A pool whose first outcome is almost bought out. -/
def skewedPool : PoolData := { freshPool 1 1 with yesReserve := 10, noReserve := 10000 }

/-- A market maker that holds the skewed pool at the default fee. -/
def skewedAmm : AmmState :=
  { (deploy sampleLaunch).amm with pool := Store.empty.set 1 (some skewedPool) }

/-- A small purchase in the skewed pool pays no fee, one of a thousand units pays twenty. -/
theorem quotes_withinUnit_sample : skewedAmm.pool 1 = some skewedPool ∧
    (∀ q, quoteBuySide skewedAmm 1 1000 true = .ok q →
      (WithinUnit q.averagePriceBps q.amountIn q.amountOut ↔
        FeeCovered skewedPool true 1000 (skewedAmm.poolFee 1).tradingFeeBps)) ∧
    ∀ q, quoteSellSide skewedAmm 1 1000 true = .ok q →
      WithinUnit q.averagePriceBps q.amountOut q.amountIn :=
  ⟨rfl, quotes_withinUnit_iff rfl⟩

/-- A thousand units spent on the skewed pool buy 981 tokens, at a price above one. -/
theorem not_always_withinUnit : ¬∀ (a : AmmState) (poolId : ℕ) (pool : PoolData) (amountIn : ℤ)
    (yes : Bool) (q : TradeQuote), a.pool poolId = some pool → 0 < pool.yesReserve →
    0 < pool.noReserve → validateFeeConfig (a.poolFee poolId) = .ok () →
    quoteBuySide a poolId amountIn yes = .ok q →
    WithinUnit q.averagePriceBps q.amountIn q.amountOut := by
  intro hall
  have hquote : quoteBuySide skewedAmm 1 1000 true = .ok {
      amountIn := 1000, fee := 20, netIn := 980
      amountOut := 981, averagePriceBps := 10193 } := by
    decide +kernel
  have hprice := (hall skewedAmm 1 skewedPool 1000 true _ rfl (by decide) (by decide)
    (by decide +kernel) hquote).price
  exact absurd hprice (by decide)

end Amm

end DikeProtocol
