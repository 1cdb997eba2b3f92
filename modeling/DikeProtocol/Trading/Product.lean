import DikeProtocol.Amm.Pricing
import DikeProtocol.Trading.Positions

/-!
# The constant product of a pool

What a trade leaves of the product of the reserves. A purchase keeps it only
when it divides the product exactly, and a sale exactly when its rounded root
does not pass the exact one; otherwise the pool loses, and a purchase may even
empty one side.
-/

namespace DikeProtocol.Trading

open Lib Amm

/-- The product of the reserves. -/
def reserveProduct (pool : PoolData) : ℤ := pool.yesReserve * pool.noReserve

/-- The product by the outcome a trade is about. -/
theorem reserveProduct_eq (pool : PoolData) (yes : Bool) :
    reserveProduct pool = reserveOf pool yes * reserveOf pool !yes := by
  cases yes with
  | true => rfl
  | false => exact mul_comm _ _

/-- A pool after a trade that did not lower the product: both reserves are positive and no quote
of a positive amount is refused as invalid. -/
structure KeepsProduct (pool pool' : PoolData) : Prop where
  product : reserveProduct pool ≤ reserveProduct pool'
  reserves : ∀ yes, 0 < reserveOf pool' yes
  quotes : ∀ yes amount, 0 < amount →
    quoteBuyOf pool' yes amount ≠ .error (.error .invalidAmount) ∧
      quoteSellOf pool' yes amount ≠ .error (.error .invalidAmount)

section Quotes

variable {reserve opposite amount : ℤ}

/-- A checked value is never refused as invalid. -/
theorem checked_valid (x : ℤ) : Avoids (.error .invalidAmount) (checked x) := by
  intro h
  cases checked_error h

/-- A division by a positive number is never refused as invalid. -/
theorem checkedDiv_valid {x y : ℤ} (hy : 0 < y) :
    Avoids (.error .invalidAmount) (checkedDiv x y) := by
  unfold checkedDiv
  rw [avoids_bind]
  exact ⟨fun h => hy.ne' (refuse_error.mp h).1, fun _ _ => checked_valid _⟩

/-- A purchase of a positive amount at positive reserves is never refused as invalid. -/
theorem quoteBuyCompleteSet_valid (hr : 0 < reserve) (ho : 0 < opposite) (hx : 0 < amount) :
    Avoids (.error .invalidAmount) (quoteBuyCompleteSet reserve opposite amount) := by
  unfold quoteBuyCompleteSet
  simp only [avoids_bind]
  refine ⟨fun h => ?_, fun _ _ => ⟨checked_valid _, fun k _ => ⟨checked_valid _, fun sum hsum =>
    ⟨checkedDiv_valid ?_, fun _ _ => ⟨checked_valid _, fun _ _ => checked_valid _⟩⟩⟩⟩⟩
  · have hrefused := (refuse_error.mp h).1
    omega
  · rw [(checkedAdd_ok.mp hsum).1]
    omega

/-- Nor is a sale: it is quoted, or the square of the sum overflows. -/
theorem quoteSell_valid (hr : 0 < reserve) (ho : 0 < opposite) (hx : 0 < amount) :
    Avoids (.error .invalidAmount) (quoteSell reserve opposite amount) := by
  by_cases hfits : (reserve + amount + opposite) * (reserve + amount + opposite) ≤ i128Max
  · rw [quoteSell_ok.mpr ⟨hr, ho, hx, hfits, rfl⟩]
    exact avoids_ok _
  · unfold quoteSell
    simp only [avoids_bind]
    refine ⟨fun h => ?_, fun _ _ => ⟨checked_valid _, fun held hheld => ⟨checked_valid _,
      fun sum hsum => ⟨checked_valid _, fun sumSq hsumSq => absurd ?_ hfits⟩⟩⟩⟩
    · have hrefused := (refuse_error.mp h).1
      omega
    · have hrange := (checkedMul_ok.mp hsumSq).2.2
      rw [(checkedAdd_ok.mp hsum).1, (checkedAdd_ok.mp hheld).1] at hrange
      exact hrange

/-- Positive reserves whose product did not fall keep the product. -/
theorem keepsProduct_iff_le {pool pool' : PoolData} (hr : 0 < pool.yesReserve)
    (ho : 0 < pool.noReserve) (hyes : 0 ≤ pool'.yesReserve) (hno : 0 ≤ pool'.noReserve) :
    KeepsProduct pool pool' ↔ reserveProduct pool ≤ reserveProduct pool' := by
  refine ⟨fun h => h.product, fun hle => ?_⟩
  have hpos : 0 < reserveProduct pool' := (mul_pos hr ho).trans_le hle
  have hyes' : 0 < pool'.yesReserve := pos_of_mul_pos_left hpos hno
  have hno' : 0 < pool'.noReserve := pos_of_mul_pos_right hpos hyes
  have hreserves : ∀ yes, 0 < reserveOf pool' yes := by
    intro yes
    cases yes with
    | true => exact hyes'
    | false => exact hno'
  refine ⟨hle, hreserves, fun yes amount hx => ⟨fun hbuy => ?_, fun hsell => ?_⟩⟩
  · cases yes with
    | true => exact quoteBuyCompleteSet_valid hyes' hno' hx hbuy
    | false => exact quoteBuyCompleteSet_valid hno' hyes' hx hbuy
  · cases yes with
    | true => exact quoteSell_valid hyes' hno' hx hsell
    | false => exact quoteSell_valid hno' hyes' hx hsell

end Quotes

/-- A trade with a pool: a purchase for collateral, or a sale of tokens. -/
inductive PoolTrade where
  | buy (yes : Bool) (amountIn : ℤ)
  | sell (yes : Bool) (amountIn : ℤ)

/-- The trade is exact, or its rounding favours the pool: the net amount of a purchase divides the
product, and a sale's discriminant is a square or its root and the sum differ in parity. -/
def RoundsForPool (pool : PoolData) (feeBps : ℕ) : PoolTrade → Prop
  | .buy yes amountIn =>
    reserveOf pool (!yes) + (amountIn - bpsOf amountIn feeBps) ∣ reserveProduct pool
  | .sell yes amountIn =>
    let sum := reserveOf pool yes + amountIn + reserveOf pool !yes
    let disc := sum * sum - 4 * (amountIn * reserveOf pool !yes)
    IsSquare disc ∨ Odd (sum + Int.sqrt disc)

/-- The trades the market maker accepts from a pool, and the world they leave;
a forced sale is of all a user holds. -/
inductive Accepted (w : World) (pool : PoolData) : PoolTrade → World → Prop
  | buy {ctx : Ctx} {trader : Address} {amountIn minOut out : ℤ} {deadline : ℕ} {yes : Bool}
      {parent : Option (MarketId × Outcome)} {w' : World}
      (h : Amm.buy ctx w trader pool.id amountIn minOut deadline yes parent = .ok (out, w')) :
      Accepted w pool (.buy yes amountIn) w'
  | sell {ctx : Ctx} {trader : Address} {amountIn minOut netOut : ℤ} {deadline : ℕ} {yes : Bool}
      {w' : World}
      (h : Amm.sell ctx w trader pool.id amountIn minOut deadline yes = .ok (netOut, w')) :
      Accepted w pool (.sell yes amountIn) w'
  | forceSell {ctx : Ctx} {user : Address} {sold netOut : ℤ} {yes : Bool} {w' : World}
      (h : Amm.forceSell ctx w pool.id user yes = .ok (sold, netOut, w')) :
      Accepted w pool (.sell yes (w.tokens.balance (pool.marketId, user, outcomeOf yes))) w'

/-- What an accepted trade stores: the reserves its quote leaves. -/
inductive Stores (pool : PoolData) (feeBps : ℕ) (pool' : PoolData) : PoolTrade → Prop
  | buy {yes : Bool} {amountIn out : ℤ}
      (hquote : quoteBuyOf pool yes (amountIn - bpsOf amountIn feeBps) = .ok out)
      (hreserves : ∀ o, reserveOf pool' o =
        reserveOf pool o + (amountIn - bpsOf amountIn feeBps) - if o = yes then out else 0) :
      Stores pool feeBps pool' (.buy yes amountIn)
  | sell {yes : Bool} {amountIn gross : ℤ} (hquote : quoteSellOf pool yes amountIn = .ok gross)
      (hreserves : ∀ o, reserveOf pool' o =
        reserveOf pool o - gross + if o = yes then amountIn else 0) :
      Stores pool feeBps pool' (.sell yes amountIn)

/-- An accepted trade stores the pool its quote leaves. -/
theorem Accepted.stores {w w' : World} {pool : PoolData} {trade : PoolTrade}
    (hpool : w.amm.pool pool.id = some pool) (h : Accepted w pool trade w') :
    ∃ pool', w'.amm.pool pool.id = some pool' ∧
      Stores pool (w.amm.poolFee pool.id).tradingFeeBps pool' trade := by
  have hstored : ∀ {a : AmmState} {pool' : PoolData}, pool'.id = pool.id →
      (writePool a pool').pool pool.id = some pool' := by
    intro a pool' hsame
    unfold writePool
    dsimp only
    rw [hsame, Store.set_get_self]
  cases h with
  | @buy _ _ amountIn _ _ _ _ _ _ h =>
    obtain ⟨pool1, m, fee, netIn, fees, pool2, pool', w1, w2, w3, w4, _, hpool1, hsplit, hquote, _,
      _, hfees, _, hbought, _, rfl⟩ := buy_writes h
    rw [hpool] at hpool1
    obtain rfl := Option.some.inj hpool1
    obtain ⟨htraded, hreserves⟩ := bought_traded hfees hbought
    obtain ⟨hfee, hwhole⟩ := splitFee_ok hsplit
    obtain rfl : netIn = amountIn - bpsOf amountIn (w.amm.poolFee pool.id).tradingFeeBps := by
      rw [← hfee]
      exact eq_sub_of_add_eq' hwhole
    exact ⟨pool', hstored htraded.id, .buy hquote hreserves⟩
  | sell h =>
    obtain ⟨pool1, m, fee, gross, fees, pool2, pool', w1, w2, w3, w4, _, hpool1, hquote, _, hfees,
      _, _, _, _, hsold, rfl⟩ := sell_writes h
    rw [hpool] at hpool1
    obtain rfl := Option.some.inj hpool1
    obtain ⟨htraded, hreserves⟩ := sold_traded hfees hsold
    exact ⟨pool', hstored htraded.id, .sell hquote hreserves⟩
  | forceSell h =>
    obtain ⟨pool1, m, fee, gross, fees, pool2, pool', t, w2, w3, hpool1, hheld, _, hquote, _, hfees,
      _, _, _, hsold, rfl⟩ := forceSell_writes h
    rw [hpool] at hpool1
    obtain rfl := Option.some.inj hpool1
    rw [hheld] at hquote hsold
    obtain ⟨htraded, hreserves⟩ := sold_traded hfees hsold
    exact ⟨pool', hstored htraded.id, .sell hquote hreserves⟩

section Trades

variable {pool pool' : PoolData} {feeBps : ℕ} {trade : PoolTrade}

/-- Reserves by outcome decide both sides. -/
theorem reserves_nonneg (pool : PoolData) (yes : Bool) (h : 0 ≤ reserveOf pool yes)
    (h' : 0 ≤ reserveOf pool !yes) : 0 ≤ pool.yesReserve ∧ 0 ≤ pool.noReserve := by
  cases yes with
  | true => exact ⟨h, h'⟩
  | false => exact ⟨h', h⟩

/-- What a stored purchase leaves of the two reserves. -/
theorem Stores.bought {yes : Bool} {amountIn : ℤ}
    (h : Stores pool feeBps pool' (.buy yes amountIn)) :
    0 < amountIn - bpsOf amountIn feeBps ∧
      reserveOf pool' yes =
        reserveProduct pool / (reserveOf pool (!yes) + (amountIn - bpsOf amountIn feeBps)) ∧
      reserveOf pool' (!yes) = reserveOf pool (!yes) + (amountIn - bpsOf amountIn feeBps) := by
  cases h with
  | @buy _ _ out hquote hreserves =>
    obtain ⟨_, _, hin, _, _, _, hout⟩ := quoteBuyCompleteSet_ok.mp (quoteBuyOf_ok.mp hquote)
    refine ⟨hin, ?_, ?_⟩
    · rw [hreserves, if_pos rfl, hout, reserveProduct_eq pool yes]
      unfold reserveLeft
      ring
    · rw [hreserves, if_neg (Bool.not_ne_self yes), sub_zero]

/-- What a stored sale leaves of the two reserves. -/
theorem Stores.sold {yes : Bool} {amountIn : ℤ}
    (h : Stores pool feeBps pool' (.sell yes amountIn)) : 0 < amountIn ∧ ∃ gross,
      gross = saleRoot (reserveOf pool yes) (reserveOf pool !yes) amountIn ∧
      (0 ≤ gross ∧ gross ≤ amountIn ∧ gross ≤ reserveOf pool !yes) ∧
      reserveOf pool' yes = reserveOf pool yes - gross + amountIn ∧
      reserveOf pool' (!yes) = reserveOf pool (!yes) - gross := by
  cases h with
  | @sell _ _ gross hquote hreserves =>
    obtain ⟨hpos, hopposite, hin, _, hgross⟩ := quoteSell_ok.mp (quoteSellOf_ok.mp hquote)
    have hnonneg : 0 ≤ gross := by
      rw [hgross]
      exact saleRoot_nonneg hpos hopposite hin
    refine ⟨hin, gross, hgross, ⟨hnonneg, quoteSellOf_le hquote⟩, ?_, ?_⟩
    · rw [hreserves, if_pos rfl]
    · rw [hreserves, if_neg (Bool.not_ne_self yes), add_zero]

/-- A reserve is positive when both are. -/
theorem reserveOf_pos (hr : 0 < pool.yesReserve) (ho : 0 < pool.noReserve) (yes : Bool) :
    0 < reserveOf pool yes := by
  cases yes with
  | true => exact hr
  | false => exact ho

/-- A stored trade keeps the product exactly when its rounding does not cost the pool. -/
theorem Stores.keepsProduct_iff (hr : 0 < pool.yesReserve) (ho : 0 < pool.noReserve)
    (h : Stores pool feeBps pool' trade) :
    KeepsProduct pool pool' ↔ RoundsForPool pool feeBps trade := by
  cases trade with
  | buy yes amountIn =>
    obtain ⟨hin, hbought, hminted⟩ := h.bought
    have hopposite := reserveOf_pos hr ho !yes
    have hproduct : 0 ≤ reserveProduct pool := (mul_pos hr ho).le
    have hsides := reserves_nonneg pool' yes
      (by rw [hbought]; exact Int.ediv_nonneg hproduct (by omega)) (by omega)
    rw [keepsProduct_iff_le hr ho hsides.1 hsides.2, reserveProduct_eq pool' yes, hbought, hminted]
    unfold RoundsForPool
    dsimp only
    constructor
    · intro hle
      have hfits := Int.ediv_mul_le (reserveProduct pool)
        (show reserveOf pool (!yes) + (amountIn - bpsOf amountIn feeBps) ≠ 0 by omega)
      exact ⟨_, (le_antisymm hle hfits).trans (mul_comm _ _)⟩
    · intro hdvd
      exact (Int.ediv_mul_cancel hdvd).ge
  | sell yes amountIn =>
    obtain ⟨hin, gross, hgross, hle, hsold, hmerged⟩ := h.sold
    have hpos := reserveOf_pos hr ho yes
    have hopposite := reserveOf_pos hr ho !yes
    have hsides := reserves_nonneg pool' yes (by omega) (by omega)
    rw [keepsProduct_iff_le hr ho hsides.1 hsides.2, reserveProduct_eq pool' yes, hsold, hmerged,
      reserveProduct_eq pool yes]
    unfold RoundsForPool
    dsimp only
    rw [← lowerRoot_below_iff (sale_discriminant_pos hpos hopposite amountIn).le]
    have hroot : lowerRoot (reserveOf pool yes + amountIn + reserveOf pool !yes)
        (amountIn * reserveOf pool !yes) = gross := hgross.symm
    rw [hroot]
    constructor <;> intro hk <;> linarith

end Trades

/-- An accepted trade keeps the product of a pool of positive reserves exactly when its rounding
does not cost the pool. -/
theorem accepted_keepsProduct_iff {w w' : World} {pool : PoolData} {trade : PoolTrade}
    (hpool : w.amm.pool pool.id = some pool) (hr : 0 < pool.yesReserve) (ho : 0 < pool.noReserve)
    (h : Accepted w pool trade w') :
    (∃ pool', w'.amm.pool pool.id = some pool' ∧ KeepsProduct pool pool') ↔
      RoundsForPool pool (w.amm.poolFee pool.id).tradingFeeBps trade := by
  obtain ⟨pool', hpool', hstores⟩ := h.stores hpool
  rw [← hstores.keepsProduct_iff hr ho]
  constructor
  · rintro ⟨pool'', hpool'', hkeeps⟩
    rw [hpool'] at hpool''
    obtain rfl := Option.some.inj hpool''
    exact hkeeps
  · exact fun hkeeps => ⟨pool', hpool', hkeeps⟩

/-- Alice's purchase of 1000 in the pool seeded with 10000 on each side is accepted. -/
theorem alice_buys_accepted : ∃ (w w' : World) (pool : PoolData),
    tradingSystem.runs (deploy sampleLaunch) (openMarket 1 10000) = .ok w ∧
      w.amm.pool 1 = some pool ∧ pool.id = 1 ∧ 0 < pool.yesReserve ∧ 0 < pool.noReserve ∧
      Accepted w pool (.buy true 1000) w' := by
  obtain ⟨w, hw, hlast⟩ := System.runs_of_decide (S := tradingSystem) (deploy sampleLaunch)
    (openMarket 1 10000)
    (fun w => (w.amm.pool 1).any (fun (pool : PoolData) =>
        decide (pool.id = 1 ∧ 0 < pool.yesReserve ∧ 0 < pool.noReserve)) &&
      okWith (Amm.buy (bySigner alice) w alice 1 1000 0 1 true none) (fun _ => true))
    (by decide +kernel)
  rw [Bool.and_eq_true, Option.any_eq_true, okWith_iff] at hlast
  obtain ⟨⟨pool, hpool, hdata⟩, ⟨out, w'⟩, hbuy, _⟩ := hlast
  obtain ⟨hid, hr, ho⟩ := of_decide_eq_true hdata
  rw [← hid] at hbuy
  exact ⟨w, w', pool, hw, hpool, hid, hr, ho, .buy hbuy⟩

/-- That purchase is inexact. -/
theorem accepted_keepsProduct_sample : ∃ (w w' : World) (pool : PoolData),
    tradingSystem.runs (deploy sampleLaunch) (openMarket 1 10000) = .ok w ∧
      w.amm.pool 1 = some pool ∧ Accepted w pool (.buy true 1000) w' ∧
      ((∃ pool', w'.amm.pool pool.id = some pool' ∧ KeepsProduct pool pool') ↔
        RoundsForPool pool (w.amm.poolFee pool.id).tradingFeeBps (.buy true 1000)) := by
  obtain ⟨w, w', pool, hw, hpool, hid, hr, ho, haccepted⟩ := alice_buys_accepted
  refine ⟨w, w', pool, hw, hpool, haccepted, ?_⟩
  exact accepted_keepsProduct_iff (by rw [hid]; exact hpool) hr ho haccepted

/-- A purchase of 1000 empties one side of the pool seeded with one unit, and then no purchase
of anything is quoted. -/
theorem not_always_keepsProduct : ¬∀ (w w' : World) (pool pool' : PoolData) (trade : PoolTrade),
    tradingSystem.Reachable w → w.amm.pool pool.id = some pool → 0 < pool.yesReserve →
    0 < pool.noReserve → Accepted w pool trade w' → w'.amm.pool pool.id = some pool' →
    KeepsProduct pool pool' := by
  intro hall
  obtain ⟨w, hw, hlast⟩ := System.runs_of_decide (S := tradingSystem) (deploy sampleLaunch)
    (openMarket 1 1)
    (fun w => (w.amm.pool 1).any (fun (pool : PoolData) =>
        decide (pool.id = 1 ∧ 0 < pool.yesReserve ∧ 0 < pool.noReserve)) &&
      okWith (Amm.buy (bySigner alice) w alice 1 1000 0 1 true none)
        (fun bought => (bought.2.amm.pool 1).any (fun (left : PoolData) =>
          decide (left.yesReserve = 0))))
    (by decide +kernel)
  rw [Bool.and_eq_true, Option.any_eq_true, okWith_iff] at hlast
  obtain ⟨⟨pool, hpool, hdata⟩, ⟨out, w'⟩, hbuy, hempty⟩ := hlast
  rw [Option.any_eq_true] at hempty
  obtain ⟨pool', hpool', hzero⟩ := hempty
  obtain ⟨hid, hr, ho⟩ := of_decide_eq_true hdata
  have hreach := System.Reachable.runs (.init sample_init) (openMarket 1 1) hw
  rw [← hid] at hpool hbuy hpool'
  have hkeeps := hall w w' pool pool' _ hreach hpool hr ho (.buy hbuy) hpool'
  exact (hkeeps.reserves true).ne' (of_decide_eq_true hzero)

end DikeProtocol.Trading
