import DikeProtocol.Trading.Product
import Mathlib.Analysis.Normed.Field.Lemmas

/-!
# The prices that are published

The service publishes a price of each outcome from the reserves of its pool,
and the web client shows an implied price in basis points. The price at which
the pool trades is the limit of its quotes, and it is the share of the
opposite reserve: the service publishes the share of an outcome's own reserve,
which moves against every trade.
-/

namespace DikeProtocol.Services

open Lib Filter Topology
open Amm (reserveOf)
open Trading (Stores PoolTrade Accepted tradingSystem openMarket alice_buys_accepted)

/-- The two prices served with a market. -/
structure Prices where
  yesPrice : Option ℚ
  noPrice : Option ℚ

/-- The service's prices from the reserves of a row, a missing one counting as zero. -/
def derivePrices (yesReserve noReserve : Option ℤ) : Prices :=
  let yes : ℚ := (yesReserve.getD 0 : ℤ)
  let no : ℚ := (noReserve.getD 0 : ℤ)
  let total := yes + no
  if total = 0 then { yesPrice := none, noPrice := none }
  else { yesPrice := some (yes / total), noPrice := some (no / total) }

/-- The web client's implied price of Yes in basis points. -/
def impliedYesBps (yesReserve noReserve : ℤ) : ℤ :=
  if yesReserve + noReserve = 0 then 5000
  else (noReserve * 10000).tdiv (yesReserve + noReserve)

/-- The prices served for a pool. -/
def pricesOf (pool : PoolData) : Prices := derivePrices pool.yesReserve pool.noReserve

/-- What a purchase returns before rounding. -/
def exactPurchase (reserve opposite net : ℚ) : ℚ :=
  reserve + net - reserve * opposite / (opposite + net)

/-- A quoted purchase returns the exact amount, rounded up. -/
theorem quoteBuyCompleteSet_exact {reserve opposite netIn out : ℤ}
    (h : quoteBuyCompleteSet reserve opposite netIn = .ok out) :
    exactPurchase reserve opposite netIn ≤ out ∧
      (out : ℚ) < exactPurchase reserve opposite netIn + 1 := by
  obtain ⟨_, ho, hin, _, _, _, hout⟩ := quoteBuyCompleteSet_ok.mp h
  have hsum : 0 < opposite + netIn := by omega
  have hsum' : (0 : ℚ) < (opposite : ℚ) + netIn := by exact_mod_cast hsum
  have hbelow := Int.ediv_mul_le (reserve * opposite) hsum.ne'
  have habove := Int.lt_ediv_add_one_mul_self (reserve * opposite) hsum
  have hfloor : ((reserveLeft reserve opposite netIn : ℤ) : ℚ) ≤
      (reserve : ℚ) * opposite / (opposite + netIn) := by
    rw [le_div_iff₀ hsum']
    exact_mod_cast hbelow
  have hnext : (reserve : ℚ) * opposite / (opposite + netIn) <
      (reserveLeft reserve opposite netIn : ℤ) + 1 := by
    rw [div_lt_iff₀ hsum']
    exact_mod_cast habove
  unfold exactPurchase
  rw [hout]
  push_cast
  constructor <;> linarith

/-- The price per token of smaller and smaller purchases tends to a value. -/
def LimitPrice (pool : PoolData) (price : ℚ) : Prop :=
  Tendsto (fun net : ℚ => net / exactPurchase pool.yesReserve pool.noReserve net) (𝓝[>] 0)
    (𝓝 price)

section Limit

variable {pool : PoolData}

/-- A small purchase costs the share of the enlarged opposite reserve for each token. -/
theorem exactPurchase_price {reserve opposite net : ℚ} (hr : 0 < reserve) (ho : 0 < opposite)
    (hin : 0 < net) : net / exactPurchase reserve opposite net =
      (opposite + net) / (reserve + opposite + net) := by
  have hnew : opposite + net ≠ 0 := by linarith
  have hout : exactPurchase reserve opposite net =
      net * (reserve + opposite + net) / (opposite + net) := by
    unfold exactPurchase
    field_simp
    ring
  rw [hout]
  have hall : reserve + opposite + net ≠ 0 := by linarith
  field_simp

/-- The limit price is the share of the opposite reserve. -/
theorem limitPrice_iff (hr : 0 < pool.yesReserve) (ho : 0 < pool.noReserve) {price : ℚ} :
    LimitPrice pool price ↔
      price = (pool.noReserve : ℚ) / ((pool.yesReserve : ℚ) + pool.noReserve) := by
  have hr' : (0 : ℚ) < pool.yesReserve := by exact_mod_cast hr
  have ho' : (0 : ℚ) < pool.noReserve := by exact_mod_cast ho
  have hlimit : LimitPrice pool
      ((pool.noReserve : ℚ) / ((pool.yesReserve : ℚ) + pool.noReserve)) := by
    have hcont : Tendsto (fun net : ℚ => ((pool.noReserve : ℚ) + net) /
        ((pool.yesReserve : ℚ) + pool.noReserve + net)) (𝓝 0)
        (𝓝 (((pool.noReserve : ℚ) + 0) / ((pool.yesReserve : ℚ) + pool.noReserve + 0))) := by
      refine Tendsto.div ?_ ?_ (by linarith)
      · exact tendsto_const_nhds.add tendsto_id
      · exact tendsto_const_nhds.add tendsto_id
    rw [add_zero, add_zero] at hcont
    refine (hcont.mono_left nhdsWithin_le_nhds).congr' ?_
    filter_upwards [self_mem_nhdsWithin] with net hnet
    exact (exactPurchase_price hr' ho' hnet).symm
  constructor
  · intro h
    exact tendsto_nhds_unique h hlimit
  · rintro rfl
    exact hlimit

/-- The published price of a pool is the share of its own reserve. -/
theorem pricesOf_yesPrice (h : 0 < pool.yesReserve + pool.noReserve) :
    (pricesOf pool).yesPrice =
      some ((pool.yesReserve : ℚ) / ((pool.yesReserve : ℚ) + pool.noReserve)) := by
  have htotal : ((pool.yesReserve : ℚ) + pool.noReserve) ≠ 0 := by exact_mod_cast h.ne'
  unfold pricesOf derivePrices
  dsimp only [Option.getD_some]
  rw [if_neg htotal]

/-- It is the limit price of balanced reserves only. -/
theorem published_limit_iff (hr : 0 < pool.yesReserve) (ho : 0 < pool.noReserve) :
    (∃ price, (pricesOf pool).yesPrice = some price ∧ LimitPrice pool price) ↔
      pool.yesReserve = pool.noReserve := by
  have htotal : ((pool.yesReserve : ℚ) + pool.noReserve) ≠ 0 := by
    exact_mod_cast (show pool.yesReserve + pool.noReserve ≠ 0 by omega)
  rw [pricesOf_yesPrice (by omega)]
  constructor
  · rintro ⟨price, hprice, hlimit⟩
    obtain rfl := Option.some.inj hprice
    have hsame := (limitPrice_iff hr ho).mp hlimit
    rw [div_left_inj' htotal] at hsame
    exact_mod_cast hsame
  · intro hsame
    refine ⟨_, rfl, (limitPrice_iff hr ho).mpr ?_⟩
    rw [hsame]

/-- Balanced reserves are shown at half, in basis points too. -/
theorem impliedYesBps_balanced (hr : 0 < pool.yesReserve)
    (hsame : pool.yesReserve = pool.noReserve) :
    impliedYesBps pool.yesReserve pool.noReserve = 5000 := by
  unfold impliedYesBps
  rw [if_neg (by omega), ← hsame, Int.tdiv_eq_ediv_of_nonneg (by omega)]
  rw [show pool.yesReserve * 10000 = 5000 * (pool.yesReserve + pool.yesReserve) by ring]
  exact Int.mul_ediv_cancel _ (by omega)

end Limit

section Trades

variable {pool pool' : PoolData} {feeBps : ℕ} {amountIn : ℤ}

/-- Shares compare by cross-multiplication. -/
theorem yesShare_lt {yes no yes' no' : ℤ} (h : 0 < yes + no) (h' : 0 < yes' + no') :
    (yes : ℚ) / ((yes : ℚ) + no) < (yes' : ℚ) / ((yes' : ℚ) + no') ↔ yes * no' < yes' * no := by
  rw [div_lt_div_iff₀ (by exact_mod_cast h) (by exact_mod_cast h')]
  rw [show (yes : ℚ) * ((yes' : ℚ) + no') < yes' * ((yes : ℚ) + no) ↔
    yes * (yes' + no') < yes' * (yes + no) by exact_mod_cast Iff.rfl]
  constructor <;> intro hlt <;> linarith

/-- A stored purchase of Yes lowers the published price. -/
theorem stored_buy_yesPrice (hr : 0 < pool.yesReserve) (ho : 0 < pool.noReserve)
    (h : Stores pool feeBps pool' (.buy true amountIn)) : ∃ price price',
    (pricesOf pool).yesPrice = some price ∧ (pricesOf pool').yesPrice = some price' ∧
      price' < price := by
  obtain ⟨hin, hbought, hminted⟩ := h.bought
  have hyes : pool'.yesReserve = pool.yesReserve * pool.noReserve / pool'.noReserve := by
    rw [show pool'.noReserve = reserveOf pool' (!true) from rfl, hminted]
    exact hbought
  have hno : pool.noReserve < pool'.noReserve := by
    rw [show pool'.noReserve = reserveOf pool' (!true) from rfl, hminted]
    exact lt_add_of_pos_right _ hin
  have hnonneg : 0 ≤ pool'.yesReserve := by
    rw [hyes]
    exact Int.ediv_nonneg (mul_pos hr ho).le (by omega)
  refine ⟨_, _, pricesOf_yesPrice (by omega), pricesOf_yesPrice (by omega), ?_⟩
  rw [yesShare_lt (by omega) (by omega)]
  calc
    pool'.yesReserve * pool.noReserve ≤ pool'.yesReserve * pool'.noReserve :=
      mul_le_mul_of_nonneg_left hno.le hnonneg
    _ ≤ pool.yesReserve * pool.noReserve := by
      rw [hyes]
      exact Int.ediv_mul_le _ (by omega)
    _ < pool.yesReserve * pool'.noReserve := mul_lt_mul_of_pos_left hno hr

/-- A stored sale of Yes raises the published price. -/
theorem stored_sell_yesPrice (hr : 0 < pool.yesReserve) (ho : 0 < pool.noReserve)
    (h : Stores pool feeBps pool' (.sell true amountIn)) : ∃ price price',
    (pricesOf pool).yesPrice = some price ∧ (pricesOf pool').yesPrice = some price' ∧
      price < price' := by
  obtain ⟨hin, gross, _, ⟨hnonneg, hle, hfits⟩, hsold, hmerged⟩ := h.sold
  have hyes : pool'.yesReserve = pool.yesReserve - gross + amountIn := hsold
  have hno : pool'.noReserve = pool.noReserve - gross := hmerged
  have hfits' : gross ≤ pool.noReserve := hfits
  refine ⟨_, _, pricesOf_yesPrice (by omega), pricesOf_yesPrice (by omega), ?_⟩
  rw [yesShare_lt (by omega) (by omega)]
  rcases hnonneg.eq_or_lt with hzero | hpos
  · have hmore : pool.yesReserve < pool'.yesReserve := by omega
    rw [hno, ← hzero, sub_zero]
    exact mul_lt_mul_of_pos_right hmore ho
  · have hmore : pool.yesReserve ≤ pool'.yesReserve := by omega
    have hless : pool'.noReserve < pool.noReserve := by omega
    exact (mul_lt_mul_of_pos_left hless hr).trans_le (mul_le_mul_of_nonneg_right hmore ho.le)

/-- Every accepted purchase of Yes lowers the price published for its pool. -/
theorem accepted_buy_yesPrice {w w' : World} (hpool : w.amm.pool pool.id = some pool)
    (hr : 0 < pool.yesReserve) (ho : 0 < pool.noReserve)
    (h : Accepted w pool (.buy true amountIn) w') : ∃ pool' price price',
    w'.amm.pool pool.id = some pool' ∧ (pricesOf pool).yesPrice = some price ∧
      (pricesOf pool').yesPrice = some price' ∧ price' < price := by
  obtain ⟨pool', hpool', hstores⟩ := h.stores hpool
  obtain ⟨price, price', hprices⟩ := stored_buy_yesPrice hr ho hstores
  exact ⟨pool', price, price', hpool', hprices⟩

/-- Every accepted sale of Yes, forced or not, raises it. -/
theorem accepted_sell_yesPrice {w w' : World} (hpool : w.amm.pool pool.id = some pool)
    (hr : 0 < pool.yesReserve) (ho : 0 < pool.noReserve)
    (h : Accepted w pool (.sell true amountIn) w') : ∃ pool' price price',
    w'.amm.pool pool.id = some pool' ∧ (pricesOf pool).yesPrice = some price ∧
      (pricesOf pool').yesPrice = some price' ∧ price < price' := by
  obtain ⟨pool', hpool', hstores⟩ := h.stores hpool
  obtain ⟨price, price', hprices⟩ := stored_sell_yesPrice hr ho hstores
  exact ⟨pool', price, price', hpool', hprices⟩

/-- What the published price of a pool promises: it is the price at which the pool trades, it
agrees with the one shown by the web client, and no trade moves it the wrong way. -/
structure PublishesTradedPrice (pool : PoolData) : Prop where
  limit : ∃ price, (pricesOf pool).yesPrice = some price ∧ LimitPrice pool price
  agrees : ∃ price, (pricesOf pool).yesPrice = some price ∧
    |10000 * price - impliedYesBps pool.yesReserve pool.noReserve| ≤ 1
  bought : ∀ feeBps amountIn pool', Stores pool feeBps pool' (.buy true amountIn) →
    ∀ price price', (pricesOf pool).yesPrice = some price →
      (pricesOf pool').yesPrice = some price' → price ≤ price'
  sold : ∀ feeBps amountIn pool', Stores pool feeBps pool' (.sell true amountIn) →
    ∀ price price', (pricesOf pool).yesPrice = some price →
      (pricesOf pool').yesPrice = some price' → price' ≤ price

/-- What trading gives the published price to compare with: quotes return the amounts whose limit
price is meant, rounded up, and every purchase of Yes that the market maker accepts lowers the
published price, and every sale, forced or not, raises it. -/
structure TradesAgainstPrice (pool : PoolData) : Prop where
  quoted : ∀ netIn out, quoteBuyCompleteSet pool.yesReserve pool.noReserve netIn = .ok out →
    exactPurchase pool.yesReserve pool.noReserve netIn ≤ out ∧
      (out : ℚ) < exactPurchase pool.yesReserve pool.noReserve netIn + 1
  bought : ∀ w w' amountIn, w.amm.pool pool.id = some pool →
    Accepted w pool (.buy true amountIn) w' → ∃ pool' price price',
      w'.amm.pool pool.id = some pool' ∧ (pricesOf pool).yesPrice = some price ∧
        (pricesOf pool').yesPrice = some price' ∧ price' < price
  sold : ∀ w w' amountIn, w.amm.pool pool.id = some pool →
    Accepted w pool (.sell true amountIn) w' → ∃ pool' price price',
      w'.amm.pool pool.id = some pool' ∧ (pricesOf pool).yesPrice = some price ∧
        (pricesOf pool').yesPrice = some price' ∧ price < price'

/-- Every pool with reserves on both sides trades against its published price. -/
theorem tradesAgainstPrice_of_pos (hr : 0 < pool.yesReserve) (ho : 0 < pool.noReserve) :
    TradesAgainstPrice pool where
  quoted := fun _ _ h => quoteBuyCompleteSet_exact h
  bought := fun _ _ _ hpool h => accepted_buy_yesPrice hpool hr ho h
  sold := fun _ _ _ hpool h => accepted_sell_yesPrice hpool hr ho h

/-- A pool whose product fits sells one unit's worth of Yes where no fee is taken. -/
theorem stores_unit (hr : 0 < pool.yesReserve) (ho : 0 < pool.noReserve)
    (hfits : pool.yesReserve * pool.noReserve ≤ i128Max)
    (hyes : pool.yesReserve + 1 ≤ i128Max) (hno : pool.noReserve + 1 ≤ i128Max) :
    ∃ pool', Stores pool 0 pool' (.buy true 1) := by
  have hnet : (1 : ℤ) - bpsOf 1 0 = 1 := by decide
  have hquote : Amm.quoteBuyOf pool true (1 - bpsOf 1 0) =
      .ok (pool.yesReserve + 1 - reserveLeft pool.yesReserve pool.noReserve 1) := by
    rw [hnet]
    exact quoteBuyCompleteSet_ok.mpr ⟨hr, ho, one_pos, hfits, hno, hyes, rfl⟩
  refine ⟨{ pool with
    yesReserve := reserveLeft pool.yesReserve pool.noReserve 1
    noReserve := pool.noReserve + 1 }, .buy hquote fun o => ?_⟩
  rw [hnet]
  cases o with
  | true =>
    rw [if_pos rfl]
    exact (sub_sub_cancel _ _).symm
  | false =>
    rw [if_neg Bool.false_ne_true, sub_zero]
    rfl

/-- Nothing is quoted of a pool whose product does not fit. -/
theorem not_stores_of_large {trade : PoolTrade}
    (hlarge : i128Max < pool.yesReserve * pool.noReserve) : ¬Stores pool feeBps pool' trade := by
  intro h
  cases h with
  | @buy yes _ _ hquote _ =>
    obtain ⟨_, _, _, hfits, _⟩ := quoteBuyCompleteSet_ok.mp (Amm.quoteBuyOf_ok.mp hquote)
    rw [← Trading.reserveProduct_eq, Trading.reserveProduct] at hfits
    omega
  | @sell yes amountIn _ hquote _ =>
    obtain ⟨hpos, hopposite, hin, hfits, _⟩ := quoteSell_ok.mp (Amm.quoteSellOf_ok.mp hquote)
    have hproduct := Trading.reserveProduct_eq pool yes
    have hsquare : reserveOf pool yes * reserveOf pool (!yes) ≤
        (reserveOf pool yes + amountIn + reserveOf pool !yes) *
          (reserveOf pool yes + amountIn + reserveOf pool !yes) :=
      mul_le_mul (by omega) (by omega) hopposite.le (by omega)
    rw [← hproduct, Trading.reserveProduct] at hsquare
    omega

/-- The published price of a pool is the traded one exactly when its reserves are equal and so
large that nothing can be traded: every trade moves it the wrong way. -/
theorem publishesTradedPrice_iff (hr : 0 < pool.yesReserve) (ho : 0 < pool.noReserve) :
    (PublishesTradedPrice pool ↔
      pool.yesReserve = pool.noReserve ∧ i128Max < pool.yesReserve * pool.noReserve) ∧
    TradesAgainstPrice pool := by
  refine ⟨⟨?_, ?_⟩, tradesAgainstPrice_of_pos hr ho⟩
  · intro h
    have hsame := (published_limit_iff hr ho).mp h.limit
    refine ⟨hsame, ?_⟩
    by_contra hfits
    have hnext : pool.yesReserve + 1 ≤ i128Max := by
      by_contra hbig
      have hall : i128Max * i128Max ≤ pool.yesReserve * pool.noReserve := by
        rw [← hsame]
        exact mul_self_le_mul_self (by decide) (by omega)
      have hover : i128Max < i128Max * i128Max := by decide
      omega
    obtain ⟨pool', hstores⟩ := stores_unit hr ho (not_lt.mp hfits) hnext (by omega)
    obtain ⟨price, price', hprice, hprice', hlt⟩ := stored_buy_yesPrice hr ho hstores
    exact absurd (h.bought _ _ _ hstores _ _ hprice hprice') (not_le.mpr hlt)
  · rintro ⟨hsame, hlarge⟩
    have hyes := pricesOf_yesPrice (show 0 < pool.yesReserve + pool.noReserve by omega)
    refine ⟨(published_limit_iff hr ho).mpr hsame, ⟨_, hyes, ?_⟩, ?_, ?_⟩
    · have hpos : (pool.noReserve : ℚ) ≠ 0 := by exact_mod_cast ho.ne'
      have hhalf : 10000 * ((pool.yesReserve : ℚ) / ((pool.yesReserve : ℚ) + pool.noReserve)) =
          5000 := by
        rw [hsame]
        field_simp
        norm_num
      rw [impliedYesBps_balanced hr hsame, hhalf]
      norm_num
    · intro feeBps amountIn pool' hstores
      exact absurd hstores (not_stores_of_large hlarge)
    · intro feeBps amountIn pool' hstores
      exact absurd hstores (not_stores_of_large hlarge)

end Trades

/-- The reserves of the service's own test of its prices. -/
def testedPool : PoolData := { Amm.freshPool 1 1 with yesReserve := 40, noReserve := 60 }

/-- Reserves whose product does not fit. -/
def untradedPool : PoolData := { Amm.freshPool 1 1 with yesReserve := 2 ^ 64, noReserve := 2 ^ 64 }

/-- The reserves of the service's own test do not publish the traded price, reserves that are not
traded do, and alice's purchase lowers the price of the sample's pool. -/
theorem publishesTradedPrice_sample : ¬PublishesTradedPrice testedPool ∧
    PublishesTradedPrice untradedPool ∧ ∃ (w w' : World) (pool : PoolData),
      tradingSystem.runs (deploy sampleLaunch) (openMarket 1 10000) = .ok w ∧
      Accepted w pool (.buy true 1000) w' ∧ ∃ pool' price price',
        w'.amm.pool 1 = some pool' ∧ (pricesOf pool).yesPrice = some price ∧
          (pricesOf pool').yesPrice = some price' ∧ price' < price := by
  have htested := (publishesTradedPrice_iff (by decide : 0 < testedPool.yesReserve) (by decide)).1
  have huntraded := (publishesTradedPrice_iff (by decide : 0 < untradedPool.yesReserve)
    (by decide)).1
  refine ⟨fun h => absurd (htested.mp h) (by decide), huntraded.mpr (by decide), ?_⟩
  obtain ⟨w, w', pool, hw, hpool, hid, hr, ho, haccepted⟩ := alice_buys_accepted
  have hlowers := (publishesTradedPrice_iff hr ho).2.bought w w' 1000 (by rw [hid]; exact hpool)
    haccepted
  rw [hid] at hlowers
  exact ⟨w, w', pool, hw, haccepted, hlowers⟩

/-- The service publishes two fifths where Yes trades at three fifths. -/
theorem not_always_publishesTradedPrice : ¬∀ pool : PoolData, 0 < pool.yesReserve →
    0 < pool.noReserve → PublishesTradedPrice pool := by
  intro hall
  have hlimit := (hall testedPool (by decide) (by decide)).limit
  exact absurd ((published_limit_iff (by decide) (by decide)).mp hlimit) (by decide)

end DikeProtocol.Services
