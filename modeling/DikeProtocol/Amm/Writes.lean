import DikeProtocol.Amm.Quotes
import DikeProtocol.Amm.Steps

/-!
# What the market maker's entry points write

The calls of each entry point once more, now with the pool, the shares and the
checkpoint a successful invocation stored, and with the quotes it computed them
from.
-/

namespace DikeProtocol.Amm

open Lib

/-- The tokens of one outcome a pool holds. -/
def reserveOf (pool : PoolData) (yes : Bool) : ℤ :=
  if yes = true then pool.yesReserve else pool.noReserve

/-- What one liquidity share earns from a fee, on the scale of the fees. -/
def earnedPerShare (pool : PoolData) (lpFee : ℤ) : ℤ :=
  if pool.totalLpShares > 0 ∧ lpFee > 0 then (lpFee * feeScale).tdiv pool.totalLpShares else 0

/-- Booking a fee adds to the pool's counters and to what a share has earned. -/
theorem accrueFees_pool {pool pool' : PoolData} {config : FeeConfig} {fee : ℤ} {fees : FeeParts}
    (h : accrueFees pool config fee = .ok (fees, pool')) :
    fees.lp = bpsOf fee config.lpFeeShareBps ∧ ∃ protocolFees codFees, pool' = { pool with
      accumulatedLpFees := pool.accumulatedLpFees + fees.lp
      accumulatedProtocolFees := protocolFees
      accumulatedCodFees := codFees
      feePerShareScaled := pool.feePerShareScaled + earnedPerShare pool fees.lp } := by
  unfold accrueFees at h
  obtain ⟨lp, hlp, h⟩ := bind_ok.mp h
  obtain ⟨treasury, _, h⟩ := bind_ok.mp h
  obtain ⟨rest, _, h⟩ := bind_ok.mp h
  obtain ⟨cod, _, h⟩ := bind_ok.mp h
  obtain ⟨booked, hbooked, h⟩ := bind_ok.mp h
  obtain ⟨protocolFees, _, h⟩ := bind_ok.mp h
  obtain ⟨codFees, _, h⟩ := bind_ok.mp h
  obtain ⟨perShare, hper, h⟩ := bind_ok.mp h
  obtain ⟨rfl, rfl⟩ := Prod.mk.inj (pure_ok.mp h)
  have hbooked' := (checkedAdd_ok.mp hbooked).1
  have hper' : perShare = pool.feePerShareScaled + earnedPerShare pool lp := by
    unfold earnedPerShare
    by_cases hearns : pool.totalLpShares > 0 ∧ lp > 0
    · rw [if_pos hearns] at hper ⊢
      obtain ⟨scaled, hscaled, hper⟩ := bind_ok.mp hper
      obtain ⟨delta, hdelta, hper⟩ := bind_ok.mp hper
      rw [(checkedAdd_ok.mp hper).1, (checkedDiv_ok.mp hdelta).2.1, (checkedMul_ok.mp hscaled).1]
    · rw [if_neg hearns] at hper ⊢
      rw [← ok_ok.mp hper, add_zero]
  refine ⟨(bps_ok.mp hlp).1, protocolFees, codFees, ?_⟩
  rw [hbooked', hper']

/-- A purchase changes the reserves only: minted sets come in, tokens leave. -/
theorem boughtReserves_ok {pool pool' : PoolData} {yes : Bool} {netIn out : ℤ}
    (h : boughtReserves pool yes netIn out = .ok pool') :
    (∃ yesReserve noReserve, pool' =
      { pool with yesReserve := yesReserve, noReserve := noReserve }) ∧
    ∀ o, reserveOf pool' o = reserveOf pool o + netIn - if o = yes then out else 0 := by
  unfold boughtReserves at h
  split at h
  · next hyes =>
    obtain ⟨minted, hminted, h⟩ := bind_ok.mp h
    obtain ⟨left, hleft, h⟩ := bind_ok.mp h
    obtain ⟨opposite, hopposite, h⟩ := bind_ok.mp h
    obtain rfl := pure_ok.mp h
    refine ⟨⟨_, _, rfl⟩, ?_⟩
    have hminted' := (checkedAdd_ok.mp hminted).1
    have hleft' := (checkedSub_ok.mp hleft).1
    have hopposite' := (checkedAdd_ok.mp hopposite).1
    intro o
    cases o <;> simp only [reserveOf, hyes, if_true, if_false, Bool.false_eq_true] <;> omega
  · next hyes =>
    obtain ⟨minted, hminted, h⟩ := bind_ok.mp h
    obtain ⟨left, hleft, h⟩ := bind_ok.mp h
    obtain ⟨opposite, hopposite, h⟩ := bind_ok.mp h
    obtain rfl := pure_ok.mp h
    refine ⟨⟨_, _, rfl⟩, ?_⟩
    have hminted' := (checkedAdd_ok.mp hminted).1
    have hleft' := (checkedSub_ok.mp hleft).1
    have hopposite' := (checkedAdd_ok.mp hopposite).1
    have hno := Bool.eq_false_of_not_eq_true hyes
    intro o
    cases o <;> simp only [reserveOf, hno, if_true, if_false, Bool.false_eq_true,
      Bool.true_eq_false] <;> omega

/-- A sale changes the reserves only: tokens come in, merged sets leave. -/
theorem soldReserves_ok {pool pool' : PoolData} {yes : Bool} {amountIn gross : ℤ}
    (h : soldReserves pool yes amountIn gross = .ok pool') :
    (∃ yesReserve noReserve, pool' =
      { pool with yesReserve := yesReserve, noReserve := noReserve }) ∧
    ∀ o, reserveOf pool' o = reserveOf pool o - gross + if o = yes then amountIn else 0 := by
  unfold soldReserves at h
  split at h
  · next hyes =>
    obtain ⟨held, hheld, h⟩ := bind_ok.mp h
    obtain ⟨left, hleft, h⟩ := bind_ok.mp h
    obtain ⟨opposite, hopposite, h⟩ := bind_ok.mp h
    obtain rfl := pure_ok.mp h
    refine ⟨⟨_, _, rfl⟩, ?_⟩
    have hheld' := (checkedAdd_ok.mp hheld).1
    have hleft' := (checkedSub_ok.mp hleft).1
    have hopposite' := (checkedSub_ok.mp hopposite).1
    intro o
    cases o <;> simp only [reserveOf, hyes, if_true, if_false, Bool.false_eq_true] <;> omega
  · next hyes =>
    obtain ⟨held, hheld, h⟩ := bind_ok.mp h
    obtain ⟨left, hleft, h⟩ := bind_ok.mp h
    obtain ⟨opposite, hopposite, h⟩ := bind_ok.mp h
    obtain rfl := pure_ok.mp h
    refine ⟨⟨_, _, rfl⟩, ?_⟩
    have hheld' := (checkedAdd_ok.mp hheld).1
    have hleft' := (checkedSub_ok.mp hleft).1
    have hopposite' := (checkedSub_ok.mp hopposite).1
    have hno := Bool.eq_false_of_not_eq_true hyes
    intro o
    cases o <;> simp only [reserveOf, hno, if_true, if_false, Bool.false_eq_true,
      Bool.true_eq_false] <;> omega

/-- A pool before and after a trade that booked a fee: only its reserves, its
counters and what a share has earned differ. -/
structure Traded (pool pool' : PoolData) (lpFee : ℤ) : Prop where
  id : pool'.id = pool.id
  marketId : pool'.marketId = pool.marketId
  totalLpShares : pool'.totalLpShares = pool.totalLpShares
  accumulatedLpFees : pool'.accumulatedLpFees = pool.accumulatedLpFees + lpFee
  feePerShareScaled :
    pool'.feePerShareScaled = pool.feePerShareScaled + earnedPerShare pool lpFee

/-- The pool a purchase stores. -/
theorem bought_traded {pool pool1 pool2 : PoolData} {config : FeeConfig} {fee : ℤ} {fees : FeeParts}
    {yes : Bool} {netIn out : ℤ} (hfees : accrueFees pool config fee = .ok (fees, pool1))
    (h : boughtReserves pool1 yes netIn out = .ok pool2) : Traded pool pool2 fees.lp ∧
      ∀ o, reserveOf pool2 o = reserveOf pool o + netIn - if o = yes then out else 0 := by
  obtain ⟨_, _, _, rfl⟩ := accrueFees_pool hfees
  obtain ⟨⟨_, _, rfl⟩, hreserve⟩ := boughtReserves_ok h
  exact ⟨⟨rfl, rfl, rfl, rfl, rfl⟩, hreserve⟩

/-- The pool a sale stores. -/
theorem sold_traded {pool pool1 pool2 : PoolData} {config : FeeConfig} {fee : ℤ} {fees : FeeParts}
    {yes : Bool} {amountIn gross : ℤ} (hfees : accrueFees pool config fee = .ok (fees, pool1))
    (h : soldReserves pool1 yes amountIn gross = .ok pool2) : Traded pool pool2 fees.lp ∧
      ∀ o, reserveOf pool2 o = reserveOf pool o - gross + if o = yes then amountIn else 0 := by
  obtain ⟨_, _, _, rfl⟩ := accrueFees_pool hfees
  obtain ⟨⟨_, _, rfl⟩, hreserve⟩ := soldReserves_ok h
  exact ⟨⟨rfl, rfl, rfl, rfl, rfl⟩, hreserve⟩

/-- A pool's quote of a purchase takes at most the reserve and the minted sets. -/
theorem quoteBuyOf_le {pool : PoolData} {yes : Bool} {netIn out : ℤ}
    (h : quoteBuyOf pool yes netIn = .ok out) : 0 < netIn ∧ out ≤ reserveOf pool yes + netIn := by
  unfold quoteBuyOf at h
  unfold reserveOf
  split at h
  · next hyes =>
    rw [if_pos hyes]
    exact quoteBuyCompleteSet_le h
  · next hno =>
    rw [if_neg hno]
    exact quoteBuyCompleteSet_le h

/-- A pool's quote of a sale merges at most what comes in and the opposite reserve. -/
theorem quoteSellOf_le {pool : PoolData} {yes : Bool} {amountIn gross : ℤ}
    (h : quoteSellOf pool yes amountIn = .ok gross) :
    gross ≤ amountIn ∧ gross ≤ reserveOf pool (!yes) := by
  unfold quoteSellOf at h
  unfold reserveOf
  cases yes with
  | true => exact quoteSell_le h
  | false => exact quoteSell_le h

/-- A purchase, with its quote and the pool it stored. -/
theorem buy_writes {ctx : Ctx} {w w' : World} {trader : Address} {poolId : ℕ} {amountIn minOut : ℤ}
    {deadline : ℕ} {yes : Bool} {parent : Option (MarketId × Outcome)} {out : ℤ}
    (h : buy ctx w trader poolId amountIn minOut deadline yes parent = .ok (out, w')) :
    ∃ pool m fee netIn fees pool1 pool2 w1 w2 w3 w4,
      requireAuth ctx trader = .ok () ∧ w.amm.pool poolId = some pool ∧
      splitFee amountIn (w.amm.poolFee poolId).tradingFeeBps = .ok (fee, netIn) ∧
      quoteBuyOf pool yes netIn = .ok out ∧
      fundPurchase ctx w m trader pool.marketId (outcomeOf yes) amountIn out parent = .ok w1 ∧
      mintCompleteSet ctx w1 m pool.marketId netIn = .ok w2 ∧
      accrueFees pool (w.amm.poolFee poolId) fee = .ok (fees, pool1) ∧
      collectFee ctx w2 m pool.marketId fees = .ok w3 ∧
      boughtReserves pool1 yes netIn out = .ok pool2 ∧
      transferPosition ctx w3 m (.contract .amm) trader pool.marketId (outcomeOf yes) out = .ok w4 ∧
      w' = { w4 with amm := writePool w4.amm pool2 } := by
  unfold buy at h
  obtain ⟨_, hauth, h⟩ := bind_ok.mp h
  obtain ⟨_, _, h⟩ := bind_ok.mp h
  obtain ⟨pool, hpool, h⟩ := bind_ok.mp h
  obtain ⟨_, _, h⟩ := bind_ok.mp h
  obtain ⟨m, _, h⟩ := bind_ok.mp h
  obtain ⟨⟨fee, netIn⟩, hsplit, h⟩ := bind_ok.mp h
  obtain ⟨out', hout, h⟩ := bind_ok.mp h
  obtain ⟨_, _, h⟩ := bind_ok.mp h
  obtain ⟨w1, h1, h⟩ := bind_ok.mp h
  obtain ⟨w2, h2, h⟩ := bind_ok.mp h
  obtain ⟨⟨fees, pool1⟩, hfees, h⟩ := bind_ok.mp h
  obtain ⟨w3, h3, h⟩ := bind_ok.mp h
  obtain ⟨pool2, hreserves, h⟩ := bind_ok.mp h
  obtain ⟨w4, h4, h⟩ := bind_ok.mp h
  obtain ⟨rfl, rfl⟩ := Prod.mk.inj (pure_ok.mp h)
  have hmarket := (accrueFees_ok hfees).2
  have hmarket2 : pool2.marketId = pool1.marketId := by
    obtain ⟨⟨_, _, rfl⟩, _⟩ := boughtReserves_ok hreserves
    rfl
  rw [hmarket] at h3
  rw [hmarket2, hmarket] at h4
  exact ⟨pool, m, fee, netIn, fees, pool1, pool2, w1, w2, w3, w4, hauth, orFault_ok.mp hpool,
    hsplit, hout, h1, h2, hfees, h3, hreserves, h4, rfl⟩

/-- A sale, with its quote and the pool it stored. -/
theorem sell_writes {ctx : Ctx} {w w' : World} {trader : Address} {poolId : ℕ} {amountIn minOut : ℤ}
    {deadline : ℕ} {yes : Bool} {netOut : ℤ}
    (h : sell ctx w trader poolId amountIn minOut deadline yes = .ok (netOut, w')) :
    ∃ pool m fee gross fees pool1 pool2 w1 w2 w3 w4,
      requireAuth ctx trader = .ok () ∧ w.amm.pool poolId = some pool ∧
      quoteSellOf pool yes amountIn = .ok gross ∧
      splitFee gross (w.amm.poolFee poolId).tradingFeeBps = .ok (fee, netOut) ∧
      accrueFees pool (w.amm.poolFee poolId) fee = .ok (fees, pool1) ∧
      transferPosition ctx w m trader (.contract .amm) pool.marketId (outcomeOf yes) amountIn =
        .ok w1 ∧
      mergePositions ctx w1 m pool.marketId gross = .ok w2 ∧
      Vault.releaseTradePayout (within ctx) w2 m.collateral trader pool.marketId (outcomeOf yes)
        amountIn netOut = .ok w3 ∧
      collectFee ctx w3 m pool.marketId fees = .ok w4 ∧
      soldReserves pool1 yes amountIn gross = .ok pool2 ∧
      w' = { w4 with amm := writePool w4.amm pool2 } := by
  unfold sell at h
  obtain ⟨_, hauth, h⟩ := bind_ok.mp h
  obtain ⟨_, _, h⟩ := bind_ok.mp h
  obtain ⟨pool, hpool, h⟩ := bind_ok.mp h
  obtain ⟨_, _, h⟩ := bind_ok.mp h
  obtain ⟨m, _, h⟩ := bind_ok.mp h
  obtain ⟨gross, hgross, h⟩ := bind_ok.mp h
  obtain ⟨⟨fee, netOut'⟩, hsplit, h⟩ := bind_ok.mp h
  obtain ⟨_, _, h⟩ := bind_ok.mp h
  obtain ⟨⟨fees, pool1⟩, hfees, h⟩ := bind_ok.mp h
  obtain ⟨w1, h1, h⟩ := bind_ok.mp h
  obtain ⟨w2, h2, h⟩ := bind_ok.mp h
  obtain ⟨called, hcall, h⟩ := bind_ok.mp h
  obtain ⟨w3, h3, h⟩ := bind_ok.mp h
  obtain ⟨w4, h4, h⟩ := bind_ok.mp h
  obtain ⟨pool2, hreserves, h⟩ := bind_ok.mp h
  obtain ⟨rfl, rfl⟩ := Prod.mk.inj (pure_ok.mp h)
  have hmarket := (accrueFees_ok hfees).2
  obtain rfl := (Ctx.call_ok.mp hcall).2.2
  rw [hmarket] at h1 h2 h3 h4
  exact ⟨pool, m, fee, gross, fees, pool1, pool2, w1, w2, w3, w4, hauth, orFault_ok.mp hpool,
    hgross, hsplit, hfees, h1, h2, h3, h4, hreserves, rfl⟩

/-- A forced sale, with its quote and the pool it stored. -/
theorem forceSell_writes {ctx : Ctx} {w w' : World} {poolId : ℕ} {user : Address} {yes : Bool}
    {sold netOut : ℤ} (h : forceSell ctx w poolId user yes = .ok (sold, netOut, w')) :
    ∃ pool m fee gross fees pool1 pool2 t w2 w3, w.amm.pool poolId = some pool ∧
      sold = w.tokens.balance (pool.marketId, user, outcomeOf yes) ∧ 0 < sold ∧
      quoteSellOf pool yes sold = .ok gross ∧
      splitFee gross (w.amm.poolFee poolId).tradingFeeBps = .ok (fee, netOut) ∧
      accrueFees pool (w.amm.poolFee poolId) fee = .ok (fees, pool1) ∧
      Tokens.moveBalance w.tokens user (.contract .amm) pool.marketId (outcomeOf yes) sold = .ok t ∧
      mergePositions ctx { w with tokens := t } m pool.marketId gross = .ok w2 ∧
      collectFee ctx w2 m pool.marketId fees = .ok w3 ∧
      soldReserves pool1 yes sold gross = .ok pool2 ∧
      w' = { w3 with amm := writePool w3.amm pool2 } := by
  unfold forceSell at h
  obtain ⟨pool, hpool, h⟩ := bind_ok.mp h
  obtain ⟨_, _, h⟩ := bind_ok.mp h
  obtain ⟨m, _, h⟩ := bind_ok.mp h
  obtain ⟨called, _, h⟩ := bind_ok.mp h
  obtain ⟨_, hpos, h⟩ := bind_ok.mp h
  obtain ⟨gross, hgross, h⟩ := bind_ok.mp h
  obtain ⟨⟨fee, netOut'⟩, hsplit, h⟩ := bind_ok.mp h
  obtain ⟨⟨fees, pool1⟩, hfees, h⟩ := bind_ok.mp h
  obtain ⟨t, ht, h⟩ := bind_ok.mp h
  obtain ⟨w2, h2, h⟩ := bind_ok.mp h
  obtain ⟨w3, h3, h⟩ := bind_ok.mp h
  obtain ⟨pool2, hreserves, h⟩ := bind_ok.mp h
  obtain ⟨rfl, hrest⟩ := Prod.mk.inj (pure_ok.mp h)
  obtain ⟨rfl, rfl⟩ := Prod.mk.inj hrest
  have hmarket := (accrueFees_ok hfees).2
  have hpos' := refuse_ok.mp hpos
  rw [hmarket] at ht h2 h3
  exact ⟨pool, m, fee, gross, fees, pool1, pool2, t, w2, w3, orFault_ok.mp hpool, rfl, by omega,
    hgross, hsplit, hfees, (Tokens.transferPositionForced_ok ht).2, h2, h3, hreserves, rfl⟩

/-- The world with a stored pool and a provider's shares, the checkpoint being
what a share of the pool has earned. -/
def withShares (w : World) (poolId : ℕ) (pool : PoolData) (lp : Address) (shares : ℤ) : World :=
  { w with amm := writeLp (writePool w.amm pool) poolId lp shares pool.feePerShareScaled }

/-- The world with a provider's checkpoint at what a share of the pool has earned. -/
def withCheckpoint (w : World) (poolId : ℕ) (pool : PoolData) (lp : Address) : World :=
  { w with amm := { w.amm with
    lpFeeCheckpoint := w.amm.lpFeeCheckpoint.set (poolId, lp) pool.feePerShareScaled } }

/-- A pool after the first deposit. -/
def seededPool (pool : PoolData) (amount : ℤ) : PoolData :=
  { pool with yesReserve := amount, noReserve := amount, totalLpShares := amount, live := true }

/-- A first deposit, with the pool, the shares and the checkpoint it stored. -/
theorem seedLiquidity_writes {ctx : Ctx} {w w' : World} {lp : Address} {poolId : ℕ} {x y : ℤ}
    (h : seedLiquidity ctx w lp poolId x = .ok (y, w')) :
    ∃ pool m w1 w2, 0 < x ∧ w.amm.pool poolId = some pool ∧ pool.totalLpShares = 0 ∧
      depositForMarket ctx w m lp pool.marketId x = .ok w1 ∧
      mintCompleteSet ctx w1 m pool.marketId x = .ok w2 ∧
      w' = withShares w2 poolId (seededPool pool x) lp x := by
  unfold seedLiquidity at h
  obtain ⟨_, _, h⟩ := bind_ok.mp h
  obtain ⟨_, hpos, h⟩ := bind_ok.mp h
  obtain ⟨m, _, h⟩ := bind_ok.mp h
  obtain ⟨pool, hpool, h⟩ := bind_ok.mp h
  obtain ⟨_, _, h⟩ := bind_ok.mp h
  obtain ⟨_, hempty, h⟩ := bind_ok.mp h
  obtain ⟨w1, h1, h⟩ := bind_ok.mp h
  obtain ⟨w2, h2, h⟩ := bind_ok.mp h
  obtain ⟨_, rfl⟩ := Prod.mk.inj (pure_ok.mp h)
  have hpos' := refuse_ok.mp hpos
  exact ⟨pool, m, w1, w2, by omega, orFault_ok.mp hpool, not_not.mp (refuse_ok.mp hempty), h1, h2,
    rfl⟩

/-- A pool with more or less liquidity. -/
def resizedPool (pool : PoolData) (yes no shares : ℤ) : PoolData :=
  { pool with
    yesReserve := pool.yesReserve + yes
    noReserve := pool.noReserve + no
    totalLpShares := pool.totalLpShares + shares }

/-- A further deposit, with the pool, the shares and the checkpoint it stored. -/
theorem addLiquidity_writes {ctx : Ctx} {w w' : World} {lp : Address} {poolId : ℕ} {x y : ℤ}
    (h : addLiquidity ctx w lp poolId x = .ok (y, w')) :
    ∃ pool m pending w1 w2, 0 < x ∧ 0 < y ∧ w.amm.pool poolId = some pool ∧
      depositForMarket ctx w m lp pool.marketId x = .ok w1 ∧
      mintCompleteSet ctx w1 m pool.marketId x = .ok w2 ∧
      computeLpFeesOwed w2.amm poolId lp pool (w2.amm.lpBalance (poolId, lp)) = .ok pending ∧
      payLpFees ctx (withShares w2 poolId (resizedPool pool x x y) lp
        (w2.amm.lpBalance (poolId, lp) + y)) m pool.marketId lp pending = .ok w' := by
  unfold addLiquidity at h
  obtain ⟨_, _, h⟩ := bind_ok.mp h
  obtain ⟨_, hpos, h⟩ := bind_ok.mp h
  obtain ⟨m, _, h⟩ := bind_ok.mp h
  obtain ⟨pool, hpool, h⟩ := bind_ok.mp h
  obtain ⟨_, _, h⟩ := bind_ok.mp h
  obtain ⟨_, _, h⟩ := bind_ok.mp h
  obtain ⟨w1, h1, h⟩ := bind_ok.mp h
  obtain ⟨w2, h2, h⟩ := bind_ok.mp h
  obtain ⟨_, _, h⟩ := bind_ok.mp h
  obtain ⟨_, _, h⟩ := bind_ok.mp h
  obtain ⟨_, hshares, h⟩ := bind_ok.mp h
  obtain ⟨pending, hpending, h⟩ := bind_ok.mp h
  obtain ⟨yes', hyes, h⟩ := bind_ok.mp h
  obtain ⟨no', hno, h⟩ := bind_ok.mp h
  obtain ⟨total, htotal, h⟩ := bind_ok.mp h
  obtain ⟨held, hheld, h⟩ := bind_ok.mp h
  obtain ⟨w3, h3, h⟩ := bind_ok.mp h
  obtain ⟨rfl, rfl⟩ := Prod.mk.inj (pure_ok.mp h)
  have hpos' := refuse_ok.mp hpos
  have hshares' := refuse_ok.mp hshares
  rw [(checkedAdd_ok.mp hyes).1, (checkedAdd_ok.mp hno).1, (checkedAdd_ok.mp htotal).1,
    (checkedAdd_ok.mp hheld).1] at h3
  exact ⟨pool, m, pending, w1, w2, by omega, by omega, orFault_ok.mp hpool, h1, h2, hpending, h3⟩

/-- A withdrawal, with the pool, the shares and the checkpoint it stored. -/
theorem removeLiquidity_writes {ctx : Ctx} {w w' : World} {lp : Address} {poolId : ℕ}
    {shares yesOut noOut : ℤ}
    (h : removeLiquidity ctx w lp poolId shares = .ok (yesOut, noOut, w')) :
    ∃ pool m pending w1 w2, requireAuth ctx lp = .ok () ∧ 0 < shares ∧
      w.amm.pool poolId = some pool ∧ shares ≤ w.amm.lpBalance (poolId, lp) ∧
      shares ≤ pool.totalLpShares ∧
      computeLpFeesOwed w.amm poolId lp pool (w.amm.lpBalance (poolId, lp)) = .ok pending ∧
      yesOut = proportionOf pool.yesReserve shares pool.totalLpShares ∧
      noOut = proportionOf pool.noReserve shares pool.totalLpShares ∧
      payLpFees ctx (withShares w poolId (resizedPool pool (-yesOut) (-noOut) (-shares)) lp
        (w.amm.lpBalance (poolId, lp) - shares)) m pool.marketId lp pending = .ok w1 ∧
      transferPosition ctx w1 m (.contract .amm) lp pool.marketId .yes yesOut = .ok w2 ∧
      transferPosition ctx w2 m (.contract .amm) lp pool.marketId .no noOut = .ok w' := by
  unfold removeLiquidity at h
  obtain ⟨_, hauth, h⟩ := bind_ok.mp h
  obtain ⟨_, hpos, h⟩ := bind_ok.mp h
  obtain ⟨m, _, h⟩ := bind_ok.mp h
  obtain ⟨pool, hpool, h⟩ := bind_ok.mp h
  obtain ⟨_, _, h⟩ := bind_ok.mp h
  obtain ⟨_, henough, h⟩ := bind_ok.mp h
  obtain ⟨pending, hpending, h⟩ := bind_ok.mp h
  obtain ⟨yes', hyes, h⟩ := bind_ok.mp h
  obtain ⟨no', hno, h⟩ := bind_ok.mp h
  obtain ⟨yesLeft, hyesLeft, h⟩ := bind_ok.mp h
  obtain ⟨noLeft, hnoLeft, h⟩ := bind_ok.mp h
  obtain ⟨total, htotal, h⟩ := bind_ok.mp h
  obtain ⟨remaining, hremaining, h⟩ := bind_ok.mp h
  obtain ⟨w1, h1, h⟩ := bind_ok.mp h
  obtain ⟨w2, h2, h⟩ := bind_ok.mp h
  obtain ⟨w3, h3, h⟩ := bind_ok.mp h
  obtain ⟨rfl, hrest⟩ := Prod.mk.inj (pure_ok.mp h)
  obtain ⟨rfl, rfl⟩ := Prod.mk.inj hrest
  have hpos' := refuse_ok.mp hpos
  have henough' := not_or.mp (refuse_ok.mp henough)
  rw [(checkedSub_ok.mp hyesLeft).1, (checkedSub_ok.mp hnoLeft).1, (checkedSub_ok.mp htotal).1,
    (checkedSub_ok.mp hremaining).1] at h1
  refine ⟨pool, m, pending, w1, w2, hauth, by omega, orFault_ok.mp hpool, by omega, by omega,
    hpending, proportional_ok hyes, proportional_ok hno, ?_, h2, h3⟩
  simp only [sub_eq_add_neg] at h1
  exact h1

/-- A claim pays everything owed and moves the checkpoint, or owes nothing. -/
theorem claimLpFees_writes {ctx : Ctx} {w w' : World} {lp : Address} {poolId : ℕ} {y : ℤ}
    (h : claimLpFees ctx w lp poolId = .ok (y, w')) :
    ∃ pool, w.amm.pool poolId = some pool ∧ (w' = w ∨ ∃ m, 0 < y ∧
      computeLpFeesOwed w.amm poolId lp pool (w.amm.lpBalance (poolId, lp)) = .ok y ∧
      payLpFees ctx (withCheckpoint w poolId pool lp) m pool.marketId lp y = .ok w') := by
  unfold claimLpFees at h
  obtain ⟨_, _, h⟩ := bind_ok.mp h
  obtain ⟨pool, hpool, h⟩ := bind_ok.mp h
  obtain ⟨_, _, h⟩ := bind_ok.mp h
  obtain ⟨owed, howed, h⟩ := bind_ok.mp h
  split at h
  · obtain ⟨_, rfl⟩ := Prod.mk.inj (pure_ok.mp h)
    exact ⟨pool, orFault_ok.mp hpool, Or.inl rfl⟩
  · obtain ⟨m, _, h⟩ := bind_ok.mp h
    obtain ⟨w1, h1, h⟩ := bind_ok.mp h
    obtain ⟨rfl, rfl⟩ := Prod.mk.inj (pure_ok.mp h)
    exact ⟨pool, orFault_ok.mp hpool, Or.inr ⟨m, by omega, howed, h1⟩⟩

end DikeProtocol.Amm
