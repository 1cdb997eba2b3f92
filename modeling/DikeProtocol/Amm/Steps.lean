import DikeProtocol.Amm.Entry

/-!
# What the market maker's entry points call

For each entry point, the calls a successful invocation made, in order, with
the amounts they were made with. Later results follow these calls and do not
unfold the entry points again.
-/

namespace DikeProtocol.Amm

open Lib

/-- The call stack of whatever the market maker invokes. -/
def within (ctx : Ctx) : Ctx := { ctx with callers := .contract .amm :: ctx.callers }

/-- The parts of a booked fee add up to it, and the pool stays the pool of its market. -/
theorem accrueFees_ok {pool pool' : PoolData} {config : FeeConfig} {fee : ℤ} {fees : FeeParts}
    (h : accrueFees pool config fee = .ok (fees, pool')) :
    fees.lp + fees.treasury + fees.cod = fee ∧ pool'.marketId = pool.marketId := by
  unfold accrueFees at h
  obtain ⟨lp, _, h⟩ := bind_ok.mp h
  obtain ⟨treasury, _, h⟩ := bind_ok.mp h
  obtain ⟨rest, hrest, h⟩ := bind_ok.mp h
  obtain ⟨cod, hcod, h⟩ := bind_ok.mp h
  obtain ⟨_, _, h⟩ := bind_ok.mp h
  obtain ⟨_, _, h⟩ := bind_ok.mp h
  obtain ⟨_, _, h⟩ := bind_ok.mp h
  obtain ⟨_, _, h⟩ := bind_ok.mp h
  obtain ⟨rfl, rfl⟩ := Prod.mk.inj (pure_ok.mp h)
  have hrest' := (checkedSub_ok.mp hrest).1
  have hcod' := (checkedSub_ok.mp hcod).1
  refine ⟨?_, rfl⟩
  dsimp only
  omega

/-- A deposit is a call of the vault. -/
theorem depositForMarket_ok {ctx : Ctx} {w w' : World} {m : Modules} {user : Address}
    {marketId : MarketId} {x : ℤ} (h : depositForMarket ctx w m user marketId x = .ok w') :
    Vault.depositForMarket (within ctx) w m.collateral user marketId x = .ok w' := by
  obtain ⟨called, hcall, h⟩ := bind_ok.mp h
  obtain rfl := (Ctx.call_ok.mp hcall).2.2
  exact h

/-- Minting is a call of the tokens. -/
theorem mintCompleteSet_ok {ctx : Ctx} {w w' : World} {m : Modules} {marketId : MarketId} {x : ℤ}
    (h : mintCompleteSet ctx w m marketId x = .ok w') :
    ∃ t, 0 < x ∧ Tokens.creditCompleteSet w.tokens marketId (.contract .amm) x = .ok t ∧
      w' = { w with tokens := t } := by
  obtain ⟨_, _, h⟩ := bind_ok.mp h
  obtain ⟨t, ht, h⟩ := bind_ok.mp h
  obtain ⟨hx, hcredit⟩ := Tokens.mintCompleteSet_ok ht
  exact ⟨t, hx, hcredit, (pure_ok.mp h).symm⟩

/-- Merging is a call of the tokens. -/
theorem mergePositions_ok {ctx : Ctx} {w w' : World} {m : Modules} {marketId : MarketId} {x : ℤ}
    (h : mergePositions ctx w m marketId x = .ok w') :
    ∃ t, Tokens.mergePositions (within ctx) w.tokens (.contract .amm) marketId x = .ok t ∧
      w' = { w with tokens := t } := by
  obtain ⟨called, hcall, h⟩ := bind_ok.mp h
  obtain rfl := (Ctx.call_ok.mp hcall).2.2
  obtain ⟨t, ht, h⟩ := bind_ok.mp h
  exact ⟨t, ht, (pure_ok.mp h).symm⟩

/-- A transfer is a call of the tokens. -/
theorem transferPosition_ok {ctx : Ctx} {w w' : World} {m : Modules} {a b : Address}
    {marketId : MarketId} {o : Outcome} {x : ℤ}
    (h : transferPosition ctx w m a b marketId o x = .ok w') :
    Tokens.transferPosition (within ctx) w a b marketId o x = .ok w' := by
  obtain ⟨called, hcall, h⟩ := bind_ok.mp h
  obtain rfl := (Ctx.call_ok.mp hcall).2.2
  exact h

/-- Booking a fee is a call of the vault. -/
theorem collectFee_ok {ctx : Ctx} {w w' : World} {m : Modules} {marketId : MarketId}
    {fees : FeeParts} (h : collectFee ctx w m marketId fees = .ok w') :
    Vault.collectFee (within ctx) w marketId fees.lp fees.treasury fees.cod = .ok w' := by
  obtain ⟨called, hcall, h⟩ := bind_ok.mp h
  obtain rfl := (Ctx.call_ok.mp hcall).2.2
  exact h

/-- Paying fees is a call of the vault when there are any. -/
theorem payLpFees_ok {ctx : Ctx} {w w' : World} {m : Modules} {marketId : MarketId} {lp : Address}
    {x : ℤ} (h : payLpFees ctx w m marketId lp x = .ok w') :
    Vault.claimLpFees (within ctx) w m.collateral marketId lp x = .ok w' ∨ w' = w := by
  unfold payLpFees at h
  split at h
  · obtain ⟨called, hcall, h⟩ := bind_ok.mp h
    obtain rfl := (Ctx.call_ok.mp hcall).2.2
    exact Or.inl h
  · exact Or.inr (ok_ok.mp h).symm

/-- A pool trades only while its market is registered and live. -/
theorem requireLive_ok {ctx : Ctx} {w : World} {pool : PoolData} {deadline : ℕ} {u : Unit}
    (h : requireLive ctx w pool deadline = .ok u) :
    ∃ market, w.registry.market pool.marketId = some market ∧ market.status = .live := by
  unfold requireLive requireMarketTradeable at h
  obtain ⟨_, _, h⟩ := bind_ok.mp h
  obtain ⟨_, _, h⟩ := bind_ok.mp h
  obtain ⟨_, _, h⟩ := bind_ok.mp h
  obtain ⟨_, _, h⟩ := bind_ok.mp h
  obtain ⟨tradeable, htr, h⟩ := bind_ok.mp h
  have hyes := refuse_ok.mp h
  rw [Bool.not_eq_false] at hyes
  rw [hyes] at htr
  obtain ⟨market, hm, _, hlive, _⟩ := Registry.isTradeable_ok.mp htr
  exact ⟨market, hm, hlive⟩

/-- A pool trades only while the registry says that its market does. -/
theorem requireLive_tradeable {ctx : Ctx} {w : World} {pool : PoolData} {deadline : ℕ} {u : Unit}
    (h : requireLive ctx w pool deadline = .ok u) :
    Registry.isTradeable ctx w.registry pool.marketId = .ok true := by
  unfold requireLive requireMarketTradeable at h
  obtain ⟨_, _, h⟩ := bind_ok.mp h
  obtain ⟨_, _, h⟩ := bind_ok.mp h
  obtain ⟨_, _, h⟩ := bind_ok.mp h
  obtain ⟨called, hcall, h⟩ := bind_ok.mp h
  obtain ⟨tradeable, htr, h⟩ := bind_ok.mp h
  have hyes := refuse_ok.mp h
  rw [Bool.not_eq_false] at hyes
  obtain rfl := (Ctx.call_ok.mp hcall).2.2
  rw [hyes] at htr
  exact htr

/-- A purchase is made in a market that trades. -/
theorem buy_tradeable {ctx : Ctx} {w w' : World} {trader : Address} {poolId : ℕ}
    {amountIn minOut : ℤ} {deadline : ℕ} {yes : Bool} {parent : Option (MarketId × Outcome)}
    {out : ℤ}
    (h : buy ctx w trader poolId amountIn minOut deadline yes parent = .ok (out, w')) :
    ∃ pool, w.amm.pool poolId = some pool ∧
      Registry.isTradeable ctx w.registry pool.marketId = .ok true := by
  unfold buy at h
  obtain ⟨_, _, h⟩ := bind_ok.mp h
  obtain ⟨_, _, h⟩ := bind_ok.mp h
  obtain ⟨pool, hpool, h⟩ := bind_ok.mp h
  obtain ⟨_, hlive, _⟩ := bind_ok.mp h
  exact ⟨pool, orFault_ok.mp hpool, requireLive_tradeable hlive⟩

/-- A sale is made in a market that trades. -/
theorem sell_tradeable {ctx : Ctx} {w w' : World} {trader : Address} {poolId : ℕ}
    {amountIn minOut : ℤ} {deadline : ℕ} {yes : Bool} {netOut : ℤ}
    (h : sell ctx w trader poolId amountIn minOut deadline yes = .ok (netOut, w')) :
    ∃ pool, w.amm.pool poolId = some pool ∧
      Registry.isTradeable ctx w.registry pool.marketId = .ok true := by
  unfold sell at h
  obtain ⟨_, _, h⟩ := bind_ok.mp h
  obtain ⟨_, _, h⟩ := bind_ok.mp h
  obtain ⟨pool, hpool, h⟩ := bind_ok.mp h
  obtain ⟨_, hlive, _⟩ := bind_ok.mp h
  exact ⟨pool, orFault_ok.mp hpool, requireLive_tradeable hlive⟩

/-- A liquidation is made in a market that trades. -/
theorem liquidate_tradeable {ctx : Ctx} {w w' : World} {liquidator user : Address} {poolId : ℕ}
    {o : Outcome} {debtIn : MarketId → ℤ} {release : Release} {y : ℤ}
    (h : liquidate ctx w liquidator user poolId o debtIn release = .ok (y, w')) :
    ∃ pool, w.amm.pool poolId = some pool ∧
      Registry.isTradeable ctx w.registry pool.marketId = .ok true := by
  unfold liquidate at h
  obtain ⟨_, _, h⟩ := bind_ok.mp h
  obtain ⟨pool, hpool, h⟩ := bind_ok.mp h
  obtain ⟨_, hlive, _⟩ := bind_ok.mp h
  exact ⟨pool, orFault_ok.mp hpool, requireLive_tradeable hlive⟩

/-- The calls of a purchase: fund it, mint, book the fee, deliver the tokens. -/
theorem buy_steps {ctx : Ctx} {w w' : World} {trader : Address} {poolId : ℕ} {amountIn minOut : ℤ}
    {deadline : ℕ} {yes : Bool} {parent : Option (MarketId × Outcome)} {out : ℤ}
    (h : buy ctx w trader poolId amountIn minOut deadline yes parent = .ok (out, w')) :
    ∃ pool m fee netIn fees w1 w2 w3 w4 a,
      requireAuth ctx trader = .ok () ∧ 0 < amountIn ∧ w.amm.pool poolId = some pool ∧
      fee + netIn = amountIn ∧
      fundPurchase ctx w m trader pool.marketId (outcomeOf yes) amountIn out parent = .ok w1 ∧
      mintCompleteSet ctx w1 m pool.marketId netIn = .ok w2 ∧
      fees.lp + fees.treasury + fees.cod = fee ∧
      collectFee ctx w2 m pool.marketId fees = .ok w3 ∧
      transferPosition ctx w3 m (.contract .amm) trader pool.marketId (outcomeOf yes) out = .ok w4 ∧
      w' = { w4 with amm := a } := by
  unfold buy at h
  obtain ⟨_, hauth, h⟩ := bind_ok.mp h
  obtain ⟨_, hpos, h⟩ := bind_ok.mp h
  obtain ⟨pool, hpool, h⟩ := bind_ok.mp h
  obtain ⟨_, _, h⟩ := bind_ok.mp h
  obtain ⟨m, _, h⟩ := bind_ok.mp h
  obtain ⟨⟨fee, netIn⟩, hsplit, h⟩ := bind_ok.mp h
  obtain ⟨out', _, h⟩ := bind_ok.mp h
  obtain ⟨_, _, h⟩ := bind_ok.mp h
  obtain ⟨w1, h1, h⟩ := bind_ok.mp h
  obtain ⟨w2, h2, h⟩ := bind_ok.mp h
  obtain ⟨⟨fees, pool1⟩, hfees, h⟩ := bind_ok.mp h
  obtain ⟨w3, h3, h⟩ := bind_ok.mp h
  obtain ⟨pool2, hreserves, h⟩ := bind_ok.mp h
  obtain ⟨w4, h4, h⟩ := bind_ok.mp h
  obtain ⟨rfl, rfl⟩ := Prod.mk.inj (pure_ok.mp h)
  obtain ⟨hsum, hmarket⟩ := accrueFees_ok hfees
  have hmarket2 : pool2.marketId = pool1.marketId := by
    unfold boughtReserves at hreserves
    split at hreserves
    · obtain ⟨_, _, hreserves⟩ := bind_ok.mp hreserves
      obtain ⟨_, _, hreserves⟩ := bind_ok.mp hreserves
      obtain ⟨_, _, hreserves⟩ := bind_ok.mp hreserves
      rw [← pure_ok.mp hreserves]
    · obtain ⟨_, _, hreserves⟩ := bind_ok.mp hreserves
      obtain ⟨_, _, hreserves⟩ := bind_ok.mp hreserves
      obtain ⟨_, _, hreserves⟩ := bind_ok.mp hreserves
      rw [← pure_ok.mp hreserves]
  have hpos' := refuse_ok.mp hpos
  rw [hmarket] at h3
  rw [hmarket2, hmarket] at h4
  exact ⟨pool, m, fee, netIn, fees, w1, w2, w3, w4, _, hauth, by omega, orFault_ok.mp hpool,
    (splitFee_ok hsplit).2, h1, h2, hsum, h3, h4, rfl⟩

/-- The calls of a sale: take the tokens, merge, pay the seller, book the fee. -/
theorem sell_steps {ctx : Ctx} {w w' : World} {trader : Address} {poolId : ℕ} {amountIn minOut : ℤ}
    {deadline : ℕ} {yes : Bool} {netOut : ℤ}
    (h : sell ctx w trader poolId amountIn minOut deadline yes = .ok (netOut, w')) :
    ∃ pool m fee grossOut fees w1 w2 w3 w4 a,
      requireAuth ctx trader = .ok () ∧ w.amm.pool poolId = some pool ∧ fee + netOut = grossOut ∧
      fees.lp + fees.treasury + fees.cod = fee ∧
      transferPosition ctx w m trader (.contract .amm) pool.marketId (outcomeOf yes) amountIn =
        .ok w1 ∧
      mergePositions ctx w1 m pool.marketId grossOut = .ok w2 ∧
      Vault.releaseTradePayout (within ctx) w2 m.collateral trader pool.marketId (outcomeOf yes)
        amountIn netOut = .ok w3 ∧
      collectFee ctx w3 m pool.marketId fees = .ok w4 ∧ w' = { w4 with amm := a } := by
  unfold sell at h
  obtain ⟨_, hauth, h⟩ := bind_ok.mp h
  obtain ⟨_, _, h⟩ := bind_ok.mp h
  obtain ⟨pool, hpool, h⟩ := bind_ok.mp h
  obtain ⟨_, _, h⟩ := bind_ok.mp h
  obtain ⟨m, _, h⟩ := bind_ok.mp h
  obtain ⟨grossOut, _, h⟩ := bind_ok.mp h
  obtain ⟨⟨fee, netOut'⟩, hsplit, h⟩ := bind_ok.mp h
  obtain ⟨_, _, h⟩ := bind_ok.mp h
  obtain ⟨⟨fees, pool1⟩, hfees, h⟩ := bind_ok.mp h
  obtain ⟨w1, h1, h⟩ := bind_ok.mp h
  obtain ⟨w2, h2, h⟩ := bind_ok.mp h
  obtain ⟨called, hcall, h⟩ := bind_ok.mp h
  obtain ⟨w3, h3, h⟩ := bind_ok.mp h
  obtain ⟨w4, h4, h⟩ := bind_ok.mp h
  obtain ⟨pool2, _, h⟩ := bind_ok.mp h
  obtain ⟨rfl, rfl⟩ := Prod.mk.inj (pure_ok.mp h)
  obtain ⟨hsum, hmarket⟩ := accrueFees_ok hfees
  obtain rfl := (Ctx.call_ok.mp hcall).2.2
  rw [hmarket] at h1 h2 h3 h4
  exact ⟨pool, m, fee, grossOut, fees, w1, w2, w3, w4, _, hauth, orFault_ok.mp hpool,
    (splitFee_ok hsplit).2, hsum, h1, h2, h3, h4, rfl⟩

/-- The calls of a forced sale: move the whole balance, merge, book the fee. -/
theorem forceSell_steps {ctx : Ctx} {w w' : World} {poolId : ℕ} {user : Address} {yes : Bool}
    {sold netOut : ℤ} (h : forceSell ctx w poolId user yes = .ok (sold, netOut, w')) :
    ∃ pool m fee grossOut fees t w2 w3 a,
      w.amm.pool poolId = some pool ∧
      (∃ market, w.registry.market pool.marketId = some market ∧ market.status = .live) ∧
      sold = w.tokens.balance (pool.marketId, user, outcomeOf yes) ∧ 0 < sold ∧
      quoteSellOf pool yes sold = .ok grossOut ∧
      splitFee grossOut (w.amm.poolFee poolId).tradingFeeBps = .ok (fee, netOut) ∧
      fees.lp + fees.treasury + fees.cod = fee ∧
      Tokens.moveBalance w.tokens user (.contract .amm) pool.marketId (outcomeOf yes) sold = .ok t ∧
      mergePositions ctx { w with tokens := t } m pool.marketId grossOut = .ok w2 ∧
      collectFee ctx w2 m pool.marketId fees = .ok w3 ∧ w' = { w3 with amm := a } := by
  unfold forceSell at h
  obtain ⟨pool, hpool, h⟩ := bind_ok.mp h
  obtain ⟨_, hlive, h⟩ := bind_ok.mp h
  obtain ⟨m, _, h⟩ := bind_ok.mp h
  obtain ⟨called, _, h⟩ := bind_ok.mp h
  obtain ⟨_, hpos, h⟩ := bind_ok.mp h
  obtain ⟨grossOut, hgross, h⟩ := bind_ok.mp h
  obtain ⟨⟨fee, netOut'⟩, hsplit, h⟩ := bind_ok.mp h
  obtain ⟨⟨fees, pool1⟩, hfees, h⟩ := bind_ok.mp h
  obtain ⟨t, ht, h⟩ := bind_ok.mp h
  obtain ⟨w2, h2, h⟩ := bind_ok.mp h
  obtain ⟨w3, h3, h⟩ := bind_ok.mp h
  obtain ⟨pool2, _, h⟩ := bind_ok.mp h
  obtain ⟨rfl, hrest⟩ := Prod.mk.inj (pure_ok.mp h)
  obtain ⟨rfl, rfl⟩ := Prod.mk.inj hrest
  obtain ⟨hsum, hmarket⟩ := accrueFees_ok hfees
  have hpos' := refuse_ok.mp hpos
  rw [hmarket] at ht h2 h3
  exact ⟨pool, m, fee, grossOut, fees, t, w2, w3, _, orFault_ok.mp hpool, requireLive_ok hlive, rfl,
    by omega, hgross, hsplit, hsum, (Tokens.transferPositionForced_ok ht).2, h2, h3, rfl⟩

/-- What a pool pays for tokens after its fee. -/
def saleProceeds (a : AmmState) (pool : PoolData) (poolId : ℕ) (yes : Bool) (amountIn : ℤ) :
    Res ℤ := do
  let grossOut ← quoteSellOf pool yes amountIn
  let (_, netOut) ← splitFee grossOut (a.poolFee poolId).tradingFeeBps
  return netOut

/-- A quoted sale brings its net value. -/
theorem saleProceeds_ok {a : AmmState} {pool : PoolData} {poolId : ℕ} {yes : Bool}
    {x grossOut fee netOut : ℤ} (hgross : quoteSellOf pool yes x = .ok grossOut)
    (hsplit : splitFee grossOut (a.poolFee poolId).tradingFeeBps = .ok (fee, netOut)) :
    saleProceeds a pool poolId yes x = .ok netOut := by
  exact bind_ok.mpr ⟨grossOut, hgross, bind_ok.mpr ⟨(fee, netOut), hsplit, rfl⟩⟩

/-- Only a position in the invalid outcome is sold as another one. -/
theorem outcomeOf_decide {o : Outcome} (h : o ≠ .invalid) : outcomeOf (decide (o = .yes)) = o := by
  cases o with
  | yes => rfl
  | no => rfl
  | invalid => exact absurd rfl h

/-- The calls of a liquidation: check the debt, the balance and the threshold,
sell the whole position, settle in the vault. -/
theorem liquidate_steps {ctx : Ctx} {w w' : World} {liquidator user : Address} {poolId : ℕ}
    {o : Outcome} {debtIn : MarketId → ℤ} {release : Release} {y : ℤ}
    (h : liquidate ctx w liquidator user poolId o debtIn release = .ok (y, w')) :
    ∃ pool, ∃ m : Modules, ∃ fee grossOut netOut sold proceeds w1,
      requireAuth ctx liquidator = .ok () ∧ w.amm.pool poolId = some pool ∧
      debtIn pool.marketId ≠ 0 ∧ 0 < w.tokens.balance (pool.marketId, user, o) ∧
      quoteSellOf pool (decide (o = .yes)) (w.tokens.balance (pool.marketId, user, o)) =
        .ok grossOut ∧
      splitFee grossOut (w.amm.poolFee poolId).tradingFeeBps = .ok (fee, netOut) ∧
      netOut ≤ bpsOf (debtIn pool.marketId) liquidationThresholdBps ∧
      forceSell ctx w poolId user (decide (o = .yes)) = .ok (sold, proceeds, w1) ∧
      release (within ctx) w1 m.collateral pool.marketId sold proceeds = .ok (y, w') := by
  unfold liquidate at h
  obtain ⟨_, hauth, h⟩ := bind_ok.mp h
  obtain ⟨pool, hpool, h⟩ := bind_ok.mp h
  obtain ⟨_, _, h⟩ := bind_ok.mp h
  obtain ⟨m, _, h⟩ := bind_ok.mp h
  obtain ⟨called, hcall, h⟩ := bind_ok.mp h
  obtain ⟨_, hdebt, h⟩ := bind_ok.mp h
  obtain ⟨_, _, h⟩ := bind_ok.mp h
  obtain ⟨_, hbalance, h⟩ := bind_ok.mp h
  obtain ⟨grossOut, hgross, h⟩ := bind_ok.mp h
  obtain ⟨⟨fee, netOut⟩, hsplit, h⟩ := bind_ok.mp h
  obtain ⟨threshold, hthreshold, h⟩ := bind_ok.mp h
  obtain ⟨_, hdue, h⟩ := bind_ok.mp h
  obtain ⟨⟨sold, proceeds, w1⟩, hsell, h⟩ := bind_ok.mp h
  obtain rfl := (Ctx.call_ok.mp hcall).2.2
  have hbalance' := refuse_ok.mp hbalance
  have hdue' := refuse_ok.mp hdue
  have hthreshold' := (bps_ok.mp hthreshold).1
  exact ⟨pool, m, fee, grossOut, netOut, sold, proceeds, w1, hauth, orFault_ok.mp hpool,
    refuse_ok.mp hdebt, by omega, hgross, hsplit, by omega, hsell, h⟩

/-- The calls of a first deposit of liquidity. -/
theorem seedLiquidity_steps {ctx : Ctx} {w w' : World} {lp : Address} {poolId : ℕ} {x y : ℤ}
    (h : seedLiquidity ctx w lp poolId x = .ok (y, w')) :
    ∃ pool m w1 w2 a, w.amm.pool poolId = some pool ∧
      depositForMarket ctx w m lp pool.marketId x = .ok w1 ∧
      mintCompleteSet ctx w1 m pool.marketId x = .ok w2 ∧ w' = { w2 with amm := a } := by
  unfold seedLiquidity at h
  obtain ⟨_, _, h⟩ := bind_ok.mp h
  obtain ⟨_, _, h⟩ := bind_ok.mp h
  obtain ⟨m, _, h⟩ := bind_ok.mp h
  obtain ⟨pool, hpool, h⟩ := bind_ok.mp h
  obtain ⟨_, _, h⟩ := bind_ok.mp h
  obtain ⟨_, _, h⟩ := bind_ok.mp h
  obtain ⟨w1, h1, h⟩ := bind_ok.mp h
  obtain ⟨w2, h2, h⟩ := bind_ok.mp h
  obtain ⟨_, rfl⟩ := Prod.mk.inj (pure_ok.mp h)
  exact ⟨pool, m, w1, w2, _, orFault_ok.mp hpool, h1, h2, rfl⟩

/-- The calls of a further deposit of liquidity; fees earned so far are paid out. -/
theorem addLiquidity_steps {ctx : Ctx} {w w' : World} {lp : Address} {poolId : ℕ} {x y : ℤ}
    (h : addLiquidity ctx w lp poolId x = .ok (y, w')) :
    ∃ pool m pending w1 w2 a, w.amm.pool poolId = some pool ∧
      depositForMarket ctx w m lp pool.marketId x = .ok w1 ∧
      mintCompleteSet ctx w1 m pool.marketId x = .ok w2 ∧
      payLpFees ctx { w2 with amm := a } m pool.marketId lp pending = .ok w' := by
  unfold addLiquidity at h
  obtain ⟨_, _, h⟩ := bind_ok.mp h
  obtain ⟨_, _, h⟩ := bind_ok.mp h
  obtain ⟨m, _, h⟩ := bind_ok.mp h
  obtain ⟨pool, hpool, h⟩ := bind_ok.mp h
  obtain ⟨_, _, h⟩ := bind_ok.mp h
  obtain ⟨_, _, h⟩ := bind_ok.mp h
  obtain ⟨w1, h1, h⟩ := bind_ok.mp h
  obtain ⟨w2, h2, h⟩ := bind_ok.mp h
  obtain ⟨_, _, h⟩ := bind_ok.mp h
  obtain ⟨_, _, h⟩ := bind_ok.mp h
  obtain ⟨_, _, h⟩ := bind_ok.mp h
  obtain ⟨pending, _, h⟩ := bind_ok.mp h
  obtain ⟨_, _, h⟩ := bind_ok.mp h
  obtain ⟨_, _, h⟩ := bind_ok.mp h
  obtain ⟨_, _, h⟩ := bind_ok.mp h
  obtain ⟨_, _, h⟩ := bind_ok.mp h
  obtain ⟨w3, h3, h⟩ := bind_ok.mp h
  obtain ⟨_, rfl⟩ := Prod.mk.inj (pure_ok.mp h)
  exact ⟨pool, m, pending, w1, w2, _, orFault_ok.mp hpool, h1, h2, h3⟩

/-- The calls of a withdrawal of liquidity: pay the fees, deliver both outcomes. -/
theorem removeLiquidity_steps {ctx : Ctx} {w w' : World} {lp : Address} {poolId : ℕ}
    {shares yesOut noOut : ℤ}
    (h : removeLiquidity ctx w lp poolId shares = .ok (yesOut, noOut, w')) :
    ∃ pool m pending w1 w2 a, w.amm.pool poolId = some pool ∧
      payLpFees ctx { w with amm := a } m pool.marketId lp pending = .ok w1 ∧
      transferPosition ctx w1 m (.contract .amm) lp pool.marketId .yes yesOut = .ok w2 ∧
      transferPosition ctx w2 m (.contract .amm) lp pool.marketId .no noOut = .ok w' := by
  unfold removeLiquidity at h
  obtain ⟨_, _, h⟩ := bind_ok.mp h
  obtain ⟨_, _, h⟩ := bind_ok.mp h
  obtain ⟨m, _, h⟩ := bind_ok.mp h
  obtain ⟨pool, hpool, h⟩ := bind_ok.mp h
  obtain ⟨_, _, h⟩ := bind_ok.mp h
  obtain ⟨_, _, h⟩ := bind_ok.mp h
  obtain ⟨pending, _, h⟩ := bind_ok.mp h
  obtain ⟨yes', _, h⟩ := bind_ok.mp h
  obtain ⟨no', _, h⟩ := bind_ok.mp h
  obtain ⟨_, _, h⟩ := bind_ok.mp h
  obtain ⟨_, _, h⟩ := bind_ok.mp h
  obtain ⟨_, _, h⟩ := bind_ok.mp h
  obtain ⟨_, _, h⟩ := bind_ok.mp h
  obtain ⟨w1, h1, h⟩ := bind_ok.mp h
  obtain ⟨w2, h2, h⟩ := bind_ok.mp h
  obtain ⟨w3, h3, h⟩ := bind_ok.mp h
  obtain ⟨rfl, hrest⟩ := Prod.mk.inj (pure_ok.mp h)
  obtain ⟨rfl, rfl⟩ := Prod.mk.inj hrest
  exact ⟨pool, m, pending, w1, w2, _, orFault_ok.mp hpool, h1, h2, h3⟩

/-- The call of a claim of fees. -/
theorem claimLpFees_steps {ctx : Ctx} {w w' : World} {lp : Address} {poolId : ℕ} {y : ℤ}
    (h : claimLpFees ctx w lp poolId = .ok (y, w')) :
    ∃ pool m a, w.amm.pool poolId = some pool ∧
      (w' = w ∨ payLpFees ctx { w with amm := a } m pool.marketId lp y = .ok w') := by
  unfold claimLpFees at h
  obtain ⟨_, _, h⟩ := bind_ok.mp h
  obtain ⟨pool, hpool, h⟩ := bind_ok.mp h
  obtain ⟨_, _, h⟩ := bind_ok.mp h
  obtain ⟨owed, _, h⟩ := bind_ok.mp h
  split at h
  · obtain ⟨_, rfl⟩ := Prod.mk.inj (pure_ok.mp h)
    exact ⟨pool, ⟨.contract .vault, .contract .tokens, ⟨0⟩, .contract .registry⟩, w.amm,
      orFault_ok.mp hpool, Or.inl rfl⟩
  · obtain ⟨m, _, h⟩ := bind_ok.mp h
    obtain ⟨w1, h1, h⟩ := bind_ok.mp h
    obtain ⟨rfl, rfl⟩ := Prod.mk.inj (pure_ok.mp h)
    exact ⟨pool, m, _, orFault_ok.mp hpool, Or.inr h1⟩

end DikeProtocol.Amm
