import DikeProtocol.Vault.Entry

/-!
# Entry points of the automated market maker

Pools of complete sets, trades on cash and on child credit, and the forced
sales of liquidations. A trade moves collateral through the vault and outcome
tokens through the conditional tokens in the order of the source.
-/

namespace DikeProtocol.Amm

open Lib

/-- Scale of the fees earned by one liquidity share. -/
def feeScale : ℤ := 1000000000000000000

/-- Sale value, relative to the debt, at which a position may be liquidated. -/
def liquidationThresholdBps : ℕ := 10500

/-- The modules the market maker works with. -/
structure Modules where
  vault : Address
  tokens : Address
  collateral : Asset
  registry : Address

/-- All four modules must have been stored. -/
def modules (a : AmmState) : Res Modules := do
  let vault ← orFault a.vault (.error .notInitialized)
  let tokens ← orFault a.tokens (.error .notInitialized)
  let collateral ← orFault a.collateral (.error .notInitialized)
  let registry ← orFault a.registry (.error .notInitialized)
  return { vault := vault, tokens := tokens, collateral := collateral, registry := registry }

/-- Read a pool that must exist. -/
def readPool (a : AmmState) (poolId : ℕ) : Res PoolData :=
  orFault (a.pool poolId) (.error .poolNotFound)

/-- Store a pool under its own identifier. -/
def writePool (a : AmmState) (pool : PoolData) : AmmState :=
  { a with pool := a.pool.set pool.id (some pool) }

/-- Ask the registry whether a market trades. -/
def requireMarketTradeable (ctx : Ctx) (w : World) (marketId : MarketId) : Res Unit := do
  let registry ← orFault w.amm.registry (.error .notInitialized)
  let called ← ctx.call .amm registry .registry
  let tradeable ← Registry.isTradeable called w.registry marketId
  refuse (tradeable = false) (.error .invalidStatus)

/-- A pool trades while nothing is paused, the deadline holds and its market trades. -/
def requireLive (ctx : Ctx) (w : World) (pool : PoolData) (deadline : ℕ) : Res Unit := do
  refuse (w.amm.paused = true ∨ pool.live = false) (.error .invalidStatus)
  refuse (ctx.now > deadline) (.error .deadlineExpired)
  requireMarketTradeable ctx w pool.marketId

/-- Ask the registry for a market. -/
def marketData (ctx : Ctx) (w : World) (marketId : MarketId) : Res MarketData := do
  let registry ← orFault w.amm.registry (.error .notInitialized)
  let _ ← ctx.call .amm registry .registry
  Registry.getMarket w.registry marketId

/-- Liquidity leaves a trading market, a cancelled one, or a resolved one. -/
def requireMarketLiquidityRemovable (ctx : Ctx) (w : World) (marketId : MarketId) : Res Unit := do
  let market ← marketData ctx w marketId
  match market.status with
  | .live =>
    refuse (market.hasFinalOutcome = true ∨ ctx.now ≥ market.expiry) (.error .invalidStatus)
  | .cancelled => refuse (market.hasFinalOutcome = true) (.error .invalidStatus)
  | .resolved => .ok ()
  | _ => .error (.error .invalidStatus)

/-- A pool is seeded while its market is new or trading. -/
def requireMarketSeedable (ctx : Ctx) (w : World) (marketId : MarketId) : Res Unit := do
  let market ← marketData ctx w marketId
  refuse (ctx.now ≥ market.expiry ∨ (market.status ≠ .created ∧ market.status ≠ .live) ∨
    market.hasFinalOutcome = true) (.error .invalidStatus)

/-- The parts of a trading fee. -/
structure FeeParts where
  lp : ℤ
  treasury : ℤ
  cod : ℤ

/-- Split a trading fee and book it in the pool; liquidity shares earn their part. -/
def accrueFees (pool : PoolData) (feeConfig : FeeConfig) (totalFee : ℤ) :
    Res (FeeParts × PoolData) := do
  let lpFee ← bps totalFee feeConfig.lpFeeShareBps
  let treasuryFee ← bps totalFee feeConfig.treasuryFeeShareBps
  let rest ← checkedSub totalFee lpFee
  let codFee ← checkedSub rest treasuryFee
  let accumulatedLpFees ← checkedAdd pool.accumulatedLpFees lpFee
  let accumulatedProtocolFees ← checkedAdd pool.accumulatedProtocolFees treasuryFee
  let accumulatedCodFees ← checkedAdd pool.accumulatedCodFees codFee
  let feePerShareScaled ← (if pool.totalLpShares > 0 ∧ lpFee > 0 then do
      let scaled ← checkedMul lpFee feeScale
      let delta ← checkedDiv scaled pool.totalLpShares
      checkedAdd pool.feePerShareScaled delta
    else .ok pool.feePerShareScaled)
  return ({ lp := lpFee, treasury := treasuryFee, cod := codFee },
    { pool with
      accumulatedLpFees := accumulatedLpFees
      accumulatedProtocolFees := accumulatedProtocolFees
      accumulatedCodFees := accumulatedCodFees
      feePerShareScaled := feePerShareScaled })

/-- Fees a provider earned since the last checkpoint. -/
def computeLpFeesOwed (a : AmmState) (poolId : ℕ) (lp : Address) (pool : PoolData) (lpShares : ℤ) :
    Res ℤ := do
  let delta ← checkedSub pool.feePerShareScaled (a.lpFeeCheckpoint (poolId, lp))
  if delta ≤ 0 ∨ lpShares ≤ 0 then
    return 0
  else
    let earned ← checkedMul lpShares delta
    checkedDiv earned feeScale

/-- The outcome a trade is about. -/
def outcomeOf (yes : Bool) : Outcome := if yes = true then .yes else .no

/-- Tokens a pool gives for net collateral. -/
def quoteBuyOf (pool : PoolData) (yes : Bool) (netIn : ℤ) : Res ℤ :=
  if yes = true then quoteBuyCompleteSet pool.yesReserve pool.noReserve netIn
  else quoteBuyCompleteSet pool.noReserve pool.yesReserve netIn

/-- Collateral a pool gives for tokens, before the fee. -/
def quoteSellOf (pool : PoolData) (yes : Bool) (amountIn : ℤ) : Res ℤ :=
  if yes = true then quoteSell pool.yesReserve pool.noReserve amountIn
  else quoteSell pool.noReserve pool.yesReserve amountIn

/-- Quote of a purchase. -/
def quoteBuySide (a : AmmState) (poolId : ℕ) (amountIn : ℤ) (yes : Bool) : Res TradeQuote := do
  refuse (amountIn ≤ 0) (.error .invalidAmount)
  let pool ← readPool a poolId
  let (fee, netIn) ← splitFee amountIn (a.poolFee poolId).tradingFeeBps
  let amountOut ← quoteBuyOf pool yes netIn
  let price ← averagePriceBps amountIn amountOut
  return { amountIn := amountIn, fee := fee, netIn := netIn, amountOut := amountOut,
           averagePriceBps := price }

/-- Quote of a sale. -/
def quoteSellSide (a : AmmState) (poolId : ℕ) (amountIn : ℤ) (yes : Bool) : Res TradeQuote := do
  refuse (amountIn ≤ 0) (.error .invalidAmount)
  let pool ← readPool a poolId
  let grossOut ← quoteSellOf pool yes amountIn
  let (fee, netIn) ← splitFee grossOut (a.poolFee poolId).tradingFeeBps
  let price ← averagePriceBps netIn amountIn
  return { amountIn := amountIn, fee := fee, netIn := netIn, amountOut := netIn,
           averagePriceBps := price }

/-- Reserves after a purchase: complete sets come in, tokens of one outcome leave. -/
def boughtReserves (pool : PoolData) (yes : Bool) (netIn out : ℤ) : Res PoolData :=
  if yes = true then do
    let minted ← checkedAdd pool.yesReserve netIn
    let yesReserve ← checkedSub minted out
    let noReserve ← checkedAdd pool.noReserve netIn
    return { pool with yesReserve := yesReserve, noReserve := noReserve }
  else do
    let minted ← checkedAdd pool.noReserve netIn
    let noReserve ← checkedSub minted out
    let yesReserve ← checkedAdd pool.yesReserve netIn
    return { pool with yesReserve := yesReserve, noReserve := noReserve }

/-- Reserves after a sale: tokens of one outcome come in, complete sets leave. -/
def soldReserves (pool : PoolData) (yes : Bool) (amountIn grossOut : ℤ) : Res PoolData :=
  if yes = true then do
    let held ← checkedAdd pool.yesReserve amountIn
    let yesReserve ← checkedSub held grossOut
    let noReserve ← checkedSub pool.noReserve grossOut
    return { pool with yesReserve := yesReserve, noReserve := noReserve }
  else do
    let held ← checkedAdd pool.noReserve amountIn
    let noReserve ← checkedSub held grossOut
    let yesReserve ← checkedSub pool.yesReserve grossOut
    return { pool with yesReserve := yesReserve, noReserve := noReserve }

/-- The vault takes a user's deposit. -/
def depositForMarket (ctx : Ctx) (w : World) (m : Modules) (user : Address) (marketId : MarketId)
    (amount : ℤ) : Res World := do
  let called ← ctx.call .amm m.vault .vault
  Vault.depositForMarket called w m.collateral user marketId amount

/-- The tokens mint complete sets to the market maker. -/
def mintCompleteSet (ctx : Ctx) (w : World) (m : Modules) (marketId : MarketId) (amount : ℤ) :
    Res World := do
  let called ← ctx.call .amm m.tokens .tokens
  let t ← Tokens.mintCompleteSet called w.tokens (.contract .amm) marketId amount
  return { w with tokens := t }

/-- The tokens merge complete sets of the market maker. -/
def mergePositions (ctx : Ctx) (w : World) (m : Modules) (marketId : MarketId) (amount : ℤ) :
    Res World := do
  let called ← ctx.call .amm m.tokens .tokens
  let t ← Tokens.mergePositions called w.tokens (.contract .amm) marketId amount
  return { w with tokens := t }

/-- The tokens move a position. -/
def transferPosition (ctx : Ctx) (w : World) (m : Modules) (sender recipient : Address)
    (marketId : MarketId) (outcome : Outcome) (amount : ℤ) : Res World := do
  let called ← ctx.call .amm m.tokens .tokens
  Tokens.transferPosition called w sender recipient marketId outcome amount

/-- The vault books the parts of a fee. -/
def collectFee (ctx : Ctx) (w : World) (m : Modules) (marketId : MarketId) (fees : FeeParts) :
    Res World := do
  let called ← ctx.call .amm m.vault .vault
  Vault.collectFee called w marketId fees.lp fees.treasury fees.cod

/-- The vault pays a provider's fees when there are any. -/
def payLpFees (ctx : Ctx) (w : World) (m : Modules) (marketId : MarketId) (lp : Address)
    (pending : ℤ) : Res World :=
  if pending > 0 then do
    let called ← ctx.call .amm m.vault .vault
    Vault.claimLpFees called w m.collateral marketId lp pending
  else .ok w

/-- How a purchase is paid for: on credit of a parent stake, or in cash. -/
def fundPurchase (ctx : Ctx) (w : World) (m : Modules) (trader : Address) (marketId : MarketId)
    (outcome : Outcome) (amountIn out : ℤ) : Option (MarketId × Outcome) → Res World
  | some (parentMarketId, parentOutcome) => do
    let called ← ctx.call .amm m.vault .vault
    Vault.openChildCreditForTrade called w trader parentMarketId parentOutcome marketId outcome
      amountIn
  | none => do
    let w ← depositForMarket ctx w m trader marketId amountIn
    let called ← ctx.call .amm m.vault .vault
    Vault.recordCashStake called w trader marketId outcome amountIn out

/-- A purchase of outcome tokens. -/
def buy (ctx : Ctx) (w : World) (trader : Address) (poolId : ℕ) (amountIn minOut : ℤ)
    (deadline : ℕ) (yes : Bool) (parent : Option (MarketId × Outcome)) : Res (ℤ × World) := do
  requireAuth ctx trader
  refuse (amountIn ≤ 0) (.error .invalidAmount)
  let pool ← readPool w.amm poolId
  requireLive ctx w pool deadline
  let m ← modules w.amm
  let feeConfig := w.amm.poolFee poolId
  let (fee, netIn) ← splitFee amountIn feeConfig.tradingFeeBps
  let out ← quoteBuyOf pool yes netIn
  refuse (out < minOut) (.error .slippageExceeded)
  let w ← fundPurchase ctx w m trader pool.marketId (outcomeOf yes) amountIn out parent
  let w ← mintCompleteSet ctx w m pool.marketId netIn
  let (fees, pool) ← accrueFees pool feeConfig fee
  let w ← collectFee ctx w m pool.marketId fees
  let pool ← boughtReserves pool yes netIn out
  let w ← transferPosition ctx w m (.contract .amm) trader pool.marketId (outcomeOf yes) out
  return (out, { w with amm := writePool w.amm pool })

/-- A sale of outcome tokens. -/
def sell (ctx : Ctx) (w : World) (trader : Address) (poolId : ℕ) (amountIn minOut : ℤ)
    (deadline : ℕ) (yes : Bool) : Res (ℤ × World) := do
  requireAuth ctx trader
  refuse (amountIn ≤ 0) (.error .invalidAmount)
  let pool ← readPool w.amm poolId
  requireLive ctx w pool deadline
  let m ← modules w.amm
  let feeConfig := w.amm.poolFee poolId
  let grossOut ← quoteSellOf pool yes amountIn
  let (fee, netOut) ← splitFee grossOut feeConfig.tradingFeeBps
  refuse (netOut < minOut) (.error .slippageExceeded)
  let (fees, pool) ← accrueFees pool feeConfig fee
  let w ← transferPosition ctx w m trader (.contract .amm) pool.marketId (outcomeOf yes) amountIn
  let w ← mergePositions ctx w m pool.marketId grossOut
  let called ← ctx.call .amm m.vault .vault
  let w ← Vault.releaseTradePayout called w m.collateral trader pool.marketId (outcomeOf yes)
    amountIn netOut
  let w ← collectFee ctx w m pool.marketId fees
  let pool ← soldReserves pool yes amountIn grossOut
  return (netOut, { w with amm := writePool w.amm pool })

/-- Sell a user's whole balance of an outcome without asking the user. The
proceeds stay in the vault. Returns what was sold and its net value. -/
def forceSell (ctx : Ctx) (w : World) (poolId : ℕ) (user : Address) (yes : Bool) :
    Res (ℤ × ℤ × World) := do
  let pool ← readPool w.amm poolId
  requireLive ctx w pool ctx.now
  let m ← modules w.amm
  let called ← ctx.call .amm m.tokens .tokens
  let amountIn := w.tokens.balance (pool.marketId, user, outcomeOf yes)
  refuse (amountIn ≤ 0) (.error .insufficientBalance)
  let feeConfig := w.amm.poolFee poolId
  let grossOut ← quoteSellOf pool yes amountIn
  let (fee, netOut) ← splitFee grossOut feeConfig.tradingFeeBps
  let (fees, pool) ← accrueFees pool feeConfig fee
  let t ← Tokens.transferPositionForced called w.tokens user (.contract .amm) pool.marketId
    (outcomeOf yes) amountIn
  let w ← mergePositions ctx { w with tokens := t } m pool.marketId grossOut
  let w ← collectFee ctx w m pool.marketId fees
  let pool ← soldReserves pool yes amountIn grossOut
  return (amountIn, netOut, { w with amm := writePool w.amm pool })

/-- The administrator hands over to another address. -/
def setAdmin (ctx : Ctx) (w : World) (admin : Address) : Res World := do
  requireAuth ctx w.amm.admin
  return { w with amm := { w.amm with admin := admin } }

/-- The administrator stores the module of a role. -/
def setRole (ctx : Ctx) (w : World) (role : Role) (module : Address) : Res World := do
  requireAuth ctx w.amm.admin
  return { w with amm := { w.amm with roles := w.amm.roles.set role (some module) } }

/-- The administrator stores the modules of the market maker. -/
def setModules (ctx : Ctx) (w : World) (vault tokens : Address) (collateral : Asset)
    (registry : Address) : Res World := do
  requireAuth ctx w.amm.admin
  return { w with amm := { w.amm with
    vault := some vault
    tokens := some tokens
    collateral := some collateral
    registry := some registry } }

/-- Governance stops or resumes trading. -/
def pause (ctx : Ctx) (w : World) (paused : Bool) : Res World := do
  requireRole ctx w.amm.roles .gov
  return { w with amm := { w.amm with paused := paused } }

/-- A pool nobody has seeded yet. -/
def freshPool (poolId : ℕ) (marketId : MarketId) : PoolData where
  id := poolId
  marketId := marketId
  yesReserve := 0
  noReserve := 0
  totalLpShares := 0
  accumulatedLpFees := 0
  accumulatedProtocolFees := 0
  accumulatedCodFees := 0
  live := false
  feePerShareScaled := 0

/-- The factory creates the pool of a market. -/
def createPool (ctx : Ctx) (w : World) (marketId : MarketId) (feeConfig : FeeConfig) :
    Res (ℕ × World) := do
  requireRole ctx w.amm.roles .factory
  validateFeeConfig feeConfig
  let poolId := w.amm.nextPoolId
  let a := writePool w.amm (freshPool poolId marketId)
  let a := { a with poolFee := a.poolFee.set poolId feeConfig }
  let nextPoolId ← checkedAddU64 poolId 1
  return (poolId, { w with amm := { a with nextPoolId := nextPoolId } })

/-- A provider's shares and fee checkpoint. -/
def writeLp (a : AmmState) (poolId : ℕ) (lp : Address) (shares checkpoint : ℤ) : AmmState :=
  { a with
    lpBalance := a.lpBalance.set (poolId, lp) shares
    lpFeeCheckpoint := a.lpFeeCheckpoint.set (poolId, lp) checkpoint }

/-- The first provider fills an empty pool. -/
def seedLiquidity (ctx : Ctx) (w : World) (lp : Address) (poolId : ℕ) (amount : ℤ) :
    Res (ℤ × World) := do
  requireAuth ctx lp
  refuse (amount ≤ 0) (.error .invalidAmount)
  let m ← modules w.amm
  let pool ← readPool w.amm poolId
  requireMarketSeedable ctx w pool.marketId
  refuse (pool.totalLpShares ≠ 0) (.error .invalidStatus)
  let w ← depositForMarket ctx w m lp pool.marketId amount
  let w ← mintCompleteSet ctx w m pool.marketId amount
  let pool := { pool with
    yesReserve := amount
    noReserve := amount
    totalLpShares := amount
    live := true }
  return (amount,
    { w with amm := writeLp (writePool w.amm pool) poolId lp amount pool.feePerShareScaled })

/-- A provider adds liquidity to a running pool. -/
def addLiquidity (ctx : Ctx) (w : World) (lp : Address) (poolId : ℕ) (amount : ℤ) :
    Res (ℤ × World) := do
  requireAuth ctx lp
  refuse (amount ≤ 0) (.error .invalidAmount)
  let m ← modules w.amm
  let pool ← readPool w.amm poolId
  requireMarketTradeable ctx w pool.marketId
  refuse (pool.live = false ∨ pool.totalLpShares ≤ 0 ∨ pool.yesReserve ≤ 0 ∨ pool.noReserve ≤ 0)
    (.error .invalidStatus)
  let w ← depositForMarket ctx w m lp pool.marketId amount
  let w ← mintCompleteSet ctx w m pool.marketId amount
  let yesShares ← proportional pool.totalLpShares amount pool.yesReserve
  let noShares ← proportional pool.totalLpShares amount pool.noReserve
  let shares := min yesShares noShares
  refuse (shares ≤ 0) (.error .invalidAmount)
  let current := w.amm.lpBalance (poolId, lp)
  let pending ← computeLpFeesOwed w.amm poolId lp pool current
  let yesReserve ← checkedAdd pool.yesReserve amount
  let noReserve ← checkedAdd pool.noReserve amount
  let totalLpShares ← checkedAdd pool.totalLpShares shares
  let pool := { pool with
    yesReserve := yesReserve
    noReserve := noReserve
    totalLpShares := totalLpShares }
  let held ← checkedAdd current shares
  let w := { w with
    amm := writeLp (writePool w.amm pool) poolId lp held pool.feePerShareScaled }
  let w ← payLpFees ctx w m pool.marketId lp pending
  return (shares, w)

/-- A provider takes a share of both reserves out. -/
def removeLiquidity (ctx : Ctx) (w : World) (lp : Address) (poolId : ℕ) (shares : ℤ) :
    Res (ℤ × ℤ × World) := do
  requireAuth ctx lp
  refuse (shares ≤ 0) (.error .invalidAmount)
  let m ← modules w.amm
  let pool ← readPool w.amm poolId
  requireMarketLiquidityRemovable ctx w pool.marketId
  let current := w.amm.lpBalance (poolId, lp)
  refuse (current < shares ∨ pool.totalLpShares < shares) (.error .insufficientBalance)
  let pending ← computeLpFeesOwed w.amm poolId lp pool current
  let yesOut ← proportional pool.yesReserve shares pool.totalLpShares
  let noOut ← proportional pool.noReserve shares pool.totalLpShares
  let yesReserve ← checkedSub pool.yesReserve yesOut
  let noReserve ← checkedSub pool.noReserve noOut
  let totalLpShares ← checkedSub pool.totalLpShares shares
  let pool := { pool with
    yesReserve := yesReserve
    noReserve := noReserve
    totalLpShares := totalLpShares }
  let remaining ← checkedSub current shares
  let w := { w with
    amm := writeLp (writePool w.amm pool) poolId lp remaining pool.feePerShareScaled }
  let w ← payLpFees ctx w m pool.marketId lp pending
  let w ← transferPosition ctx w m (.contract .amm) lp pool.marketId .yes yesOut
  let w ← transferPosition ctx w m (.contract .amm) lp pool.marketId .no noOut
  return (yesOut, noOut, w)

/-- A provider claims the fees earned so far. -/
def claimLpFees (ctx : Ctx) (w : World) (lp : Address) (poolId : ℕ) : Res (ℤ × World) := do
  requireAuth ctx lp
  let pool ← readPool w.amm poolId
  let lpShares := w.amm.lpBalance (poolId, lp)
  refuse (lpShares ≤ 0) (.error .insufficientBalance)
  let owed ← computeLpFeesOwed w.amm poolId lp pool lpShares
  if owed ≤ 0 then
    return (0, w)
  else
    let a := { w.amm with
      lpFeeCheckpoint := w.amm.lpFeeCheckpoint.set (poolId, lp) pool.feePerShareScaled }
    let m ← modules w.amm
    let w ← payLpFees ctx { w with amm := a } m pool.marketId lp owed
    return (owed, w)

/-- Buy YES in cash. -/
def buyYes (ctx : Ctx) (w : World) (trader : Address) (poolId : ℕ) (amountIn minOut : ℤ)
    (deadline : ℕ) : Res (ℤ × World) :=
  buy ctx w trader poolId amountIn minOut deadline true none

/-- Buy NO in cash. -/
def buyNo (ctx : Ctx) (w : World) (trader : Address) (poolId : ℕ) (amountIn minOut : ℤ)
    (deadline : ℕ) : Res (ℤ × World) :=
  buy ctx w trader poolId amountIn minOut deadline false none

/-- Buy YES on credit of a parent stake. -/
def buyChildYes (ctx : Ctx) (w : World) (trader : Address) (parentMarketId : MarketId)
    (parentOutcome : Outcome) (poolId : ℕ) (amountIn minOut : ℤ) (deadline : ℕ) : Res (ℤ × World) :=
  buy ctx w trader poolId amountIn minOut deadline true (some (parentMarketId, parentOutcome))

/-- Buy NO on credit of a parent stake. -/
def buyChildNo (ctx : Ctx) (w : World) (trader : Address) (parentMarketId : MarketId)
    (parentOutcome : Outcome) (poolId : ℕ) (amountIn minOut : ℤ) (deadline : ℕ) : Res (ℤ × World) :=
  buy ctx w trader poolId amountIn minOut deadline false (some (parentMarketId, parentOutcome))

/-- Sell YES. -/
def sellYes (ctx : Ctx) (w : World) (trader : Address) (poolId : ℕ) (amountIn minOut : ℤ)
    (deadline : ℕ) : Res (ℤ × World) :=
  sell ctx w trader poolId amountIn minOut deadline true

/-- Sell NO. -/
def sellNo (ctx : Ctx) (w : World) (trader : Address) (poolId : ℕ) (amountIn minOut : ℤ)
    (deadline : ℕ) : Res (ℤ × World) :=
  sell ctx w trader poolId amountIn minOut deadline false

/-- How the vault settles a liquidated position: the collateral, the market,
what was sold and what it brought. -/
abbrev Release := Ctx → World → Asset → MarketId → ℤ → ℤ → Res (ℤ × World)

/-- Close a position whose sale value fell to its debt's threshold. The debt is
read from the vault; selling and settling follow once the sale is due. -/
def liquidate (ctx : Ctx) (w : World) (liquidator user : Address) (poolId : ℕ) (outcome : Outcome)
    (debtIn : MarketId → ℤ) (release : Release) : Res (ℤ × World) := do
  requireAuth ctx liquidator
  let pool ← readPool w.amm poolId
  requireLive ctx w pool ctx.now
  let m ← modules w.amm
  let called ← ctx.call .amm m.vault .vault
  let debt := debtIn pool.marketId
  refuse (debt = 0) (.error .invalidInput)
  let yes := decide (outcome = .yes)
  let _ ← ctx.call .amm m.tokens .tokens
  let balance := w.tokens.balance (pool.marketId, user, outcome)
  refuse (balance ≤ 0) (.error .insufficientBalance)
  let grossOut ← quoteSellOf pool yes balance
  let (_, netOut) ← splitFee grossOut (w.amm.poolFee poolId).tradingFeeBps
  let threshold ← bps debt liquidationThresholdBps
  refuse (netOut > threshold) (.error .notLiquidatable)
  let (tokensSold, proceeds, w) ← forceSell ctx w poolId user yes
  release called w m.collateral pool.marketId tokensSold proceeds

/-- Close a parent position that backs child credit. -/
def liquidatePosition (ctx : Ctx) (w : World) (liquidator user : Address) (parentPoolId : ℕ)
    (parentOutcome : Outcome) : Res (ℤ × World) :=
  liquidate ctx w liquidator user parentPoolId parentOutcome
    (fun marketId => w.vault.childUsedByOutcome (marketId, user, parentOutcome))
    (fun called w collateral marketId tokensSold proceeds =>
      Vault.liquidateRelease called w collateral user liquidator marketId parentOutcome tokensSold
        proceeds)

/-- Close a child position bought on credit. -/
def liquidateChildPosition (ctx : Ctx) (w : World) (liquidator user : Address) (childPoolId : ℕ)
    (childOutcome : Outcome) : Res (ℤ × World) :=
  liquidate ctx w liquidator user childPoolId childOutcome
    (fun marketId => w.vault.childDebt (marketId, user))
    (fun called w collateral marketId tokensSold proceeds =>
      Vault.liquidateChildRelease called w collateral user liquidator marketId childOutcome
        tokensSold proceeds)

/-- An invocation of the market maker. -/
inductive AmmOp where
  | setAdmin (admin : Address)
  | upgrade (wasmHash : Hash)
  | setRole (role : Role) (module : Address)
  | setModules (vault tokens : Address) (collateral : Asset) (registry : Address)
  | pause (paused : Bool)
  | createPool (marketId : MarketId) (feeConfig : FeeConfig)
  | seedLiquidity (lp : Address) (poolId : ℕ) (amount : ℤ)
  | addLiquidity (lp : Address) (poolId : ℕ) (amount : ℤ)
  | removeLiquidity (lp : Address) (poolId : ℕ) (shares : ℤ)
  | claimLpFees (lp : Address) (poolId : ℕ)
  | buyYes (trader : Address) (poolId : ℕ) (amountIn minOut : ℤ) (deadline : ℕ)
  | buyNo (trader : Address) (poolId : ℕ) (amountIn minOut : ℤ) (deadline : ℕ)
  | buyChildYes (trader : Address) (parentMarketId : MarketId) (parentOutcome : Outcome)
      (poolId : ℕ) (amountIn minOut : ℤ) (deadline : ℕ)
  | buyChildNo (trader : Address) (parentMarketId : MarketId) (parentOutcome : Outcome)
      (poolId : ℕ) (amountIn minOut : ℤ) (deadline : ℕ)
  | sellYes (trader : Address) (poolId : ℕ) (amountIn minOut : ℤ) (deadline : ℕ)
  | sellNo (trader : Address) (poolId : ℕ) (amountIn minOut : ℤ) (deadline : ℕ)
  | liquidatePosition (liquidator user : Address) (parentPoolId : ℕ) (parentOutcome : Outcome)
  | liquidateChildPosition (liquidator user : Address) (childPoolId : ℕ) (childOutcome : Outcome)

/-- Execute an invocation. Replacing the code is only its authorization here. -/
def AmmOp.exec (ctx : Ctx) (w : World) : AmmOp → Res World
  | setAdmin admin => Amm.setAdmin ctx w admin
  | upgrade _ => do
    requireAuth ctx w.amm.admin
    return w
  | setRole role module => Amm.setRole ctx w role module
  | setModules vault tokens collateral registry =>
    Amm.setModules ctx w vault tokens collateral registry
  | pause paused => Amm.pause ctx w paused
  | createPool marketId feeConfig => world (Amm.createPool ctx w marketId feeConfig)
  | seedLiquidity lp poolId amount => world (Amm.seedLiquidity ctx w lp poolId amount)
  | addLiquidity lp poolId amount => world (Amm.addLiquidity ctx w lp poolId amount)
  | removeLiquidity lp poolId shares => do
    let (_, _, w) ← Amm.removeLiquidity ctx w lp poolId shares
    return w
  | claimLpFees lp poolId => world (Amm.claimLpFees ctx w lp poolId)
  | buyYes trader poolId amountIn minOut deadline =>
    world (Amm.buyYes ctx w trader poolId amountIn minOut deadline)
  | buyNo trader poolId amountIn minOut deadline =>
    world (Amm.buyNo ctx w trader poolId amountIn minOut deadline)
  | buyChildYes trader parentMarketId parentOutcome poolId amountIn minOut deadline =>
    world
      (Amm.buyChildYes ctx w trader parentMarketId parentOutcome poolId amountIn minOut deadline)
  | buyChildNo trader parentMarketId parentOutcome poolId amountIn minOut deadline =>
    world (Amm.buyChildNo ctx w trader parentMarketId parentOutcome poolId amountIn minOut deadline)
  | sellYes trader poolId amountIn minOut deadline =>
    world (Amm.sellYes ctx w trader poolId amountIn minOut deadline)
  | sellNo trader poolId amountIn minOut deadline =>
    world (Amm.sellNo ctx w trader poolId amountIn minOut deadline)
  | liquidatePosition liquidator user parentPoolId parentOutcome =>
    world (Amm.liquidatePosition ctx w liquidator user parentPoolId parentOutcome)
  | liquidateChildPosition liquidator user childPoolId childOutcome =>
    world (Amm.liquidateChildPosition ctx w liquidator user childPoolId childOutcome)

end DikeProtocol.Amm
