import DikeProtocol.Amm.Writes
import DikeProtocol.Governance.Timelock
import DikeProtocol.Vault.Holdings

/-!
# Market factory

The factory checks what a creator asks for and takes the creation fee. It then
has the registry register the market and the market maker create and seed its
pool, opens the market, and raises its own counter last.
-/

namespace DikeProtocol.Factory

open Lib

/-- Only the stored governance address may go on. -/
def requireGovernance (ctx : Ctx) (f : FactoryState) : Res Unit :=
  requireAuth ctx f.governance

/-- A module that must be stored. -/
def readModule (module : Option Address) : Res Address :=
  orFault module (.error .notInitialized)

/-- Check a market configuration, its liquidity and its price against the rules of the factory. -/
def validate (ctx : Ctx) (f : FactoryState) (config : MarketConfig) (initialLiquidity : ℤ)
    (openingPriceBps : ℕ) : Res Unit := do
  refuse (config.question = "" ∨ config.rulesUri = "") (.error .invalidInput)
  let earliestExpiry ← checkedAddU64 ctx.now f.minExpiryDuration
  refuse (config.expiry ≤ earliestExpiry) (.error .invalidInput)
  refuse (config.bondAmount ≤ 0 ∨ config.disputeWindow = 0) (.error .invalidAmount)
  validateFeeConfig config.feeConfig
  refuse (initialLiquidity < f.minLiquidity ∨ initialLiquidity ≤ 0) (.error .invalidAmount)
  refuse (openingPriceBps ≠ 5000) (.error .invalidInput)
  refuse (f.creator config.creator = false) (.error .creatorNotApproved)
  refuse (f.collateral config.collateral = false) (.error .unsupportedCollateral)

/-- The administrator hands over to another address. -/
def setAdmin (ctx : Ctx) (f : FactoryState) (admin : Address) : Res FactoryState := do
  requireAuth ctx f.admin
  return { f with admin := admin }

/-- The administrator replaces the governance pointer. -/
def setGovernance (ctx : Ctx) (f : FactoryState) (governance : Address) : Res FactoryState := do
  requireAuth ctx f.admin
  return { f with governance := governance }

/-- The administrator stores the modules. -/
def setModules (ctx : Ctx) (f : FactoryState) (registry tokens vault amm feeManager : Address) :
    Res FactoryState := do
  requireAuth ctx f.admin
  return { f with
    registry := some registry
    tokens := some tokens
    vault := some vault
    amm := some amm
    feeManager := some feeManager }

/-- Governance approves or drops a creator. -/
def setCreator (ctx : Ctx) (f : FactoryState) (creator : Address) (approved : Bool) :
    Res FactoryState := do
  requireGovernance ctx f
  return { f with creator := f.creator.set creator approved }

/-- Governance supports or drops a collateral token. -/
def setCollateral (ctx : Ctx) (f : FactoryState) (collateral : Asset) (supported : Bool) :
    Res FactoryState := do
  requireGovernance ctx f
  return { f with collateral := f.collateral.set collateral supported }

/-- Governance stops or resumes the creation of markets. -/
def pause (ctx : Ctx) (f : FactoryState) (paused : Bool) : Res FactoryState := do
  requireGovernance ctx f
  return { f with paused := paused }

/-- The creator pays the creation fee to the treasury, if there is one. -/
def payCreationFee (ctx : Ctx) (w : World) (creator : Address) (collateral : Asset) :
    Res World := do
  let feeManager ← readModule w.factory.feeManager
  let _ ← ctx.call .factory feeManager .feeManager
  if 0 < w.feeManager.config.creationFee then do
    let _ ← ctx.call .factory w.factory.governance .governance
    transferToken ctx .factory w collateral creator w.governance.treasury
      w.feeManager.config.creationFee
  else return w

/-- Create a market, with the fault to stop with where the registry or the market maker assigned
another identifier than the factory's counter says. -/
def createMarketOr (divergence : Fault) (ctx : Ctx) (w : World) (config : MarketConfig)
    (initialLiquidity : ℤ) (openingPriceBps : ℕ) : Res (MarketData × World) := do
  requireAuth ctx config.creator
  refuse (w.factory.paused = true) (.error .invalidStatus)
  validate ctx w.factory config initialLiquidity openingPriceBps
  let w ← payCreationFee ctx w config.creator config.collateral
  let marketId := w.factory.nextMarketId
  let yesTokenId ← checkedMulU64 marketId 2
  let noTokenId ← checkedAddU64 yesTokenId 1
  let poolId := marketId
  let registry ← readModule w.factory.registry
  let amm ← readModule w.factory.amm
  let called ← ctx.call .factory registry .registry
  let (registeredMarketId, r) ←
    Registry.registerMarket called w.registry config yesTokenId noTokenId poolId
  let w := { w with registry := r }
  refuse (registeredMarketId ≠ marketId) divergence
  let called ← ctx.call .factory amm .amm
  let (createdPoolId, w) ← Amm.createPool called w marketId config.feeConfig
  refuse (createdPoolId ≠ poolId) divergence
  let called ← ctx.call .factory amm .amm
  let (_, w) ← Amm.seedLiquidity called w config.creator poolId initialLiquidity
  let called ← ctx.call .factory registry .registry
  let r ← Registry.activateMarket called w.registry marketId
  let w := { w with registry := r }
  let _ ← ctx.call .factory registry .registry
  let market ← Registry.readMarket w.registry marketId
  let nextMarketId ← checkedAddU64 marketId 1
  return (market, { w with factory := { w.factory with nextMarketId := nextMarketId } })

/-- Create a market. -/
def createMarket (ctx : Ctx) (w : World) (config : MarketConfig) (initialLiquidity : ℤ)
    (openingPriceBps : ℕ) : Res (MarketData × World) :=
  createMarketOr (.error .invalidStatus) ctx w config initialLiquidity openingPriceBps

/-- An invocation of the factory. -/
inductive FactoryOp where
  | setAdmin (admin : Address)
  | upgrade (wasmHash : Hash)
  | setGovernance (governance : Address)
  | setModules (registry tokens vault amm feeManager : Address)
  | setCreator (creator : Address) (approved : Bool)
  | setCreatorByTimelock (creator : Address) (approved : Bool)
  | setCollateral (collateral : Asset) (supported : Bool)
  | pause (paused : Bool)
  | createMarket (config : MarketConfig) (initialLiquidity : ℤ) (openingPriceBps : ℕ)

/-- The world after an invocation that touched only the factory. -/
def store (w : World) (x : Res FactoryState) : Res World := do
  let f ← x
  return { w with factory := f }

/-- Execute an invocation. Replacing the code is only its authorization here. -/
def FactoryOp.exec (ctx : Ctx) (w : World) : FactoryOp → Res World
  | setAdmin admin => store w (Factory.setAdmin ctx w.factory admin)
  | upgrade _ => do
    requireAuth ctx w.factory.admin
    return w
  | setGovernance governance => store w (Factory.setGovernance ctx w.factory governance)
  | setModules registry tokens vault amm feeManager =>
    store w (Factory.setModules ctx w.factory registry tokens vault amm feeManager)
  | setCreator creator approved => store w (Factory.setCreator ctx w.factory creator approved)
  | setCreatorByTimelock creator approved => Factory.setCreatorByTimelock ctx w creator approved
  | setCollateral collateral supported =>
    store w (Factory.setCollateral ctx w.factory collateral supported)
  | pause paused => store w (Factory.pause ctx w.factory paused)
  | createMarket config initialLiquidity openingPriceBps =>
    world (Factory.createMarket ctx w config initialLiquidity openingPriceBps)

end DikeProtocol.Factory
