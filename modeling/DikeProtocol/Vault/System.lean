import DikeProtocol.Vault.Falls
import DikeProtocol.Deployment
import DikeProtocol.Lib.Run

/-!
# The vault as a transition system

Every public entry point of the vault, invoked by anyone from outside it, and
steps in which the rest of the world changes around the vault.
-/

namespace DikeProtocol.Vault

open Lib

/-- An invocation of the vault. -/
inductive VaultOp where
  | setAdmin (admin : Address)
  | upgrade (wasmHash : Hash)
  | setRole (role : Role) (module : Address)
  | setTreasury (treasury : Address)
  | pause (paused : Bool)
  | depositForMarket (token : Asset) (user : Address) (marketId : MarketId) (amount : ℤ)
  | recordCashStake (user : Address) (marketId : MarketId) (outcome : Outcome)
      (collateralIn tokensOut : ℤ)
  | fundChildPrediction (user : Address) (parentMarketId childMarketId : MarketId) (amount : ℤ)
  | openChildCreditForTrade (user : Address) (parentMarketId : MarketId) (parentOutcome : Outcome)
      (childMarketId : MarketId) (childOutcome : Outcome) (amount : ℤ)
  | repayChildCollateral (token : Asset) (user : Address) (childMarketId : MarketId) (amount : ℤ)
  | releaseTradePayout (token : Asset) (user : Address) (marketId : MarketId) (outcome : Outcome)
      (tokensSold payout : ℤ)
  | liquidateRelease (token : Asset) (user liquidator : Address) (parentMarketId : MarketId)
      (parentOutcome : Outcome) (tokensSold proceeds : ℤ)
  | liquidateChildRelease (token : Asset) (user liquidator : Address) (childMarketId : MarketId)
      (childOutcome : Outcome) (tokensSold proceeds : ℤ)
  | redeem (token : Asset) (user : Address) (marketId : MarketId)
      (finalOutcome redeemedOutcome : Outcome) (amount : ℤ)
  | redeemResolved (token : Asset) (user : Address) (marketId : MarketId)
      (redeemedOutcome : Outcome) (amount : ℤ)
  | redeemCancelled (token : Asset) (user : Address) (marketId : MarketId)
      (redeemedOutcome : Outcome) (amount : ℤ)
  | assertPositionTransferAllowed (sender : Address) (marketId : MarketId) (outcome : Outcome)
      (amount : ℤ)
  | lockBond (token : Asset) (user : Address) (requestId : ℕ) (marketId : MarketId) (amount : ℤ)
      (isDispute : Bool)
  | releaseBond (token : Asset) (user : Address) (requestId : ℕ) (amount : ℤ) (isDispute : Bool)
  | slashBond (token : Asset) (user : Address) (requestId : ℕ) (amount : ℤ) (isDispute : Bool)
      (recipient : Address)
  | collectFee (marketId : MarketId) (lpFee protocolFee codFee : ℤ)
  | claimLpFees (token : Asset) (marketId : MarketId) (lp : Address) (amount : ℤ)
  | sweepProtocolFees (token : Asset) (marketId : MarketId)

/-- Execute an invocation. Replacing the code is only its authorization here. -/
def VaultOp.exec (ctx : Ctx) (w : World) : VaultOp → Res World
  | setAdmin admin => Vault.setAdmin ctx w admin
  | upgrade _ => do
    requireAuth ctx w.vault.admin
    return w
  | setRole role module => Vault.setRole ctx w role module
  | setTreasury treasury => Vault.setTreasury ctx w treasury
  | pause paused => Vault.pause ctx w paused
  | depositForMarket token user marketId amount =>
    Vault.depositForMarket ctx w token user marketId amount
  | recordCashStake user marketId outcome collateralIn tokensOut =>
    Vault.recordCashStake ctx w user marketId outcome collateralIn tokensOut
  | fundChildPrediction _ _ _ _ => Vault.fundChildPrediction
  | openChildCreditForTrade user parentMarketId parentOutcome childMarketId childOutcome amount =>
    Vault.openChildCreditForTrade ctx w user parentMarketId parentOutcome childMarketId
      childOutcome amount
  | repayChildCollateral token user childMarketId amount =>
    world (Vault.repayChildCollateral ctx w token user childMarketId amount)
  | releaseTradePayout token user marketId outcome tokensSold payout =>
    Vault.releaseTradePayout ctx w token user marketId outcome tokensSold payout
  | liquidateRelease token user liquidator parentMarketId parentOutcome tokensSold proceeds =>
    world (Vault.liquidateRelease ctx w token user liquidator parentMarketId parentOutcome
      tokensSold proceeds)
  | liquidateChildRelease token user liquidator childMarketId childOutcome tokensSold proceeds =>
    world (Vault.liquidateChildRelease ctx w token user liquidator childMarketId childOutcome
      tokensSold proceeds)
  | redeem _ _ _ _ _ _ => world Vault.redeem
  | redeemResolved token user marketId redeemedOutcome amount =>
    world (Vault.redeemResolved ctx w token user marketId redeemedOutcome amount)
  | redeemCancelled token user marketId redeemedOutcome amount =>
    world (Vault.redeemCancelled ctx w token user marketId redeemedOutcome amount)
  | assertPositionTransferAllowed sender marketId outcome amount => do
    Vault.assertPositionTransferAllowed ctx w.vault sender marketId outcome amount
    return w
  | lockBond token user requestId marketId amount isDispute =>
    Vault.lockBond ctx w token user requestId marketId amount isDispute
  | releaseBond token user requestId amount isDispute =>
    Vault.releaseBond ctx w token user requestId amount isDispute
  | slashBond token user requestId amount isDispute recipient =>
    Vault.slashBond ctx w token user requestId amount isDispute recipient
  | collectFee marketId lpFee protocolFee codFee =>
    Vault.collectFee ctx w marketId lpFee protocolFee codFee
  | claimLpFees token marketId lp amount => Vault.claimLpFees ctx w token marketId lp amount
  | sweepProtocolFees token marketId => world (Vault.sweepProtocolFees ctx w token marketId)

/-- The part of the world that changes around the vault. -/
structure Surroundings where
  registry : RegistryState
  tokens : TokensState
  bank : Bank

/-- One step of a run of the vault. -/
inductive VaultStep where
  /-- An invocation of the vault. -/
  | call (ctx : Ctx) (op : VaultOp)
  /-- Something else happens. -/
  | outside (s : Surroundings)

/-- Runs of the vault from its deployment, with any wiring. The vault is only
invoked from outside it, and of the kept tokens it holds what its own
transfers leave it. -/
def vaultSystem (kept : List Asset) : System World VaultStep Fault where
  Init := fun w =>
    (∃ admin treasury roles, w.vault = { freshVault admin treasury with roles := roles }) ∧
    w.registry.market = .empty
  step := fun w step =>
    match step with
    | .call ctx op => do
      refuse (¬Outside .vault ctx) .trap
      op.exec ctx w
    | .outside s => do
      refuse (∃ t ∈ kept, cash s.bank t ≠ cash w.bank t) .trap
      return { w with registry := s.registry, tokens := s.tokens, bank := s.bank }

/-- A successful invocation of a run comes from outside the vault and is executed. -/
theorem vaultSystem_call {kept : List Asset} {w w' : World} {ctx : Ctx} {op : VaultOp}
    (h : (vaultSystem kept).step w (.call ctx op) = .ok w') :
    Outside .vault ctx ∧ op.exec ctx w = .ok w' := by
  obtain ⟨_, hctx, h⟩ := bind_ok.mp h
  exact ⟨not_not.mp (refuse_ok.mp hctx), h⟩

/-- What changes around the vault leaves its books and its kept tokens alone. -/
theorem vaultSystem_outside {kept : List Asset} {w w' : World} {s : Surroundings}
    (h : (vaultSystem kept).step w (.outside s) = .ok w') :
    (∀ t ∈ kept, cash s.bank t = cash w.bank t) ∧
      w' = { w with registry := s.registry, tokens := s.tokens, bank := s.bank } := by
  obtain ⟨_, hcash, h⟩ := bind_ok.mp h
  refine ⟨fun t ht => ?_, (pure_ok.mp h).symm⟩
  by_contra hne
  exact refuse_ok.mp hcash ⟨t, ht, hne⟩

/-- A fresh vault is sane, whatever its wiring. -/
theorem freshVault_sane (admin treasury : Address) (roles : Store Role (Option Address)) :
    Sane { freshVault admin treasury with roles := roles } where
  childDebt_nonneg := fun _ => le_rfl
  parentDebt_nonneg := fun _ => le_rfl
  parentDebt_le_used := fun _ => le_rfl
  reserve_nonneg := le_rfl
  accounting := fun _ => saneAccounting_zero
  carry := fun _ => ⟨le_rfl, zero_le_one⟩

/-- An administrative entry point authorizes and then changes wiring only. -/
theorem admin_ok {c : Res Unit} {w w' : World} {v : VaultState}
    (h : (do
      c
      return { w with vault := v }) = .ok w') : w' = { w with vault := v } := by
  obtain ⟨_, _, h⟩ := bind_ok.mp h
  exact (pure_ok.mp h).symm

/-- Every invocation keeps a vault sane. -/
theorem VaultOp.exec_sane {ctx : Ctx} (hctx : Outside .vault ctx) {w w' : World} (hw : Sane w.vault)
    {op : VaultOp} (h : op.exec ctx w = .ok w') : Sane w'.vault := by
  cases op with
  | setAdmin admin =>
    obtain rfl := admin_ok h
    exact { hw with }
  | upgrade wasmHash =>
    obtain ⟨_, _, h⟩ := bind_ok.mp h
    obtain rfl := pure_ok.mp h
    exact hw
  | setRole role module =>
    obtain rfl := admin_ok h
    exact { hw with }
  | setTreasury treasury =>
    obtain rfl := admin_ok h
    exact { hw with }
  | pause paused =>
    obtain rfl := admin_ok h
    exact { hw with }
  | depositForMarket t user m x => exact (depositForMarket_calm hctx hw h).sane
  | recordCashStake user m o x y => exact (recordCashStake_calm hw h).sane
  | fundChildPrediction user p c x => cases h
  | openChildCreditForTrade user p po c co x =>
    obtain ⟨v, rfl, hv, _⟩ := openChildCreditForTrade_debts hw h
    exact hv
  | repayChildCollateral t user c x =>
    obtain ⟨y, h⟩ := world_ok.mp h
    exact (repayChildCollateral_calm hctx hw h).sane
  | releaseTradePayout t user m o sold x => exact (releaseTradePayout_calm hw h).sane
  | liquidateRelease t user keeper p o sold x =>
    obtain ⟨y, h⟩ := world_ok.mp h
    exact (liquidateRelease_calm hw h).sane
  | liquidateChildRelease t user keeper c o sold x =>
    obtain ⟨y, h⟩ := world_ok.mp h
    exact (liquidateChildRelease_calm hw h).sane
  | redeem t user m final o x =>
    obtain ⟨_, h⟩ := world_ok.mp h
    cases h
  | redeemResolved t user m o amount =>
    obtain ⟨y, h⟩ := world_ok.mp h
    obtain ⟨_, _, _, _, _, _, _, _, _, rfl, hv, _⟩ :=
      redeemResolved_flow (nullGauge_even.at _ _ _) (nullGauge_even _) hw h
    exact hv
  | redeemCancelled t user m o amount =>
    obtain ⟨y, h⟩ := world_ok.mp h
    obtain ⟨_, _, _, _, _, _, _, rfl, hv, _⟩ := redeemCancelled_flow (nullGauge_even _) hw h
    exact hv
  | assertPositionTransferAllowed sender m o x =>
    obtain ⟨_, _, h⟩ := bind_ok.mp h
    obtain rfl := pure_ok.mp h
    exact hw
  | lockBond t user r m x d => exact (lockBond_calm hctx hw h).sane
  | releaseBond t user r x d => exact (payBond_calm hw h).sane
  | slashBond t user r x d recipient => exact (payBond_calm hw h).sane
  | collectFee m lp protocol cod => exact (collectFee_calm hw h).sane
  | claimLpFees t m lp x => exact (claimLpFees_calm hw h).sane
  | sweepProtocolFees t m =>
    obtain ⟨y, h⟩ := world_ok.mp h
    exact (sweepProtocolFees_calm hw h).sane

/-- The vault is sane in every state its runs reach. -/
theorem reachable_sane {kept : List Asset} {ok : World → VaultStep → Prop} {w : World}
    (h : (vaultSystem kept).Guarded ok w) : Sane w.vault := by
  refine h.invariant (I := fun w => Sane w.vault) ?_ ?_
  · rintro w ⟨⟨admin, treasury, roles, hv⟩, _⟩
    rw [hv]
    exact freshVault_sane admin treasury roles
  · intro w step w' hw _ hstep
    cases step with
    | call ctx op =>
      obtain ⟨hout, hexec⟩ := vaultSystem_call hstep
      exact op.exec_sane hout hw hexec
    | outside s =>
      obtain ⟨_, rfl⟩ := vaultSystem_outside hstep
      exact hw

end DikeProtocol.Vault
