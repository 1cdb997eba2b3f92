import DikeProtocol.Factory.Entry
import DikeProtocol.Resolution.Settlement
import DikeProtocol.Vault.System

/-!
# Faults of one check

Two faults come from one check each. The host refuses to enter a contract that is
busy, and sales and transfers refuse a position that backs a debt. The arithmetic,
the checks and the bookkeeping of the contracts fail with neither.
-/

namespace DikeProtocol

open Lib

/-- A fault that one check raises and nothing else: a position is encumbered, or a
contract was called while it was busy. -/
class Rare (f : Fault) : Prop where
  rare : f = .error .encumberedPosition ∨ ∃ b, f = .reentry b

instance : Rare (.error .encumberedPosition) := ⟨Or.inl rfl⟩

instance (b : Address) : Rare (.reentry b) := ⟨Or.inr ⟨b, rfl⟩⟩

section Rare

variable {f : Fault} [hf : Rare f]

/-- Another error of a contract is no such fault. -/
@[simp] theorem error_ne_rare {e : DikeError} (he : e ≠ .encumberedPosition) :
    ¬Fault.error e = f := by
  rintro rfl
  rcases hf.rare with h | ⟨b, h⟩
  · exact he (Fault.error.inj h)
  · cases h

/-- A missing authorization is no such fault. -/
@[simp] theorem auth_ne_rare {a : Address} : ¬Fault.auth a = f := by
  rintro rfl
  rcases hf.rare with h | ⟨b, h⟩ <;> cases h

/-- A trap is no such fault. -/
@[simp] theorem trap_ne_rare : ¬Fault.trap = f := by
  rintro rfl
  rcases hf.rare with h | ⟨b, h⟩ <;> cases h

end Rare

section Parts

variable {f : Fault} [Rare f] {ctx : Ctx} {w : World} {x y z : ℤ} {i j : ℕ}

@[simp] theorem checked_rare : Avoids f (checked x) := by
  simp [checked]

@[simp] theorem checkedAdd_rare : Avoids f (checkedAdd x y) := checked_rare

@[simp] theorem checkedSub_rare : Avoids f (checkedSub x y) := checked_rare

@[simp] theorem checkedMul_rare : Avoids f (checkedMul x y) := checked_rare

@[simp] theorem checkedDiv_rare : Avoids f (checkedDiv x y) := by
  simp [checkedDiv]

@[simp] theorem checkedAddU64_rare : Avoids f (checkedAddU64 i j) := by
  simp [checkedAddU64]

@[simp] theorem checkedMulU64_rare : Avoids f (checkedMulU64 i j) := by
  simp [checkedMulU64]

@[simp] theorem bps_rare : Avoids f (bps x i) := by
  simp [bps]

@[simp] theorem splitFee_rare : Avoids f (splitFee x i) := by
  simp [splitFee]

@[simp] theorem proportional_rare : Avoids f (proportional x y z) := by
  simp [proportional]

@[simp] theorem collateralLimit_rare : Avoids f (collateralLimit x i) := by
  simp [collateralLimit]

/-- The square root fails with the faults of its arithmetic only. -/
theorem isqrtLoop_rare : Avoids f (isqrtLoop z x y) := by
  fun_induction isqrtLoop z x y with
  | case1 x y h e hdiv =>
    have hstep : Avoids f (checkedDiv z y) := checkedDiv_rare
    rwa [hdiv] at hstep
  | case2 x y h quotient hdiv e hadd =>
    have hstep : Avoids f (checkedAdd y quotient) := checkedAdd_rare
    rwa [hadd] at hstep
  | case3 x y h quotient hdiv sum hadd e hhalf =>
    have hstep : Avoids f (checkedDiv sum 2) := checkedDiv_rare
    rwa [hhalf] at hstep
  | case4 x y h quotient hdiv sum hadd next hhalf ih => exact ih
  | case5 x y h hlow => simp
  | case6 x y h hdone => simp

@[simp] theorem quoteSell_rare : Avoids f (quoteSell x y z) := by
  simp [quoteSell, isqrt, isqrtLoop_rare]

@[simp] theorem quoteBuyCompleteSet_rare : Avoids f (quoteBuyCompleteSet x y z) := by
  simp [quoteBuyCompleteSet]

@[simp] theorem requireAuth_rare {who : Address} : Avoids f (requireAuth ctx who) := by
  simp [requireAuth]

@[simp] theorem requireRole_rare {roles : Store Role (Option Address)} {role : Role} :
    Avoids f (requireRole ctx roles role) := by
  simp [requireRole]

@[simp] theorem readRole_rare {roles : Store Role (Option Address)} {role : Role} :
    Avoids f (readRole roles role) := by
  simp [readRole]

@[simp] theorem transfer_rare {bank : Bank} {token : Asset} {s r : Address} :
    Avoids f (bank.transfer token s r x) := by
  unfold Bank.transfer
  split <;> simp

@[simp] theorem transferToken_rare {self : Contract} {token : Asset} {s r : Address} :
    Avoids f (transferToken ctx self w token s r x) := by
  simp [transferToken]

@[simp] theorem validateFeeConfig_rare {config : FeeConfig} :
    Avoids f (validateFeeConfig config) := by
  simp [validateFeeConfig]

omit [Rare f] in
/-- An invocation without its return value fails as the invocation does. -/
@[simp] theorem world_rare {α : Type} {r : Res (α × World)} :
    Avoids f (world r) ↔ Avoids f r := by
  simp [world]

end Parts

section Registry

variable {f : Fault} [Rare f] {ctx : Ctx} {r : RegistryState} {m : MarketId}

@[simp] theorem readMarket_rare : Avoids f (Registry.readMarket r m) := by
  simp [Registry.readMarket]

@[simp] theorem getMarket_rare : Avoids f (Registry.getMarket r m) := readMarket_rare

@[simp] theorem getFinalOutcome_rare : Avoids f (Registry.getFinalOutcome r m) := by
  simp [Registry.getFinalOutcome]

@[simp] theorem isTradeable_rare : Avoids f (Registry.isTradeable ctx r m) := by
  simp [Registry.isTradeable]

@[simp] theorem transitionInternal_rare {next : MarketStatus} :
    Avoids f (Registry.transitionInternal r m next) := by
  simp [Registry.transitionInternal]

@[simp] theorem oracleMark_rare {next : MarketStatus} :
    Avoids f (Registry.oracleMark next ctx r m) := by
  simp [Registry.oracleMark]

@[simp] theorem registerMarket_rare {config : MarketConfig} {yes no pool : ℕ} :
    Avoids f (Registry.registerMarket ctx r config yes no pool) := by
  simp [Registry.registerMarket, Registry.validateConfig]

@[simp] theorem activateMarket_rare : Avoids f (Registry.activateMarket ctx r m) := by
  simp [Registry.activateMarket]

@[simp] theorem closeTrading_rare : Avoids f (Registry.closeTrading ctx r m) := by
  simp [Registry.closeTrading]

@[simp] theorem markResolutionRequested_rare {request : ℕ} :
    Avoids f (Registry.markResolutionRequested ctx r m request) := by
  simp [Registry.markResolutionRequested]

@[simp] theorem setFinalOutcome_rare {outcome : Outcome} :
    Avoids f (Registry.setFinalOutcome ctx r m outcome) := by
  simp [Registry.setFinalOutcome]

/-- The registry calls nobody. -/
@[simp] theorem registryExec_rare (op : Registry.RegistryOp) : Avoids f (op.exec ctx r) := by
  cases op <;> simp [Registry.RegistryOp.exec, Registry.setAdmin, Registry.setRole,
    Registry.setSupportedCollateral, Registry.pauseSystem, Registry.setFeeConfig,
    Registry.setStatus, Registry.markProposed, Registry.markDisputed, Registry.markCouncilVoting,
    Registry.cancelMarket]

end Registry

section Tokens

variable {f : Fault} [Rare f] {ctx : Ctx} {t : TokensState} {m : MarketId} {u v : Address}
  {o : Outcome} {x : ℤ}

@[simp] theorem addBalance_rare : Avoids f (Tokens.addBalance t m u o x) := by
  simp [Tokens.addBalance]

@[simp] theorem subBalance_rare : Avoids f (Tokens.subBalance t m u o x) := by
  simp [Tokens.subBalance]

@[simp] theorem creditCompleteSet_rare : Avoids f (Tokens.creditCompleteSet t m u x) := by
  simp [Tokens.creditCompleteSet, Tokens.addBacking]

@[simp] theorem mintCompleteSet_rare : Avoids f (Tokens.mintCompleteSet ctx t u m x) := by
  simp [Tokens.mintCompleteSet]

@[simp] theorem mergePositions_rare : Avoids f (Tokens.mergePositions ctx t u m x) := by
  simp [Tokens.mergePositions, Tokens.subBacking]

@[simp] theorem moveBalance_rare : Avoids f (Tokens.moveBalance t u v m o x) := by
  simp [Tokens.moveBalance]

@[simp] theorem transferPositionForced_rare :
    Avoids f (Tokens.transferPositionForced ctx t u v m o x) := by
  simp [Tokens.transferPositionForced]

@[simp] theorem burnForRedeem_rare : Avoids f (Tokens.burnForRedeem ctx t u m o x) := by
  simp [Tokens.burnForRedeem]

end Tokens

section Vault

variable {f : Fault} [Rare f] {ctx : Ctx} {w : World} {v : VaultState} {m c : MarketId}
  {u : Address} {o co : Outcome} {x y : ℤ}

@[simp] theorem creditBacking_rare {a : VaultAccounting} : Avoids f (Vault.creditBacking a x) := by
  simp [Vault.creditBacking]

@[simp] theorem debitBacking_rare {a : VaultAccounting} : Avoids f (Vault.debitBacking a x) := by
  simp [Vault.debitBacking]

@[simp] theorem addTo_rare {K : Type} [DecidableEq K] {s : Store K ℤ} {k : K} :
    Avoids f (Vault.addTo s k x) := by
  simp [Vault.addTo]

@[simp] theorem saturatingSub_rare {K : Type} [DecidableEq K] {s : Store K ℤ} {k : K} :
    Avoids f (Vault.saturatingSub s k x) := by
  simp [Vault.saturatingSub]

@[simp] theorem releaseChildUsed_rare : Avoids f (Vault.releaseChildUsed v m u o x) := by
  simp [Vault.releaseChildUsed]

@[simp] theorem creditRepayment_rare : Avoids f (Vault.creditRepayment v m x) := by
  simp [Vault.creditRepayment]

@[simp] theorem settleChildDebt_rare : Avoids f (Vault.settleChildDebt v c u x) := by
  simp [Vault.settleChildDebt]

/-- Clearing the debts of children fails with the faults of its arithmetic only. -/
@[simp] theorem clearChildDebts_rare (children : List MarketId) :
    Avoids f (Vault.clearChildDebts v m u o x children) := by
  induction children generalizing v x with
  | nil => exact avoids_ok _
  | cons child children ih => simp [Vault.clearChildDebts, ih]

@[simp] theorem resolveParentDefault_rare : Avoids f (Vault.resolveParentDefault v m u o x) := by
  simp [Vault.resolveParentDefault, Vault.drawReserve, Vault.bookShortfall]

/-- Settling the children of a stake fails with the faults of its arithmetic only. -/
@[simp] theorem settleChildren_rare (children : List MarketId) :
    Avoids f (Vault.settleChildren v u x y children) := by
  induction children generalizing v x y with
  | nil => exact avoids_ok _
  | cons child children ih => simp [Vault.settleChildren, ih]

@[simp] theorem recordDeposit_rare : Avoids f (Vault.recordDeposit v m x) := by
  simp [Vault.recordDeposit]

@[simp] theorem recordLoan_rare : Avoids f (Vault.recordLoan v u m o c co x) := by
  simp [Vault.recordLoan]

@[simp] theorem reallocateBacking_rare : Avoids f (Vault.reallocateBacking v m c x) := by
  simp [Vault.reallocateBacking]

@[simp] theorem payPositive_rare {token : Asset} {r : Address} :
    Avoids f (Vault.payPositive ctx w token r x) := by
  simp [Vault.payPositive]

@[simp] theorem extractProceeds_rare : Avoids f (Vault.extractProceeds v m u o x y) := by
  simp [Vault.extractProceeds]

@[simp] theorem cappedPayout_rare : Avoids f (Vault.cappedPayout v m x) := by
  simp [Vault.cappedPayout, Vault.haircut]

@[simp] theorem refundWithCarry_rare : Avoids f (Vault.refundWithCarry v m x) := by
  simp [Vault.refundWithCarry, invalidRefund]

@[simp] theorem withholdParentDebt_rare : Avoids f (Vault.withholdParentDebt v m u o x y) := by
  simp [Vault.withholdParentDebt, Vault.restoreWithheld]

@[simp] theorem settleResolved_rare {final : Outcome} :
    Avoids f (Vault.settleResolved v m u final o x) := by
  cases final <;> simp [Vault.settleResolved, Vault.grossPayout, Vault.addRedeemed,
    Vault.repayUpstream]

@[simp] theorem settleCancelled_rare : Avoids f (Vault.settleCancelled v m u o x) := by
  simp [Vault.settleCancelled]

@[simp] theorem retireClaim_rare : Avoids f (Vault.retireClaim v m u o x) := by
  simp [Vault.retireClaim]

@[simp] theorem payRedemption_rare {token : Asset} :
    Avoids f (Vault.payRedemption ctx w token u m x) := by
  simp [Vault.payRedemption]

@[simp] theorem moveBond_rare {a : VaultAccounting} {d : Bool} :
    Avoids f (Vault.moveBond a d x) := by
  simp [Vault.moveBond]

@[simp] theorem payBond_rare {token : Asset} {d : Bool} {r : ℕ} {recipient : Address} :
    Avoids f (Vault.payBond ctx w token u r x d recipient) := by
  simp [Vault.payBond, Vault.takeBond]

@[simp] theorem collectFee_rare {lp protocol cod : ℤ} :
    Avoids f (Vault.collectFee ctx w m lp protocol cod) := by
  simp [Vault.collectFee]

@[simp] theorem recordCashStake_rare : Avoids f (Vault.recordCashStake ctx w u m o x y) := by
  simp [Vault.recordCashStake]

end Vault

section Amm

variable {f : Fault} [Rare f] {ctx : Ctx} {w : World} {m : MarketId} {u : Address} {i : ℕ}
  {x y : ℤ} {pool : PoolData} {yes : Bool}

@[simp] theorem modules_rare {a : AmmState} : Avoids f (Amm.modules a) := by
  simp [Amm.modules]

@[simp] theorem readPool_rare {a : AmmState} : Avoids f (Amm.readPool a i) := by
  simp [Amm.readPool]

@[simp] theorem quoteBuyOf_rare : Avoids f (Amm.quoteBuyOf pool yes x) := by
  simp [Amm.quoteBuyOf]

@[simp] theorem quoteSellOf_rare : Avoids f (Amm.quoteSellOf pool yes x) := by
  simp [Amm.quoteSellOf]

@[simp] theorem accrueFees_rare {config : FeeConfig} :
    Avoids f (Amm.accrueFees pool config x) := by
  simp [Amm.accrueFees]

@[simp] theorem boughtReserves_rare : Avoids f (Amm.boughtReserves pool yes x y) := by
  simp [Amm.boughtReserves]

@[simp] theorem soldReserves_rare : Avoids f (Amm.soldReserves pool yes x y) := by
  simp [Amm.soldReserves]

@[simp] theorem computeLpFeesOwed_rare {a : AmmState} :
    Avoids f (Amm.computeLpFeesOwed a i u pool x) := by
  simp [Amm.computeLpFeesOwed]

@[simp] theorem createPool_rare {config : FeeConfig} :
    Avoids f (Amm.createPool ctx w m config) := by
  simp [Amm.createPool]

end Amm

end DikeProtocol
