import DikeProtocol.Lib.Store
import DikeProtocol.Lib.Result

/-!
# Shared types of the contracts

Enumerations, records and errors that every contract of the protocol uses.
Market, pool and request identifiers and ledger times are naturals; the few
places where the source adds to them check the 64-bit range explicitly.
-/

namespace DikeProtocol

/-- A market outcome. -/
inductive Outcome where
  | yes
  | no
  | invalid
  deriving DecidableEq, Repr

/-- The outcome stored before any is known. -/
def Outcome.unset : Outcome := .invalid

instance : Inhabited Outcome := ⟨.unset⟩

/-- Life cycle of a market. -/
inductive MarketStatus where
  | created
  | live
  | paused
  | tradingClosed
  | resolutionRequested
  | proposed
  | disputed
  | councilVoting
  | resolved
  | cancelled
  deriving DecidableEq, Repr

/-- Life cycle of a resolution request. -/
inductive OracleStatus where
  | none
  | requested
  | proposed
  | disputed
  | escalated
  | finalized
  deriving DecidableEq, Repr

/-- Life cycle of a council case. -/
inductive CouncilCaseStatus where
  | opened
  | commitPhase
  | revealPhase
  | readyToFinalize
  | finalized
  | cancelled
  deriving DecidableEq, Repr

/-- Errors a contract function may return. -/
inductive DikeError where
  | alreadyInitialized
  | notInitialized
  | unauthorized
  | invalidAmount
  | invalidInput
  | invalidStatus
  | invalidTransition
  | marketExists
  | marketNotFound
  | poolNotFound
  | requestNotFound
  | caseNotFound
  | alreadyResolved
  | alreadyRedeemed
  | insufficientBalance
  | insufficientCollateral
  | slippageExceeded
  | deadlineExpired
  | notExpired
  | disputeWindowOpen
  | disputeWindowClosed
  | evidenceRequired
  | alreadyDisputed
  | invalidReveal
  | voteAlreadyCommitted
  | voteNotCommitted
  | tooEarly
  | timelockNotReady
  | actionConsumed
  | unsupportedCollateral
  | creatorNotApproved
  | arithmeticError
  | chainDepthExceeded
  | childCollateralLimitExceeded
  | encumberedPosition
  | notLiquidatable
  deriving DecidableEq, Repr

/-- The contracts of the protocol. -/
inductive Contract where
  | factory
  | registry
  | amm
  | vault
  | tokens
  | oracle
  | council
  | feeManager
  | governance
  | timelock
  deriving DecidableEq, Repr

/-- An address: one of the deployed contracts, or any other account or contract. -/
inductive Address where
  | contract (c : Contract)
  | account (n : ℕ)
  deriving DecidableEq, Repr

/-- A collateral token contract. Assets are foreign contracts, never one of the
protocol's own, and a token transfer calls nothing back. -/
structure Asset where
  id : ℕ
  deriving DecidableEq, Repr

/-- Role symbols under which a contract stores the address of another module. -/
inductive Role where
  | factory
  | registry
  | tokens
  | vault
  | amm
  | oracle
  | council
  | gov
  | fees
  | treas
  | other (n : ℕ)
  deriving DecidableEq, Repr

/-- A market, pool, request, case or action identifier. -/
abbrev MarketId := ℕ

/-- A 32-byte hash; only equality of hashes is ever used. -/
abbrev Hash := ℕ

/-- How an invocation ends when it does not return. -/
inductive Fault where
  /-- The contract function returned this error. -/
  | error (e : DikeError)
  /-- A required authorization is missing. -/
  | auth (a : Address)
  /-- A contract that is already on the call stack was called. -/
  | reentry (a : Address)
  /-- The host stopped the invocation: no such function, or a token transfer failed. -/
  | trap
  deriving DecidableEq, Repr

/-- Result of an invocation. -/
abbrev Res (α : Type) := Except Fault α

/-- Fee parameters of a market. -/
structure FeeConfig where
  tradingFeeBps : ℕ
  lpFeeShareBps : ℕ
  treasuryFeeShareBps : ℕ
  codFeeShareBps : ℕ
  councilReward : ℤ
  creationFee : ℤ
  deriving DecidableEq, Repr

/-- The fee parameters used when none were stored. -/
def FeeConfig.default : FeeConfig where
  tradingFeeBps := 200
  lpFeeShareBps := 7000
  treasuryFeeShareBps := 2000
  codFeeShareBps := 1000
  councilReward := 0
  creationFee := 0

instance : Inhabited FeeConfig := ⟨FeeConfig.default⟩

/-- Shares must sum to exactly 10000 bps, the trading fee may not exceed
1000 bps, and the two amounts may not be negative. -/
def validateFeeConfig (config : FeeConfig) : Res Unit := do
  Lib.refuse (config.lpFeeShareBps + config.treasuryFeeShareBps + config.codFeeShareBps ≠ 10000 ∨
    config.tradingFeeBps > 1000) (.error .invalidInput)
  Lib.refuse (config.councilReward < 0 ∨ config.creationFee < 0) (.error .invalidAmount)

/-- What the creator of a market asks for. -/
structure MarketConfig where
  question : String
  questionHash : Hash
  rulesUri : String
  rulesHash : Hash
  expiry : ℕ
  collateral : Asset
  bondAmount : ℤ
  disputeWindow : ℕ
  category : String
  creator : Address
  feeConfig : FeeConfig
  deriving DecidableEq, Repr

/-- A registered market. -/
structure MarketData where
  id : MarketId
  question : String
  questionHash : Hash
  rulesUri : String
  rulesHash : Hash
  creator : Address
  collateral : Asset
  yesTokenId : ℕ
  noTokenId : ℕ
  expiry : ℕ
  status : MarketStatus
  hasFinalOutcome : Bool
  finalOutcome : Outcome
  poolId : ℕ
  bondAmount : ℤ
  disputeWindow : ℕ
  hasRequest : Bool
  requestId : ℕ
  createdAt : ℕ
  feeConfig : FeeConfig
  deriving DecidableEq, Repr

/-- Per-market books of the collateral vault. -/
structure VaultAccounting where
  totalDeposited : ℤ
  collateralBacking : ℤ
  ammCollateral : ℤ
  childCollateralIssued : ℤ
  childCollateralRepaid : ℤ
  childCollateralDefaulted : ℤ
  redeemed : ℤ
  protocolFees : ℤ
  lpFees : ℤ
  codFees : ℤ
  proposalBonds : ℤ
  disputeBonds : ℤ
  refundable : ℤ
  /-- Deficit of this market that can no longer be recovered. -/
  shortfall : ℤ
  deriving DecidableEq, Repr

/-- The books of a market nothing happened in yet. -/
def zeroAccounting : VaultAccounting where
  totalDeposited := 0
  collateralBacking := 0
  ammCollateral := 0
  childCollateralIssued := 0
  childCollateralRepaid := 0
  childCollateralDefaulted := 0
  redeemed := 0
  protocolFees := 0
  lpFees := 0
  codFees := 0
  proposalBonds := 0
  disputeBonds := 0
  refundable := 0
  shortfall := 0

instance : Inhabited VaultAccounting := ⟨zeroAccounting⟩

/-- A liquidity pool. -/
structure PoolData where
  id : ℕ
  marketId : MarketId
  yesReserve : ℤ
  noReserve : ℤ
  totalLpShares : ℤ
  accumulatedLpFees : ℤ
  accumulatedProtocolFees : ℤ
  accumulatedCodFees : ℤ
  live : Bool
  feePerShareScaled : ℤ
  deriving DecidableEq, Repr

/-- A quoted trade. -/
structure TradeQuote where
  amountIn : ℤ
  fee : ℤ
  netIn : ℤ
  amountOut : ℤ
  averagePriceBps : ℤ
  deriving DecidableEq, Repr

/-- A request to resolve one market. -/
structure ResolutionRequest where
  id : ℕ
  marketId : MarketId
  questionHash : Hash
  rulesUri : String
  expiry : ℕ
  requestedAt : ℕ
  bondAmount : ℤ
  disputeWindow : ℕ
  hasProposal : Bool
  proposer : Address
  proposedOutcome : Outcome
  proposalEvidenceUri : String
  proposedAt : ℕ
  hasDispute : Bool
  disputer : Address
  disputedOutcome : Outcome
  disputeEvidenceUri : String
  disputedAt : ℕ
  status : OracleStatus
  hasFinalOutcome : Bool
  finalOutcome : Outcome
  deriving DecidableEq, Repr

/-- Parameters under which a council case is opened. -/
structure OpenCaseConfig where
  proposalBond : ℤ
  disputeBond : ℤ
  commitDuration : ℕ
  revealDuration : ℕ
  token : Asset
  deriving DecidableEq, Repr

/-- A council case. -/
structure CouncilCase where
  id : ℕ
  requestId : ℕ
  marketId : MarketId
  proposer : Address
  proposerOutcome : Outcome
  proposerEvidenceUri : String
  disputer : Address
  disputerOutcome : Outcome
  disputerEvidenceUri : String
  proposalBond : ℤ
  disputeBond : ℤ
  votingStart : ℕ
  commitEnd : ℕ
  revealEnd : ℕ
  status : CouncilCaseStatus
  hasFinalOutcome : Bool
  finalOutcome : Outcome
  yesVotes : ℕ
  noVotes : ℕ
  invalidVotes : ℕ
  totalValidVotes : ℕ
  deriving DecidableEq, Repr

/-- Kinds under which a timelock action is announced. -/
inductive TimelockActionKind where
  | feeConfig
  | treasury
  | supportedCollateral
  | creator
  | councilMember
  | moduleAddress
  | pause
  | upgrade
  | timelock
  deriving DecidableEq, Repr

/-- What a timelock action does when it is executed. -/
inductive TimelockPayload where
  | treasury (a : Address)
  | creator (a : Address) (approved : Bool)
  | councilMember (a : Address) (approved : Bool)
  | supportedCollateral (a : Asset) (supported : Bool)
  | moduleAddress (role : Role) (module : Address)
  | pause (authority : Address)
  | feeConfig (config : FeeConfig)
  | upgrade (role : Role) (wasmHash : Hash)
  | timelock (a : Address)
  deriving DecidableEq, Repr

/-- The announced kind names the payload's own variant. -/
def TimelockPayload.matchesKind : TimelockPayload → TimelockActionKind → Bool
  | .treasury _, .treasury => true
  | .creator _ _, .creator => true
  | .councilMember _ _, .councilMember => true
  | .supportedCollateral _ _, .supportedCollateral => true
  | .moduleAddress _ _, .moduleAddress => true
  | .pause _, .pause => true
  | .feeConfig _, .feeConfig => true
  | .upgrade _ _, .upgrade => true
  | .timelock _, .timelock => true
  | _, _ => false

/-- A queued timelock action. -/
structure TimelockAction where
  id : ℕ
  kind : TimelockActionKind
  target : Address
  payload : TimelockPayload
  payloadHash : Hash
  executeAfter : ℕ
  expiresAt : ℕ
  executed : Bool
  cancelled : Bool
  deriving DecidableEq, Repr

end DikeProtocol
