import DikeProtocol.Registry

/-!
# The deployed protocol

What each constructor stores, and the wiring the deployment performs before
the protocol is used: which contract stands behind each role of each other.
-/

namespace DikeProtocol

open Lib

/-- The registry as its constructor leaves it. -/
def freshRegistry (admin : Address) : RegistryState where
  admin := admin
  roles := .empty
  supportedCollateral := .empty
  market := .empty
  nextMarketId := 1
  paused := false

/-- The conditional tokens as their constructor leaves them. -/
def freshTokens (admin : Address) : TokensState where
  admin := admin
  roles := .empty
  balance := .empty
  backing := .empty
  paused := false

/-- The vault as its constructor leaves it. -/
def freshVault (admin treasury : Address) : VaultState where
  admin := admin
  roles := .empty
  treasury := treasury
  accounting := .empty
  userDeposit := .empty
  rootStake := .empty
  childUsedByOutcome := .empty
  childUsed := .empty
  childParent := .empty
  childParentOutcome := .empty
  childLoan := .empty
  childLoanByOutcome := .empty
  childDebt := .empty
  parentDebt := .empty
  childMarketsOf := .empty
  insuranceReserve := 0
  bond := .empty
  bondToken := .empty
  bondMarket := .empty
  redeemed := .empty
  invalidDustCarry := .empty
  paused := false

/-- The market maker as its constructor leaves it. -/
def freshAmm (admin : Address) : AmmState where
  admin := admin
  roles := .empty
  vault := none
  tokens := none
  collateral := none
  registry := none
  pool := .empty
  poolFee := .empty
  lpBalance := .empty
  lpFeeCheckpoint := .empty
  nextPoolId := 1
  paused := false

/-- The fee manager as its constructor leaves it. -/
def freshFeeManager (admin governance : Address) (minBond : ℤ) (bondBps : ℕ) : FeeManagerState where
  admin := admin
  governance := governance
  config := FeeConfig.default
  minBond := minBond
  bondBps := bondBps
  winnerBondShareBps := 6000
  councilBondShareBps := 3000
  treasuryBondShareBps := 1000

/-- The council as its constructor leaves it. -/
def freshCouncil (admin : Address) : CouncilState where
  admin := admin
  roles := .empty
  member := .empty
  caseData := .empty
  requestCase := .empty
  nextCaseId := 1
  commit := .empty
  reveal := .empty
  claimed := .empty
  caseToken := .empty
  caseRewardPool := .empty
  paused := false

/-- The oracle as its constructor leaves it. -/
def freshOracle (admin : Address) : OracleState where
  admin := admin
  roles := .empty
  request := .empty
  marketRequest := .empty
  nextRequestId := 1
  paused := false

/-- The governance contract as its constructor leaves it. -/
def freshGovernance (admin treasury : Address) : GovernanceState where
  admin := admin
  treasury := treasury
  timelock := none
  creator := .empty
  councilMember := .empty
  supportedCollateral := .empty
  module := .empty
  pauseAuthority := none
  feeConfig := FeeConfig.default
  upgradeHash := .empty

/-- The timelock as its constructor leaves it. -/
def freshTimelock (admin proposer executor : Address) (minDelay gracePeriod : ℕ) :
    TimelockState where
  admin := admin
  proposer := proposer
  executor := executor
  minDelay := minDelay
  gracePeriod := gracePeriod
  nextActionId := 1
  action := .empty

/-- The factory as its constructor leaves it. -/
def freshFactory (admin governance : Address) (minLiquidity : ℤ) (minExpiryDuration : ℕ) :
    FactoryState where
  admin := admin
  governance := governance
  registry := none
  tokens := none
  vault := none
  amm := none
  feeManager := none
  creator := .empty
  collateral := .empty
  minLiquidity := minLiquidity
  minExpiryDuration := minExpiryDuration
  nextMarketId := 1
  paused := false

/-- A role table with these entries. -/
def roleTable : List (Role × Address) → Store Role (Option Address)
  | [] => .empty
  | (role, module) :: entries => (roleTable entries).set role (some module)

/-- Who and what a deployment is made for. The authorities are accounts, none
of them one of the protocol's own contracts. -/
structure Launch where
  admin : ℕ
  gov : ℕ
  treasury : ℕ
  proposer : ℕ
  executor : ℕ
  collateral : Asset
  minBond : ℤ
  bondBps : ℕ
  minLiquidity : ℤ
  minExpiryDuration : ℕ
  minDelay : ℕ
  gracePeriod : ℕ
  bank : Bank
  host : Host

/-- The world after deployment and wiring. -/
def deploy (l : Launch) : World where
  registry :=
    { freshRegistry (.account l.admin) with
      roles := roleTable [(.factory, .contract .factory), (.oracle, .contract .oracle),
        (.gov, .account l.gov)]
      supportedCollateral := Store.empty.set l.collateral true }
  tokens :=
    { freshTokens (.account l.admin) with
      roles := roleTable [(.vault, .contract .vault), (.amm, .contract .amm)] }
  vault :=
    { freshVault (.account l.admin) (.account l.treasury) with
      roles := roleTable [(.tokens, .contract .tokens), (.oracle, .contract .oracle),
        (.amm, .contract .amm), (.gov, .account l.gov), (.registry, .contract .registry)] }
  amm :=
    { freshAmm (.account l.admin) with
      roles := roleTable [(.factory, .contract .factory), (.gov, .account l.gov)]
      vault := some (.contract .vault)
      tokens := some (.contract .tokens)
      collateral := some l.collateral
      registry := some (.contract .registry) }
  feeManager := freshFeeManager (.account l.admin) (.contract .governance) l.minBond l.bondBps
  council :=
    { freshCouncil (.account l.admin) with
      roles := roleTable [(.gov, .account l.gov), (.oracle, .contract .oracle)] }
  oracle :=
    { freshOracle (.account l.admin) with
      roles := roleTable [(.gov, .account l.gov), (.council, .contract .council),
        (.registry, .contract .registry), (.vault, .contract .vault),
        (.fees, .contract .feeManager), (.treas, .account l.treasury)] }
  governance :=
    { freshGovernance (.account l.admin) (.account l.treasury) with
      timelock := some (.contract .timelock) }
  timelock :=
    freshTimelock (.account l.admin) (.account l.proposer) (.account l.executor) l.minDelay
      l.gracePeriod
  factory :=
    { freshFactory (.account l.admin) (.account l.gov) l.minLiquidity l.minExpiryDuration with
      registry := some (.contract .registry)
      tokens := some (.contract .tokens)
      vault := some (.contract .vault)
      amm := some (.contract .amm)
      feeManager := some (.contract .feeManager)
      creator := Store.empty.set (.account l.admin) true
      collateral := Store.empty.set l.collateral true }
  bank := l.bank
  host := l.host

/-- The collateral of the sample deployment. -/
def sampleToken : Asset := ⟨1⟩

/-- Two traders of the sample deployment. -/
def alice : Address := .account 10

/-- The second trader. -/
def bob : Address := .account 11

/-- A small deployment to evaluate runs on, with collateral in three hands. -/
def sampleLaunch : Launch where
  admin := 1
  gov := 2
  treasury := 3
  proposer := 4
  executor := 5
  collateral := sampleToken
  minBond := 10
  bondBps := 100
  minLiquidity := 100
  minExpiryDuration := 10
  minDelay := 10
  gracePeriod := 10
  bank := ((Bank.empty.issue sampleToken alice 1000000).issue sampleToken bob 1000000).issue
    sampleToken (.account 1) 1000000
  host := { payloadHash := fun _ => 0, voteCommitmentHash := fun _ _ _ _ => 0 }

/-- The market every sample run opens. -/
def sampleConfig : MarketConfig where
  question := "question"
  questionHash := 0
  rulesUri := "rules"
  rulesHash := 0
  expiry := 1000
  collateral := sampleToken
  bondAmount := 10
  disputeWindow := 100
  category := "category"
  creator := .account 1
  feeConfig := FeeConfig.default

/-- The factory invokes. -/
def byFactory : Ctx := ⟨1, [], [.contract .factory]⟩

/-- An account invokes by its signature. -/
def bySigner (a : Address) : Ctx := ⟨1, [a], []⟩

/-- A market of the sample deployment. -/
def sampleMarket (id : MarketId) (status : MarketStatus) (final : Option Outcome) : MarketData where
  id := id
  question := "question"
  questionHash := 0
  rulesUri := "rules"
  rulesHash := 0
  creator := .account 1
  collateral := sampleToken
  yesTokenId := 2 * id
  noTokenId := 2 * id + 1
  expiry := 1000
  status := status
  hasFinalOutcome := final.isSome
  finalOutcome := final.getD Outcome.unset
  poolId := id
  bondAmount := 10
  disputeWindow := 100
  hasRequest := false
  requestId := 0
  createdAt := 0
  feeConfig := FeeConfig.default

/-- The sample registry holding these markets. -/
def sampleRegistry (markets : List MarketData) : RegistryState :=
  markets.foldl Registry.writeMarket (deploy sampleLaunch).registry

end DikeProtocol
