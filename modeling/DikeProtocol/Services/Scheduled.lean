import DikeProtocol.Lib.Double
import DikeProtocol.Lib.Task
import DikeProtocol.Services.Dispatcher
import DikeProtocol.Services.Storage

/-!
# Scheduled reconciliation

A timer has every row read again: governance, every market with its pool, its
resolution and its books, every known position, share and timelock action. The
calls are awaited one after the other, and anything may have changed between
two of them. A step that fails is logged and the next one is taken.
-/

namespace DikeProtocol.Services.Scheduled

open Lib Indexer

/-- The columns of a user's vault state, each with a getter of the vault. -/
inductive VaultColumn where
  | userDeposit
  | rootStakeYes
  | rootStakeNo
  | childUsedTotal
  | childUsedYes
  | childUsedNo
  | childDebt
  | parentDebtYes
  | parentDebtNo
  | redeemedYes
  | redeemedNo
  | redeemedInvalid
  deriving DecidableEq

/-- In the order they are read and stored. -/
def vaultColumns : List VaultColumn :=
  [.userDeposit, .rootStakeYes, .rootStakeNo, .childUsedTotal, .childUsedYes, .childUsedNo,
    .childDebt, .parentDebtYes, .parentDebtNo, .redeemedYes, .redeemedNo, .redeemedInvalid]

/-- What the contracts answer when they are called, or how the call fails. -/
structure Contracts (V : Type) where
  latestLedger : Except String ℕ
  nextMarketId : Except String ℕ
  treasury : Except String String
  timelock : Except String String
  pauseAuthority : Except String String
  feeConfig : Except String FeeConfig
  module : String → Except String String
  events : EventRequest → Except String (EventPage V)
  market : ℕ → Except String MarketData
  isTradeable : ℕ → Except String Bool
  pool : ℕ → Except String PoolData
  request : ℕ → Except String ResolutionRequest
  caseForRequest : ℕ → Except String ℕ
  councilCase : ℕ → Except String CouncilCase
  caseRewardPool : ℕ → Except String ℤ
  vaultAccounting : ℕ → Except String VaultAccounting
  positionBalance : String → ℕ → Outcome → Except String ℤ
  lpBalance : ℕ → String → Except String ℤ
  lpFeeCheckpoint : ℕ → String → Except String ℤ
  claimableLpFees : ℕ → String → Except String ℤ
  userVaultState : VaultColumn → ℕ → String → Except String ℤ
  timelockAction : ℕ → Except String TimelockAction

/-- What a call meets at one moment: the contracts, whether the database can be reached, and the
approvals that its recorded events of a contract and a topic amount to. -/
structure Moment (V : Type) where
  contracts : Contracts V
  database : Bool
  approvals : String → String → List (String × Bool)

/-- The job: whether a pass is going on, how many calls were awaited, the rows, and the markets
with a noted mismatch. -/
structure JobState where
  running : Bool
  calls : ℕ
  rows : Tables
  mismatches : List ℕ

/-- Another call was awaited. -/
def JobState.awaited (s : JobState) : JobState := { s with calls := s.calls + 1 }

/-- A part of a pass, which may fail halfway. -/
abbrev Task (α : Type) := EStateM String JobState α

section Calls

variable {V α : Type} (history : ℕ → Moment V)

/-- Call a contract, as it is by then. -/
def call (read : Contracts V → Except String α) : Task α := fun s =>
  match read (history s.calls).contracts with
  | .ok a => .ok a s.awaited
  | .error e => .error e s.awaited

/-- Call a contract, with a value for when that fails. -/
def callOr (fallback : α) (read : Contracts V → Except String α) : Task α :=
  tryCatch (call history read) (fun _ => pure fallback)

/-- Ask the database. -/
def query (read : Moment V → Tables → α) : Task α := fun s =>
  if (history s.calls).database then .ok (read (history s.calls) s.rows) s.awaited
  else .error "database" s.awaited

/-- Write a row, whatever it was before, if its columns are allowed and hold their values. -/
def upsert (row : Row) (content : row.Content) : Task PUnit := fun s =>
  match row.spec with
  | .error e => .error e s
  | .ok _ =>
    if (history s.calls).database ∧ row.keyNumber < 2 ^ 63 ∧ row.fits content then
      .ok ⟨⟩ { s.awaited with rows := s.rows.insert row content }
    else .error "database" s.awaited

/-- Note that the registry and the row of a market disagree. -/
def noteMismatch (marketId : ℕ) : Task PUnit := fun s =>
  if (history s.calls).database then
    .ok ⟨⟩ { s.awaited with mismatches := s.mismatches ++ [marketId] }
  else .error "database" s.awaited

end Calls

section Approvals

variable {V : Type} (manifest : Manifest) (scValToNative : V → Option Js)

/-- The identifier of a contract. -/
def contractId (name : String) : String :=
  ((manifest.contracts.find? (fun entry => entry.1 = name)).map Prod.snd).getD ""

/-- The approval that an event with a topic is about. -/
def approvalOf (topic : String) (event : RawEvent V) : Option (String × Bool) :=
  let decoded := decodeRawEvent scValToNative event
  if decoded.topic ≠ topic then none
  else match decoded.topicValues.getD 1 .undefined with
    | .string address =>
      if address = "" then none
      else some (address, match decoded.payload with
        | .boolean approved => approved
        | _ => false)
    | _ => none

/-- Set the approval of an address, in its place. -/
def setApproval (approvals : List (String × Bool)) (approval : String × Bool) :
    List (String × Bool) :=
  if approvals.any (fun entry => entry.1 = approval.1) then
    approvals.map (fun entry => if entry.1 = approval.1 then approval else entry)
  else approvals ++ [approval]

variable (history : ℕ → Moment V)

/-- Fetch pages of events, at most so many. -/
def approvalPages (id topic : String) :
    ℕ → EventRequest → List (String × Bool) → Task (List (String × Bool))
  | 0, _, approvals => pure approvals
  | pages + 1, request, approvals => do
    let response ← call history (fun c => c.events request)
    let approvals :=
      (response.events.filterMap (approvalOf scValToNative topic)).foldl setApproval approvals
    match response.cursor with
    | none => return approvals
    | some cursor =>
      if cursor = "" ∨ response.events.length < 100 then
        return approvals
      approvalPages id topic pages (.cursor id cursor 100) approvals

/-- The approvals among the events of the last ledgers. -/
def fetchRecentApprovalEvents (id topic : String) (latestLedger : ℕ) :
    Task (List (String × Bool)) :=
  approvalPages scValToNative history id topic 10
    (.window id (max 1 ((latestLedger : ℤ) - 5000)) latestLedger 100) []

/-- Recorded approvals, and where there are none the ones a task finds. -/
def whenEmpty (approvals : List (String × Bool)) (task : Task (List (String × Bool))) :
    Task (List (String × Bool)) :=
  if approvals.isEmpty then task else pure approvals

/-- The roles that governance knows modules for. -/
def moduleRoles : List String :=
  ["factory", "registry", "tokens", "vault", "amm", "oracle", "council", "gov", "timelock"]

/-- Read the module of a role, unless that fails. -/
def reconcileModule (role : String) : Task PUnit :=
  tryCatch
    (do
      let moduleAddress ← call history (fun c => c.module role)
      upsert history (.governanceModules role) moduleAddress)
    (fun _ => pure ⟨⟩)

/-- Read the settings of governance again. -/
def reconcileGovernance (latestLedger : ℕ) : Task PUnit := do
  let treasury ← callOr history none (fun c => c.treasury.map some)
  let timelock ← callOr history none (fun c => c.timelock.map some)
  let pauseAuthority ← callOr history none (fun c => c.pauseAuthority.map some)
  let feeConfig ← callOr history none (fun c => c.feeConfig.map some)
  upsert history .governanceConfig
    { treasury
      timelock := timelock.getD (contractId manifest "dike_timelock")
      feeConfig
      pauseAuthority }
  let factory := contractId manifest "market_factory"
  let council := contractId manifest "council_of_dike"
  let creatorApprovals ← query history (fun moment _ => moment.approvals factory "creator")
  let councilApprovals ← query history (fun moment _ => moment.approvals council "member")
  let creatorApprovals ← whenEmpty creatorApprovals
    (fetchRecentApprovalEvents scValToNative history factory "creator" latestLedger)
  let councilApprovals ← whenEmpty councilApprovals
    (fetchRecentApprovalEvents scValToNative history council "member" latestLedger)
  creatorApprovals.forM (fun approval =>
    upsert history (.governanceLists "creator" approval.1) approval.2)
  councilApprovals.forM (fun approval =>
    upsert history (.governanceLists "member" approval.1) approval.2)
  moduleRoles.forM (reconcileModule history)

end Approvals

section Reconcile

variable {V : Type} (history : ℕ → Moment V) (latestLedger : ℕ)

/-- Read a pool and write its row. -/
def reconcilePool (poolId : ℕ) : Task PUnit := do
  let pool ← call history (fun c => c.pool poolId)
  upsert history (.pools poolId) ⟨pool, latestLedger⟩

/-- Read a case and what it rewards, and write its row. -/
def reconcileCase (caseId : ℕ) : Task PUnit := do
  let councilCase ← call history (fun c => c.councilCase caseId)
  let rewardPool ← callOr history 0 (fun c => c.caseRewardPool caseId)
  upsert history (.councilCases caseId) ⟨⟨councilCase, rewardPool⟩, latestLedger⟩

/-- Read a request and write its row, and its case with it unless that fails. -/
def reconcileRequest (requestId : ℕ) : Task PUnit := do
  let request ← call history (fun c => c.request requestId)
  upsert history (.resolutionRequests requestId) ⟨request, latestLedger⟩
  tryCatch
    (do
      let caseId ← call history (fun c => c.caseForRequest requestId)
      reconcileCase history latestLedger (toDouble caseId))
    (fun _ => pure ⟨⟩)

/-- Read a market and write its row, then its pool and its request. -/
def reconcileMarket (marketId : ℕ) : Task PUnit := do
  let market ← call history (fun c => c.market marketId)
  let tradeable ← callOr history none (fun c => (c.isTradeable marketId).map some)
  upsert history (.markets marketId) ⟨market, latestLedger⟩
  reconcilePool history latestLedger (toDouble market.poolId)
  if market.hasRequest then
    reconcileRequest history latestLedger (toDouble market.requestId)
  if tradeable = some false ∧ market.status = .live then
    noteMismatch history marketId

/-- Read the books of a market and write their row. -/
def reconcileVault (marketId : ℕ) : Task PUnit := do
  let vault ← call history (fun c => c.vaultAccounting marketId)
  upsert history (.vaultSnapshots marketId) ⟨vault, latestLedger⟩

/-- Read a balance and write its row, unless it cannot be read. -/
def reconcileBalance (marketId : ℕ) (owner : String) (outcome : Outcome) : Task PUnit := do
  let balance ← callOr history none (fun c => (c.positionBalance owner marketId outcome).map some)
  match balance with
  | none => pure ⟨⟩
  | some balance => upsert history (.userPositions marketId owner outcome) ⟨balance, latestLedger⟩

/-- Read an owner's balances of a market. -/
def reconcileUserPosition (marketId : ℕ) (owner : String) : Task PUnit :=
  [.yes, .no, .invalid].forM (reconcileBalance history latestLedger marketId owner)

/-- Read an owner's state in the vault and write its row, with zeros where that fails. -/
def reconcileUserVaultState (marketId : ℕ) (owner : String) : Task PUnit := do
  let values ← vaultColumns.mapM (fun column =>
    callOr history 0 (fun c => c.userVaultState column marketId owner))
  upsert history (.userVaultState marketId owner) ⟨values, latestLedger⟩

/-- Read a liquidity provider's shares and fees and write their row. -/
def reconcileLpPosition (poolId : ℕ) (owner : String) : Task PUnit := do
  let shares ← call history (fun c => c.lpBalance poolId owner)
  let checkpoint ← callOr history 0 (fun c => c.lpFeeCheckpoint poolId owner)
  let claimable ← callOr history 0 (fun c => c.claimableLpFees poolId owner)
  upsert history (.lpPositions poolId owner) ⟨⟨shares, checkpoint, claimable⟩, latestLedger⟩

/-- Read a timelock action and write its row. -/
def reconcileTimelockAction (actionId : ℕ) : Task PUnit := do
  let action ← call history (fun c => c.timelockAction actionId)
  upsert history (.timelockActions actionId) ⟨action, latestLedger⟩

end Reconcile

section Lists

/-- The markets with a row, the highest first. -/
def listKnownMarketIds (rows : Tables) : List ℕ :=
  (rows.keys.filterMap fun row =>
    match row with
    | .markets marketId => some marketId
    | _ => none).mergeSort (fun a b => b ≤ a)

/-- The owners with a position in a market. -/
def listKnownPositionOwners (marketId : ℕ) (rows : Tables) : List String :=
  (rows.keys.filterMap fun row =>
    match row with
    | .userPositions id owner _ => if id = marketId then some owner else none
    | _ => none).dedup

/-- The providers with shares of a pool. -/
def listKnownLpOwners (poolId : ℕ) (rows : Tables) : List String :=
  (rows.keys.filterMap fun row =>
    match row with
    | .lpPositions id owner => if id = poolId then some owner else none
    | _ => none).dedup

/-- The market and the pool that an entry of the pools pairs. -/
def marketPool : (Σ row : Row, row.Content) → Option (ℕ × ℕ)
  | ⟨.pools poolId, pool⟩ => some (toDouble pool.content.marketId, poolId)
  | _ => none

/-- The pools with a row, each with its market. -/
def listKnownMarketPools (rows : Tables) : List (ℕ × ℕ) := rows.entries.filterMap marketPool

/-- The timelock actions with a row, the highest first. -/
def listKnownTimelockActionIds (rows : Tables) : List ℕ :=
  (rows.keys.filterMap fun row =>
    match row with
    | .timelockActions actionId => some actionId
    | _ => none).mergeSort (fun a b => b ≤ a)

end Lists

section Pass

variable {V : Type} (manifest : Manifest) (scValToNative : V → Option Js)
  (history : ℕ → Moment V)

/-- Take a step, and go on where it fails. -/
def safeStep (step : Task PUnit) : Task PUnit := tryCatch step (fun _ => pure ⟨⟩)

/-- The known markets and all below the factory's counter, or only the known ones where the
counter cannot be read. -/
def discoverMarketIds (known : List ℕ) : Task (List ℕ) :=
  tryCatch
    (do
      let next ← call history Contracts.nextMarketId
      let nextMarketId := toDouble next
      if nextMarketId < 1 ∨ 2 ^ 53 ≤ nextMarketId then
        throw "Invalid next market id"
      return known ++ (List.range' 1 (nextMarketId - 1)).filter (· ∉ known))
    (fun _ => pure known)

/-- The pool that is paired last with a market. -/
def poolByMarket (pools : List (ℕ × ℕ)) (marketId : ℕ) : Option ℕ :=
  ((pools.filter (fun entry => entry.1 = marketId)).getLast?).map Prod.snd

/-- Read the shares of a pool's providers again. -/
def sweepPool (latestLedger poolId : ℕ) : Task PUnit := do
  let owners ← query history (fun _ => listKnownLpOwners poolId)
  owners.forM (fun owner => safeStep (reconcileLpPosition history latestLedger poolId owner))

/-- Read a market again, with all that is known of it. -/
def sweepMarket (latestLedger : ℕ) (pools : List (ℕ × ℕ)) (marketId : ℕ) : Task PUnit := do
  safeStep (reconcileMarket history latestLedger marketId)
  safeStep (reconcileVault history latestLedger marketId)
  let owners ← query history (fun _ => listKnownPositionOwners marketId)
  owners.forM (fun owner =>
    safeStep (reconcileUserPosition history latestLedger marketId owner))
  owners.forM (fun owner =>
    safeStep (reconcileUserVaultState history latestLedger marketId owner))
  match poolByMarket pools marketId with
  | none => pure ⟨⟩
  | some poolId => sweepPool history latestLedger poolId

/-- Read everything again. -/
def pass : Task PUnit := do
  let latestLedger ← call history Contracts.latestLedger
  safeStep (reconcileGovernance manifest scValToNative history latestLedger)
  let known ← query history (fun _ => listKnownMarketIds)
  let marketIds ← discoverMarketIds history known
  let pools ← query history (fun _ => listKnownMarketPools)
  marketIds.forM (sweepMarket history latestLedger pools)
  let actionIds ← query history (fun _ => listKnownTimelockActionIds)
  actionIds.forM (fun actionId =>
    safeStep (reconcileTimelockAction history latestLedger actionId))

/-- The timer fires: unless a pass is going on, one is made, and whatever fails is logged. -/
def tick : Task PUnit := do
  let s ← get
  if s.running then
    return
  modify (fun s => { s with running := true })
  tryCatch (pass manifest scValToNative history) (fun _ => pure ⟨⟩)
  modify (fun s => { s with running := false })

end Pass

end DikeProtocol.Services.Scheduled
