import DikeProtocol.Resolution.Council
import DikeProtocol.Vault.Entry

/-!
# Oracle

A request to resolve a market goes from its proposal, when nobody disputes it,
to the final outcome; a disputed one goes to the council, whose outcome
divides the two bonds and resolves the market.
-/

namespace DikeProtocol.Oracle

open Lib

/-- Read a request that must exist. -/
def readRequest (o : OracleState) (requestId : ℕ) : Res ResolutionRequest :=
  orFault (o.request requestId) (.error .requestNotFound)

/-- Store a request under its own identifier. -/
def writeRequest (o : OracleState) (request : ResolutionRequest) : OracleState :=
  { o with request := o.request.set request.id (some request) }

/-- New requests are refused while the oracle is paused. -/
def ensureNotPaused (o : OracleState) : Res Unit :=
  refuse (o.paused = true) (.error .invalidStatus)

/-- Read a market at the registry. -/
def loadMarket (ctx : Ctx) (w : World) (marketId : MarketId) : Res MarketData := do
  let registry ← readRole w.oracle.roles .registry
  let _ ← ctx.call .oracle registry .registry
  Registry.getMarket w.registry marketId

/-- What is requested must be what the market was registered with. -/
def validateRequestMatchesMarket (market : MarketData) (questionHash : Hash) (rulesUri : String)
    (expiry : ℕ) (bondAmount : ℤ) (disputeWindow : ℕ) : Res Unit :=
  refuse (market.questionHash ≠ questionHash ∨ market.rulesUri ≠ rulesUri ∨
    market.expiry ≠ expiry ∨ market.bondAmount ≠ bondAmount ∨
    market.disputeWindow ≠ disputeWindow) (.error .invalidInput)

/-- Last time at which a proposal may be disputed. -/
def disputeDeadline (proposedAt disputeWindow : ℕ) : Res ℕ := checkedAddU64 proposedAt disputeWindow

/-- The oracle invokes the registry with what changes it. -/
def callRegistry (ctx : Ctx) (w : World)
    (op : Ctx → RegistryState → Res RegistryState) : Res World := do
  let registry ← readRole w.oracle.roles .registry
  let called ← ctx.call .oracle registry .registry
  let r ← op called w.registry
  return { w with registry := r }

/-- The oracle invokes the vault. -/
def callVault (ctx : Ctx) (w : World) (op : Ctx → World → Res World) : Res World := do
  let vault ← readRole w.oracle.roles .vault
  let called ← ctx.call .oracle vault .vault
  op called w

/-- The administrator hands over to another address. -/
def setAdmin (ctx : Ctx) (o : OracleState) (admin : Address) : Res OracleState := do
  requireAuth ctx o.admin
  return { o with admin := admin }

/-- The administrator stores the module of a role. -/
def setRole (ctx : Ctx) (o : OracleState) (role : Role) (module : Address) : Res OracleState := do
  requireAuth ctx o.admin
  return { o with roles := o.roles.set role (some module) }

/-- Governance stops or resumes new requests. -/
def pause (ctx : Ctx) (o : OracleState) (paused : Bool) : Res OracleState := do
  requireRole ctx o.roles .gov
  return { o with paused := paused }

/-- Anyone requests the resolution of an expired market, once. -/
def requestResolution (ctx : Ctx) (w : World) (marketId : MarketId) (questionHash : Hash)
    (rulesUri : String) (expiry : ℕ) (bondAmount : ℤ) (disputeWindow : ℕ) : Res (ℕ × World) := do
  ensureNotPaused w.oracle
  refuse (rulesUri = "" ∨ bondAmount ≤ 0 ∨ disputeWindow = 0) (.error .invalidInput)
  let market ← loadMarket ctx w marketId
  validateRequestMatchesMarket market questionHash rulesUri expiry bondAmount disputeWindow
  refuse (ctx.now < market.expiry) (.error .notExpired)
  refuse (market.hasFinalOutcome = true ∨ market.status = .resolved ∨ market.status = .cancelled)
    (.error .invalidStatus)
  let w ← (if market.status = .live then
      callRegistry ctx w (fun called r => Registry.closeTrading called r marketId)
    else do
      refuse (market.status ≠ .tradingClosed) (.error .invalidStatus)
      return w)
  refuse (w.oracle.marketRequest marketId ≠ none) (.error .invalidStatus)
  let requestId := w.oracle.nextRequestId
  let request : ResolutionRequest := {
    id := requestId
    marketId := marketId
    questionHash := questionHash
    rulesUri := rulesUri
    expiry := expiry
    requestedAt := ctx.now
    bondAmount := bondAmount
    disputeWindow := disputeWindow
    hasProposal := false
    proposer := .contract .oracle
    proposedOutcome := Outcome.unset
    proposalEvidenceUri := ""
    proposedAt := 0
    hasDispute := false
    disputer := .contract .oracle
    disputedOutcome := Outcome.unset
    disputeEvidenceUri := ""
    disputedAt := 0
    status := .requested
    hasFinalOutcome := false
    finalOutcome := Outcome.unset }
  let o := writeRequest w.oracle request
  let nextRequestId ← checkedAddU64 requestId 1
  let w := { w with oracle := { o with
    marketRequest := o.marketRequest.set marketId (some requestId)
    nextRequestId := nextRequestId } }
  let w ← callRegistry ctx w
    (fun called r => Registry.markResolutionRequested called r marketId requestId)
  return (requestId, w)

/-- Anyone proposes an outcome and locks the bond. -/
def proposeOutcome (ctx : Ctx) (w : World) (proposer : Address) (requestId : ℕ) (outcome : Outcome)
    (evidenceUri : String) : Res World := do
  requireAuth ctx proposer
  refuse (evidenceUri = "") (.error .evidenceRequired)
  let request ← readRequest w.oracle requestId
  refuse (request.status ≠ .requested) (.error .invalidStatus)
  let _ ← disputeDeadline ctx.now request.disputeWindow
  let market ← loadMarket ctx w request.marketId
  let w ← callVault ctx w (fun called w =>
    Vault.lockBond called w market.collateral proposer requestId request.marketId
      request.bondAmount false)
  let w := { w with oracle := writeRequest w.oracle { request with
    hasProposal := true
    proposer := proposer
    proposedOutcome := outcome
    proposalEvidenceUri := evidenceUri
    proposedAt := ctx.now
    status := .proposed } }
  callRegistry ctx w (fun called r => Registry.markProposed called r request.marketId)

/-- Anyone disputes a proposal in its window and locks the bond. -/
def disputeOutcome (ctx : Ctx) (w : World) (disputer : Address) (requestId : ℕ)
    (counterOutcome : Outcome) (evidenceUri : String) : Res World := do
  requireAuth ctx disputer
  refuse (evidenceUri = "") (.error .evidenceRequired)
  let request ← readRequest w.oracle requestId
  refuse (request.status ≠ .proposed) (.error .invalidStatus)
  refuse (request.hasProposal = false) (.error .invalidStatus)
  let deadline ← disputeDeadline request.proposedAt request.disputeWindow
  refuse (ctx.now > deadline) (.error .disputeWindowClosed)
  refuse (request.proposedOutcome = counterOutcome) (.error .invalidInput)
  let market ← loadMarket ctx w request.marketId
  let w ← callVault ctx w (fun called w =>
    Vault.lockBond called w market.collateral disputer requestId request.marketId
      request.bondAmount true)
  let w := { w with oracle := writeRequest w.oracle { request with
    hasDispute := true
    disputer := disputer
    disputedOutcome := counterOutcome
    disputeEvidenceUri := evidenceUri
    disputedAt := ctx.now
    status := .disputed } }
  callRegistry ctx w (fun called r => Registry.markDisputed called r request.marketId)

/-- The request with its outcome set. -/
def finalized (request : ResolutionRequest) (outcome : Outcome) : ResolutionRequest :=
  { request with hasFinalOutcome := true, finalOutcome := outcome, status := .finalized }

/-- Anyone finalizes a proposal nobody disputed in its window. -/
def finalizeUndisputed (ctx : Ctx) (w : World) (requestId : ℕ) : Res (Outcome × World) := do
  let request ← readRequest w.oracle requestId
  refuse (request.status ≠ .proposed) (.error .invalidStatus)
  refuse (request.hasProposal = false) (.error .invalidStatus)
  let deadline ← disputeDeadline request.proposedAt request.disputeWindow
  refuse (ctx.now ≤ deadline) (.error .disputeWindowOpen)
  let outcome := request.proposedOutcome
  let market ← loadMarket ctx w request.marketId
  let w ← callRegistry ctx w
    (fun called r => Registry.setFinalOutcome called r request.marketId outcome)
  let w ← callVault ctx w (fun called w =>
    Vault.releaseBond called w market.collateral request.proposer requestId request.bondAmount
      false)
  return (outcome, { w with oracle := writeRequest w.oracle (finalized request outcome) })

/-- Anyone escalates a disputed request to the council. -/
def escalateToCouncil (ctx : Ctx) (w : World) (requestId : ℕ) : Res World := do
  let request ← readRequest w.oracle requestId
  refuse (request.status ≠ .disputed) (.error .invalidStatus)
  let market ← loadMarket ctx w request.marketId
  let council ← readRole w.oracle.roles .council
  let called ← ctx.call .oracle council .council
  let (_, c) ← Council.openCase called w.council request.id request.marketId request.proposer
    request.proposedOutcome request.proposalEvidenceUri request.disputer request.disputedOutcome
    request.disputeEvidenceUri
    { proposalBond := request.bondAmount
      disputeBond := request.bondAmount
      commitDuration := request.disputeWindow
      revealDuration := request.disputeWindow
      token := market.collateral }
  let w ← callRegistry ctx { w with council := c }
    (fun called r => Registry.markCouncilVoting called r request.marketId)
  return { w with oracle := writeRequest w.oracle { request with status := .escalated } }

/-- The council's share of a lost bond, paid to it and booked for the case. -/
def rewardCouncil (ctx : Ctx) (w : World) (token : Asset) (loser council : Address) (requestId : ℕ)
    (amount : ℤ) (isDispute : Bool) : Res World :=
  if amount > 0 then do
    let w ← callVault ctx w (fun called w =>
      Vault.slashBond called w token loser requestId amount isDispute council)
    let called ← ctx.call .oracle council .council
    let caseId ← Council.caseForRequest w.council requestId
    let c ← Council.recordCaseReward called w.council caseId amount
    return { w with council := c }
  else .ok w

/-- The treasury's share of a lost bond. -/
def rewardTreasury (ctx : Ctx) (w : World) (token : Asset) (loser treasury : Address)
    (requestId : ℕ) (amount : ℤ) (isDispute : Bool) : Res World :=
  if amount > 0 then
    callVault ctx w (fun called w =>
      Vault.slashBond called w token loser requestId amount isDispute treasury)
  else .ok w

/-- The winner gets its own bond back and a share of the loser's; council and
treasury get the rest of it. `loserDisputes` says which of the two bonds is lost. -/
def settleBonds (ctx : Ctx) (w : World) (token : Asset) (winner loser : Address) (requestId : ℕ)
    (bondAmount : ℤ) (loserDisputes : Bool) : Res World := do
  let w ← callVault ctx w (fun called w =>
    Vault.releaseBond called w token winner requestId bondAmount (!loserDisputes))
  let feeManager ← readRole w.oracle.roles .fees
  let treasury ← readRole w.oracle.roles .treas
  let council ← readRole w.oracle.roles .council
  let _ ← ctx.call .oracle feeManager .feeManager
  let (winnerAmt, councilAmt, treasuryAmt) ← FeeManager.losingBondSplit w.feeManager bondAmount
  let w ← callVault ctx w (fun called w =>
    Vault.slashBond called w token loser requestId winnerAmt loserDisputes winner)
  let w ← rewardCouncil ctx w token loser council requestId councilAmt loserDisputes
  rewardTreasury ctx w token loser treasury requestId treasuryAmt loserDisputes

/-- Both bonds go back when the outcome is neither the proposed nor the disputed one. -/
def returnBonds (ctx : Ctx) (w : World) (token : Asset) (request : ResolutionRequest)
    (requestId : ℕ) : Res World := do
  let w ← callVault ctx w (fun called w =>
    Vault.releaseBond called w token request.proposer requestId request.bondAmount false)
  callVault ctx w (fun called w =>
    Vault.releaseBond called w token request.disputer requestId request.bondAmount true)

/-- Divide the bonds of a request under this outcome. -/
def divideBonds (ctx : Ctx) (w : World) (token : Asset) (request : ResolutionRequest)
    (requestId : ℕ) (outcome : Outcome) : Res World :=
  if outcome = request.proposedOutcome then
    settleBonds ctx w token request.proposer request.disputer requestId request.bondAmount true
  else if outcome = request.disputedOutcome then
    settleBonds ctx w token request.disputer request.proposer requestId request.bondAmount false
  else returnBonds ctx w token request requestId

/-- The council reports the outcome of an escalated request: the bonds are
divided and the market is resolved. -/
def reportCouncilOutcome (ctx : Ctx) (w : World) (requestId : ℕ) (outcome : Outcome) :
    Res World := do
  requireRole ctx w.oracle.roles .council
  let request ← readRequest w.oracle requestId
  refuse (request.status ≠ .escalated) (.error .invalidStatus)
  refuse (request.hasFinalOutcome = true) (.error .alreadyResolved)
  let market ← loadMarket ctx w request.marketId
  let w ← divideBonds ctx w market.collateral request requestId outcome
  let w ← callRegistry ctx w
    (fun called r => Registry.setFinalOutcome called r request.marketId outcome)
  return { w with oracle := writeRequest w.oracle (finalized request outcome) }

/-- An invocation of the oracle. -/
inductive OracleOp where
  | setAdmin (admin : Address)
  | upgrade (wasmHash : Hash)
  | setRole (role : Role) (module : Address)
  | pause (paused : Bool)
  | requestResolution (marketId : MarketId) (questionHash : Hash) (rulesUri : String) (expiry : ℕ)
      (bondAmount : ℤ) (disputeWindow : ℕ)
  | proposeOutcome (proposer : Address) (requestId : ℕ) (outcome : Outcome) (evidenceUri : String)
  | disputeOutcome (disputer : Address) (requestId : ℕ) (counterOutcome : Outcome)
      (evidenceUri : String)
  | finalizeUndisputed (requestId : ℕ)
  | escalateToCouncil (requestId : ℕ)
  | reportCouncilOutcome (requestId : ℕ) (outcome : Outcome)

/-- The world after a change of the oracle's own storage. -/
def store (w : World) (x : Res OracleState) : Res World := do
  let o ← x
  return { w with oracle := o }

/-- Execute an invocation. Replacing the code is only its authorization here. -/
def OracleOp.exec (ctx : Ctx) (w : World) : OracleOp → Res World
  | setAdmin admin => store w (Oracle.setAdmin ctx w.oracle admin)
  | upgrade _ => do
    requireAuth ctx w.oracle.admin
    return w
  | setRole role module => store w (Oracle.setRole ctx w.oracle role module)
  | pause paused => store w (Oracle.pause ctx w.oracle paused)
  | requestResolution marketId questionHash rulesUri expiry bondAmount disputeWindow =>
    world (Oracle.requestResolution ctx w marketId questionHash rulesUri expiry bondAmount
      disputeWindow)
  | proposeOutcome proposer requestId outcome evidenceUri =>
    Oracle.proposeOutcome ctx w proposer requestId outcome evidenceUri
  | disputeOutcome disputer requestId counterOutcome evidenceUri =>
    Oracle.disputeOutcome ctx w disputer requestId counterOutcome evidenceUri
  | finalizeUndisputed requestId => world (Oracle.finalizeUndisputed ctx w requestId)
  | escalateToCouncil requestId => Oracle.escalateToCouncil ctx w requestId
  | reportCouncilOutcome requestId outcome => Oracle.reportCouncilOutcome ctx w requestId outcome

end DikeProtocol.Oracle

namespace DikeProtocol.Council

open Lib

/-- Anyone tallies a case and has the oracle settle its request. -/
def finalizeAndReportCase (ctx : Ctx) (w : World) (caseId : ℕ) : Res (Outcome × World) := do
  let (outcome, c) ← finalizeCase ctx w.council caseId
  let w := { w with council := c }
  let case ← readCase w.council caseId
  let oracle ← readRole w.council.roles .oracle
  let called ← ctx.call .council oracle .oracle
  let w ← Oracle.reportCouncilOutcome called w case.requestId outcome
  return (outcome, w)

/-- An invocation of the council. -/
inductive CouncilOp where
  | setAdmin (admin : Address)
  | upgrade (wasmHash : Hash)
  | setRole (role : Role) (module : Address)
  | setMember (member : Address) (approved : Bool)
  | pause (paused : Bool)
  | recordCaseReward (caseId : ℕ) (amount : ℤ)
  | openCase (requestId : ℕ) (marketId : MarketId) (proposer : Address) (proposerOutcome : Outcome)
      (proposerEvidenceUri : String) (disputer : Address) (disputerOutcome : Outcome)
      (disputerEvidenceUri : String) (config : OpenCaseConfig)
  | commitVote (voter : Address) (caseId : ℕ) (commitment : Hash)
  | revealVote (voter : Address) (caseId : ℕ) (outcome : Outcome) (salt : Hash)
  | finalizeCase (caseId : ℕ)
  | finalizeAndReportCase (caseId : ℕ)
  | claimReward (voter : Address) (caseId : ℕ)
  | sweepCaseReward (caseId : ℕ) (recipient : Address)

/-- The world after a change of the council's own storage. -/
def store (w : World) (x : Res CouncilState) : Res World := do
  let c ← x
  return { w with council := c }

/-- The council's storage after an invocation that returned a value. -/
def storage {α : Type} (x : Res (α × CouncilState)) : Res CouncilState := do
  let (_, c) ← x
  return c

/-- Execute an invocation. Replacing the code is only its authorization here. -/
def CouncilOp.exec (ctx : Ctx) (w : World) : CouncilOp → Res World
  | setAdmin admin => store w (Council.setAdmin ctx w.council admin)
  | upgrade _ => do
    requireAuth ctx w.council.admin
    return w
  | setRole role module => store w (Council.setRole ctx w.council role module)
  | setMember member approved => store w (Council.setMember ctx w.council member approved)
  | pause paused => store w (Council.pause ctx w.council paused)
  | recordCaseReward caseId amount => store w (Council.recordCaseReward ctx w.council caseId amount)
  | openCase requestId marketId proposer proposerOutcome proposerEvidenceUri disputer
      disputerOutcome disputerEvidenceUri config =>
    store w (storage (Council.openCase ctx w.council requestId marketId proposer proposerOutcome
      proposerEvidenceUri disputer disputerOutcome disputerEvidenceUri config))
  | commitVote voter caseId commitment =>
    store w (Council.commitVote ctx w.council voter caseId commitment)
  | revealVote voter caseId outcome salt =>
    store w (Council.revealVote ctx w.host w.council voter caseId outcome salt)
  | finalizeCase caseId => store w (storage (Council.finalizeCase ctx w.council caseId))
  | finalizeAndReportCase caseId => world (Council.finalizeAndReportCase ctx w caseId)
  | claimReward voter caseId => world (Council.claimReward ctx w voter caseId)
  | sweepCaseReward caseId recipient => world (Council.sweepCaseReward ctx w caseId recipient)

end DikeProtocol.Council
