import DikeProtocol.Governance.Entry
import DikeProtocol.Resolution.Oracle
import DikeProtocol.Amm.Entry

/-!
# Timelock

An action is queued with its target and payload, waits at least the minimal
delay, and is then executed once or never: the payload's variant decides which
function of the target is called.
-/

namespace DikeProtocol.Factory

open Lib

/-- The timelock governance names approves or removes a market creator. -/
def setCreatorByTimelock (ctx : Ctx) (w : World) (creator : Address) (approved : Bool) :
    Res World := do
  let _ ← ctx.call .factory w.factory.governance .governance
  let timelock ← Governance.timelock w.governance
  requireAuth ctx timelock
  return { w with factory := { w.factory with creator := w.factory.creator.set creator approved } }

end DikeProtocol.Factory

namespace DikeProtocol.Timelock

open Lib
open Governance (GovernanceOp)

/-- Read an action that must have been queued. -/
def readAction (t : TimelockState) (actionId : ℕ) : Res TimelockAction :=
  orFault (t.action actionId) (.error .actionConsumed)

/-- Store an action under its own identifier. -/
def writeAction (t : TimelockState) (action : TimelockAction) : TimelockState :=
  { t with action := t.action.set action.id (some action) }

/-- The administrator hands over to another address. -/
def setAdmin (ctx : Ctx) (t : TimelockState) (admin : Address) : Res TimelockState := do
  requireAuth ctx t.admin
  return { t with admin := admin }

/-- The administrator names who may queue and who may execute. -/
def setRoles (ctx : Ctx) (t : TimelockState) (proposer executor : Address) :
    Res TimelockState := do
  requireAuth ctx t.admin
  return { t with proposer := proposer, executor := executor }

/-- The proposer queues an action with a delay of its choice, no shorter than
the minimal one. -/
def queue (ctx : Ctx) (host : Host) (t : TimelockState) (kind : TimelockActionKind)
    (target : Address) (payload : TimelockPayload) (requestedDelay : ℕ) :
    Res (ℕ × TimelockState) := do
  requireAuth ctx t.proposer
  refuse (payload.matchesKind kind = false) (.error .invalidInput)
  refuse (requestedDelay < t.minDelay) (.error .timelockNotReady)
  let actionId := t.nextActionId
  let executeAfter ← checkedAddU64 ctx.now requestedDelay
  let expiresAt ← checkedAddU64 executeAfter t.gracePeriod
  let action : TimelockAction := {
    id := actionId
    kind := kind
    target := target
    payload := payload
    payloadHash := host.payloadHash payload
    executeAfter := executeAfter
    expiresAt := expiresAt
    executed := false
    cancelled := false }
  let t := writeAction t action
  let nextActionId ← checkedAddU64 actionId 1
  return (actionId, { t with nextActionId := nextActionId })

/-- The proposer cancels an action that is still waiting. -/
def cancel (ctx : Ctx) (t : TimelockState) (actionId : ℕ) : Res TimelockState := do
  requireAuth ctx t.proposer
  let action ← readAction t actionId
  refuse (action.executed = true ∨ action.cancelled = true) (.error .actionConsumed)
  return writeAction t { action with cancelled := true }

/-- A call of governance that a foreign contract makes while the timelock waits
for it: who signed for it and which contract makes it. -/
structure NestedCall where
  signers : List Address
  invoker : Address
  op : GovernanceOp

/-- What a foreign target does when it is called and does not fail. -/
structure Foreign where
  /-- Its calls of governance, directly or through others. -/
  calls : List NestedCall
  /-- Everything else it changes. -/
  world : World

/-- The timelock neither signs nor invokes such a call: it is on the stack. -/
def NestedCall.run (called : Ctx) (g : GovernanceState) (nested : NestedCall) :
    Res GovernanceState := do
  refuse (nested.invoker = .contract .timelock ∨ .contract .timelock ∈ nested.signers) .trap
  nested.op.exec
    { called with signers := nested.signers, callers := nested.invoker :: called.callers } g

/-- A foreign target cannot enter the timelock, and reaches governance by its calls only. -/
def Foreign.run (called : Ctx) (w : World) (foreign : Foreign) : Res World := do
  let g ← foreign.calls.foldlM (fun g nested => nested.run called g) w.governance
  return { foreign.world with governance := g, timelock := w.timelock, host := w.host }

/-- Call the function of the target that the payload's variant names. A contract
of the protocol without that function fails; any other contract does what it does. -/
def dispatch (called : Ctx) (w : World) (foreign : Foreign) :
    Address → TimelockPayload → Res World
  | .account _, _ => foreign.run called w
  | .contract .governance, .treasury a => do
    let g ← Governance.applyTreasury called w.governance a
    return { w with governance := g }
  | .contract .governance, .pause authority => do
    let g ← Governance.applyPauseAuthority called w.governance authority
    return { w with governance := g }
  | .contract .governance, .upgrade role wasmHash => do
    let g ← Governance.recordUpgradeHash called w.governance role wasmHash
    return { w with governance := g }
  | .contract .governance, .timelock a => do
    let g ← Governance.applyTimelock called w.governance a
    return { w with governance := g }
  | .contract .factory, .creator a approved => Factory.setCreatorByTimelock called w a approved
  | .contract .council, .councilMember a approved => do
    let c ← Council.setMember called w.council a approved
    return { w with council := c }
  | .contract .registry, .supportedCollateral a supported => do
    let r ← Registry.setSupportedCollateral called w.registry a supported
    return { w with registry := r }
  | .contract .feeManager, .feeConfig config => do
    let f ← FeeManager.setConfig called w.feeManager config
    return { w with feeManager := f }
  | .contract .registry, .moduleAddress role module => do
    let r ← Registry.setRole called w.registry role module
    return { w with registry := r }
  | .contract .tokens, .moduleAddress role module => do
    let t ← Tokens.setRole called w.tokens role module
    return { w with tokens := t }
  | .contract .council, .moduleAddress role module => do
    let c ← Council.setRole called w.council role module
    return { w with council := c }
  | .contract .oracle, .moduleAddress role module => do
    let o ← Oracle.setRole called w.oracle role module
    return { w with oracle := o }
  | .contract .vault, .moduleAddress role module => Vault.setRole called w role module
  | .contract .amm, .moduleAddress role module => Amm.setRole called w role module
  | _, _ => .error .trap

/-- The executor executes an action that is ready and neither consumed nor
expired; when the target's call fails, all of it fails. -/
def execute (ctx : Ctx) (w : World) (actionId : ℕ) (foreign : Foreign) :
    Res (TimelockAction × World) := do
  requireAuth ctx w.timelock.executor
  let action ← readAction w.timelock actionId
  refuse (action.executed = true ∨ action.cancelled = true) (.error .actionConsumed)
  refuse (action.payloadHash ≠ w.host.payloadHash action.payload) (.error .invalidInput)
  refuse (ctx.now < action.executeAfter) (.error .timelockNotReady)
  refuse (ctx.now > action.expiresAt) (.error .actionConsumed)
  refuse (action.target ∈ .contract .timelock :: ctx.callers) (.reentry action.target)
  let called : Ctx := { ctx with callers := .contract .timelock :: ctx.callers }
  let w ← dispatch called w foreign action.target action.payload
  let action := { action with executed := true }
  return (action, { w with timelock := writeAction w.timelock action })

/-- An invocation of the timelock other than an upgrade of its code. -/
inductive TimelockOp where
  | setAdmin (admin : Address)
  | setRoles (proposer executor : Address)
  | queue (kind : TimelockActionKind) (target : Address) (payload : TimelockPayload)
      (requestedDelay : ℕ)
  | cancel (actionId : ℕ)
  | execute (actionId : ℕ) (foreign : Foreign)

/-- The world after a change of the timelock's own storage. -/
def store (w : World) (x : Res TimelockState) : Res World := do
  let t ← x
  return { w with timelock := t }

/-- Execute an invocation. -/
def TimelockOp.exec (ctx : Ctx) (w : World) : TimelockOp → Res World
  | setAdmin admin => store w (Timelock.setAdmin ctx w.timelock admin)
  | setRoles proposer executor => store w (Timelock.setRoles ctx w.timelock proposer executor)
  | queue kind target payload requestedDelay => do
    let (_, t) ← Timelock.queue ctx w.host w.timelock kind target payload requestedDelay
    return { w with timelock := t }
  | cancel actionId => store w (Timelock.cancel ctx w.timelock actionId)
  | execute actionId foreign => world (Timelock.execute ctx w actionId foreign)

end DikeProtocol.Timelock
