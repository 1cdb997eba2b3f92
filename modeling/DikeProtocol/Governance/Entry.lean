import DikeProtocol.FeeManager

/-!
# Governance

The governance contract keeps the entries that only its timelock may change:
treasury, lists, modules, pause authority, fee parameters, upgrade hashes and
the timelock itself. The administrator sets the first timelock, once.
-/

namespace DikeProtocol.Governance

open Lib

/-- The stored timelock must authorize the invocation. -/
def requireTimelock (ctx : Ctx) (g : GovernanceState) : Res Unit := do
  let timelock ← orFault g.timelock (.error .unauthorized)
  requireAuth ctx timelock

/-- The administrator hands over to another address. -/
def setAdmin (ctx : Ctx) (g : GovernanceState) (admin : Address) : Res GovernanceState := do
  requireAuth ctx g.admin
  return { g with admin := admin }

/-- The administrator sets the first timelock. -/
def setTimelock (ctx : Ctx) (g : GovernanceState) (timelock : Address) : Res GovernanceState := do
  requireAuth ctx g.admin
  refuse (g.timelock ≠ none) (.error .alreadyInitialized)
  return { g with timelock := some timelock }

/-- The timelock hands over to another one. -/
def applyTimelock (ctx : Ctx) (g : GovernanceState) (timelock : Address) :
    Res GovernanceState := do
  requireTimelock ctx g
  return { g with timelock := some timelock }

/-- The timelock stores the treasury. -/
def applyTreasury (ctx : Ctx) (g : GovernanceState) (treasury : Address) :
    Res GovernanceState := do
  requireTimelock ctx g
  return { g with treasury := treasury }

/-- The timelock approves or removes a creator. -/
def applyCreator (ctx : Ctx) (g : GovernanceState) (creator : Address) (approved : Bool) :
    Res GovernanceState := do
  requireTimelock ctx g
  return { g with creator := g.creator.set creator approved }

/-- The timelock approves or removes a council member. -/
def applyCouncilMember (ctx : Ctx) (g : GovernanceState) (member : Address) (approved : Bool) :
    Res GovernanceState := do
  requireTimelock ctx g
  return { g with councilMember := g.councilMember.set member approved }

/-- The timelock supports or drops a collateral token. -/
def applySupportedCollateral (ctx : Ctx) (g : GovernanceState) (collateral : Asset)
    (supported : Bool) : Res GovernanceState := do
  requireTimelock ctx g
  return { g with supportedCollateral := g.supportedCollateral.set collateral supported }

/-- The timelock stores the module of a role. -/
def applyModule (ctx : Ctx) (g : GovernanceState) (role : Role) (module : Address) :
    Res GovernanceState := do
  requireTimelock ctx g
  return { g with module := g.module.set role (some module) }

/-- The timelock stores who may pause. -/
def applyPauseAuthority (ctx : Ctx) (g : GovernanceState) (authority : Address) :
    Res GovernanceState := do
  requireTimelock ctx g
  return { g with pauseAuthority := some authority }

/-- The timelock stores valid fee parameters. -/
def applyFeeConfig (ctx : Ctx) (g : GovernanceState) (config : FeeConfig) :
    Res GovernanceState := do
  requireTimelock ctx g
  validateFeeConfig config
  return { g with feeConfig := config }

/-- The timelock records the code a module may be upgraded to. -/
def recordUpgradeHash (ctx : Ctx) (g : GovernanceState) (moduleRole : Role) (wasmHash : Hash) :
    Res GovernanceState := do
  requireTimelock ctx g
  return { g with upgradeHash := g.upgradeHash.set moduleRole (some wasmHash) }

/-- The stored timelock, once there is one. -/
def timelock (g : GovernanceState) : Res Address := orFault g.timelock (.error .notInitialized)

/-- An invocation of governance other than an upgrade of its code. -/
inductive GovernanceOp where
  | setAdmin (admin : Address)
  | setTimelock (timelock : Address)
  | applyTimelock (timelock : Address)
  | applyTreasury (treasury : Address)
  | applyCreator (creator : Address) (approved : Bool)
  | applyCouncilMember (member : Address) (approved : Bool)
  | applySupportedCollateral (collateral : Asset) (supported : Bool)
  | applyModule (role : Role) (module : Address)
  | applyPauseAuthority (authority : Address)
  | applyFeeConfig (config : FeeConfig)
  | recordUpgradeHash (moduleRole : Role) (wasmHash : Hash)

/-- Execute an invocation. -/
def GovernanceOp.exec (ctx : Ctx) (g : GovernanceState) : GovernanceOp → Res GovernanceState
  | setAdmin admin => Governance.setAdmin ctx g admin
  | setTimelock timelock => Governance.setTimelock ctx g timelock
  | applyTimelock timelock => Governance.applyTimelock ctx g timelock
  | applyTreasury treasury => Governance.applyTreasury ctx g treasury
  | applyCreator creator approved => Governance.applyCreator ctx g creator approved
  | applyCouncilMember member approved => Governance.applyCouncilMember ctx g member approved
  | applySupportedCollateral collateral supported =>
    Governance.applySupportedCollateral ctx g collateral supported
  | applyModule role module => Governance.applyModule ctx g role module
  | applyPauseAuthority authority => Governance.applyPauseAuthority ctx g authority
  | applyFeeConfig config => Governance.applyFeeConfig ctx g config
  | recordUpgradeHash moduleRole wasmHash => Governance.recordUpgradeHash ctx g moduleRole wasmHash

/-- Everything but the administrator is as it was. -/
def EntriesKept (g g' : GovernanceState) : Prop := g' = { g with admin := g'.admin }

namespace EntriesKept

variable {g g' g'' : GovernanceState}

/-- Doing nothing. -/
theorem refl (g : GovernanceState) : EntriesKept g g := rfl

/-- One step after another. -/
theorem trans (h : EntriesKept g g') (h' : EntriesKept g' g'') : EntriesKept g g'' := by
  unfold EntriesKept at h h' ⊢
  rw [h', h]

/-- The timelock is an entry. -/
theorem timelock_eq (h : EntriesKept g g') : g'.timelock = g.timelock := by
  rw [h]

end EntriesKept

/-- The stored timelock authorized an invocation it was required for. -/
theorem requireTimelock_ok {ctx : Ctx} {g : GovernanceState} {a : Address} {u : Unit}
    (ha : g.timelock = some a) (h : requireTimelock ctx g = .ok u) :
    ∃ u, requireAuth ctx a = .ok u := by
  obtain ⟨a', ha', h⟩ := bind_ok.mp h
  rw [ha] at ha'
  obtain rfl := Option.some.inj (orFault_ok.mp ha')
  exact ⟨u, h⟩

/-- Without the stored timelock's authorization, only the administrator changes. -/
theorem GovernanceOp.exec_kept {ctx : Ctx} {g g' : GovernanceState} {a : Address}
    {op : GovernanceOp} (ha : g.timelock = some a) (hauth : ∀ u, requireAuth ctx a ≠ .ok u)
    (h : op.exec ctx g = .ok g') : EntriesKept g g' := by
  have hgated : ∀ {f : Unit → Res GovernanceState},
      (requireTimelock ctx g >>= f) = .ok g' → False := by
    intro f hf
    obtain ⟨u, hrequire, _⟩ := bind_ok.mp hf
    obtain ⟨u', hu'⟩ := requireTimelock_ok ha hrequire
    exact hauth u' hu'
  cases op with
  | setAdmin admin =>
    obtain ⟨_, _, h⟩ := bind_ok.mp h
    rw [← pure_ok.mp h]
    exact rfl
  | setTimelock timelock =>
    obtain ⟨_, _, h⟩ := bind_ok.mp h
    obtain ⟨_, hunset, _⟩ := bind_ok.mp h
    rw [refuse_ok, not_not, ha] at hunset
    cases hunset
  | applyTimelock timelock => exact (hgated h).elim
  | applyTreasury treasury => exact (hgated h).elim
  | applyCreator creator approved => exact (hgated h).elim
  | applyCouncilMember member approved => exact (hgated h).elim
  | applySupportedCollateral collateral supported => exact (hgated h).elim
  | applyModule role module => exact (hgated h).elim
  | applyPauseAuthority authority => exact (hgated h).elim
  | applyFeeConfig config => exact (hgated h).elim
  | recordUpgradeHash moduleRole wasmHash => exact (hgated h).elim

end DikeProtocol.Governance
