import DikeProtocol.Network.Reports

/-!
# Which invocations enter a contract twice

Every public entry point of the ten contracts, in every state that runs reach
while the wiring of the deployment stays: the call tree enters no contract that
is busy, except where a tally earns the council a part of a lost bond, or the
timelock is told to call itself.
-/

namespace DikeProtocol.Network

open Lib
open FeeManager (SplitWhole)
open Resolution (OracleWired ByCouncil BothLocked Payable)

/-- Every contract knows the ones it calls. -/
structure Wired (w : World) : Prop extends TradeWired w where
  oracle : ∃ treasury, OracleWired w treasury
  factoryRegistry : w.factory.registry = some (.contract .registry)
  factoryAmm : w.factory.amm = some (.contract .amm)
  factoryFees : w.factory.feeManager = some (.contract .feeManager)
  factoryGovernance : ∀ c, w.factory.governance = .contract c → c = .governance

section Factory

variable {b : Address} {ctx : Ctx} {w w' : World}

@[simp] theorem readModule_spares {module : Option Address} :
    Spares b (Factory.readModule module) := by
  simp [Factory.readModule]

@[simp] theorem validate_spares {f : FactoryState} {config : MarketConfig} {x : ℤ} {i : ℕ} :
    Spares b (Factory.validate ctx f config x i) := by
  simp [Factory.validate]

@[simp] theorem factoryStore_spares {x : Res FactoryState} :
    Spares b (Factory.store w x) ↔ Spares b x := by
  simp [Factory.store]

/-- The address the factory keeps for governance is no busy contract. -/
theorem governanceCall_spares {g : Address} (hg : ∀ c, g = .contract c → c = .governance)
    (hb : ∀ a ∈ ctx.callers, a = b → ∃ c, a = .contract c ∧ c ≠ .governance) :
    Spares b (ctx.call .factory g .governance) := by
  rw [call_spares]
  intro hmem heq
  rcases List.mem_cons.mp hmem with hself | hmem
  · cases hg _ hself
  · obtain ⟨c, hc, hne⟩ := hb g hmem heq
    exact hne (hg c hc)

/-- The factory asks governance for its timelock. -/
theorem setCreatorByTimelock_spares (hw : Wired w) {a : Address} {approved : Bool}
    (hb : ∀ a ∈ ctx.callers, a = b → ∃ c, a = .contract c ∧ c ≠ .governance) :
    Spares b (Factory.setCreatorByTimelock ctx w a approved) := by
  refine avoids_bind.mpr ⟨governanceCall_spares hw.factoryGovernance hb, fun _ _ => ?_⟩
  simp [Governance.timelock]

/-- The factory asks the fee manager and governance for the fee. -/
theorem payCreationFee_spares (hw : Wired w) (hfree : ∀ c, Free c ctx) (hb : b ∉ ctx.callers)
    {creator : Address} {token : Asset} :
    Spares b (Factory.payCreationFee ctx w creator token) := by
  refine avoids_bind.mpr ⟨readModule_spares, fun fees hfees => ?_⟩
  have haddress := orFault_ok.mp hfees
  rw [hw.factoryFees] at haddress
  refine invoke_spares (Option.some.inj haddress).symm (by decide) (hfree .feeManager) ?_
  split
  · refine avoids_bind.mpr ⟨governanceCall_spares hw.factoryGovernance ?_, fun _ _ => ?_⟩
    · rintro a ha rfl
      exact absurd ha hb
    · exact transferToken_rare
  · exact avoids_ok _

/-- The creation fee changes balances only. -/
theorem payCreationFee_ok {creator : Address} {token : Asset}
    (h : Factory.payCreationFee ctx w creator token = .ok w') :
    ∃ bank, w' = { w with bank := bank } := by
  obtain ⟨_, _, h⟩ := bind_ok.mp h
  obtain ⟨_, _, h⟩ := bind_ok.mp h
  split at h
  · obtain ⟨_, _, h⟩ := bind_ok.mp h
    obtain ⟨_, bank, _, rfl⟩ := transferToken_ok.mp h
    exact ⟨bank, rfl⟩
  · obtain rfl := pure_ok.mp h
    exact ⟨w.bank, rfl⟩

/-- A new pool keeps the wiring. -/
theorem createPool_wired (hw : TradeWired w) {m : MarketId} {config : FeeConfig} {i : ℕ}
    (h : Amm.createPool ctx w m config = .ok (i, w')) : TradeWired w' := by
  obtain ⟨_, _, h⟩ := bind_ok.mp h
  obtain ⟨_, _, h⟩ := bind_ok.mp h
  obtain ⟨next, _, h⟩ := bind_ok.mp h
  obtain ⟨_, rfl⟩ := Prod.mk.inj (pure_ok.mp h)
  exact { hw with }

/-- A new market goes through the registry and the market maker. -/
theorem createMarket_spares (hw : Wired w) (hfree : ∀ c, Free c ctx) (hb : b ∉ ctx.callers)
    {config : MarketConfig} {x : ℤ} {i : ℕ} :
    Spares b (Factory.createMarket ctx w config x i) := by
  refine avoids_bind.mpr ⟨requireAuth_rare, fun _ _ => ?_⟩
  refine avoids_bind.mpr ⟨by simp, fun _ _ => ?_⟩
  refine avoids_bind.mpr ⟨validate_spares, fun _ _ => ?_⟩
  refine avoids_bind.mpr ⟨payCreationFee_spares hw hfree hb, fun w1 h1 => ?_⟩
  obtain ⟨bank, rfl⟩ := payCreationFee_ok h1
  refine avoids_bind.mpr ⟨checkedMulU64_rare, fun _ _ => ?_⟩
  refine avoids_bind.mpr ⟨checkedAddU64_rare, fun _ _ => ?_⟩
  refine avoids_bind.mpr ⟨readModule_spares, fun registry hregistry => ?_⟩
  refine avoids_bind.mpr ⟨readModule_spares, fun amm hamm => ?_⟩
  have hregistry' : registry = .contract .registry :=
    Option.some.inj ((orFault_ok.mp hregistry).symm.trans hw.factoryRegistry)
  have hamm' : amm = .contract .amm :=
    Option.some.inj ((orFault_ok.mp hamm).symm.trans hw.factoryAmm)
  refine invoke_spares hregistry' (by decide) (hfree .registry) ?_
  refine avoids_bind.mpr ⟨registerMarket_rare, fun registered _ => ?_⟩
  refine avoids_bind.mpr ⟨by simp, fun _ _ => ?_⟩
  refine invoke_spares hamm' (by decide) (hfree .amm) ?_
  refine avoids_bind.mpr ⟨createPool_rare, ?_⟩
  rintro ⟨poolId, w2⟩ h2
  have hw1 : TradeWired { w with registry := registered.2, bank := bank } :=
    { hw.toTradeWired with }
  have hw2 := createPool_wired hw1 h2
  refine avoids_bind.mpr ⟨by simp, fun _ _ => ?_⟩
  refine invoke_spares hamm' (by decide) (hfree .amm) ?_
  refine avoids_bind.mpr ⟨seedLiquidity_spares hw2 ⟨(hfree .registry).under (by decide),
    (hfree .vault).under (by decide), (hfree .tokens).under (by decide)⟩, fun seeded _ => ?_⟩
  refine invoke_spares hregistry' (by decide) (hfree .registry) ?_
  refine avoids_bind.mpr ⟨activateMarket_rare, fun activated _ => ?_⟩
  refine invoke_spares hregistry' (by decide) (hfree .registry) ?_
  refine avoids_bind.mpr ⟨readMarket_rare, fun market _ => ?_⟩
  exact avoids_bind.mpr ⟨checkedAddU64_rare, fun _ _ => avoids_ok _⟩

/-- The factory calls the fee manager, governance, the registry and the market maker. -/
theorem factoryExec_spares (hw : Wired w) (hfree : ∀ c, Free c ctx) (hb : b ∉ ctx.callers)
    (op : Factory.FactoryOp) : Spares b (op.exec ctx w) := by
  cases op with
  | createMarket => exact world_rare.mpr (createMarket_spares hw hfree hb)
  | setCreatorByTimelock =>
    refine setCreatorByTimelock_spares hw ?_
    rintro a ha rfl
    exact absurd ha hb
  | _ => simp [Factory.FactoryOp.exec, Factory.setAdmin, Factory.setGovernance,
      Factory.setModules, Factory.setCreator, Factory.setCollateral, Factory.pause,
      Factory.requireGovernance]

end Factory

section Timelock

variable {b : Address} {ctx : Ctx} {w : World}

/-- Governance calls nobody. -/
@[simp] theorem governanceExec_spares {g : GovernanceState} (op : Governance.GovernanceOp) :
    Spares b (op.exec ctx g) := by
  cases op <;> simp [Governance.GovernanceOp.exec, Governance.setAdmin, Governance.setTimelock,
    Governance.applyTimelock, Governance.applyTreasury, Governance.applyCreator,
    Governance.applyCouncilMember, Governance.applySupportedCollateral, Governance.applyModule,
    Governance.applyPauseAuthority, Governance.applyFeeConfig, Governance.recordUpgradeHash,
    Governance.requireTimelock]

/-- The fee manager calls nobody. -/
@[simp] theorem feeManagerExec_spares {f : FeeManagerState} (op : FeeManager.FeeManagerOp) :
    Spares b (op.exec ctx f) := by
  cases op <;> simp [FeeManager.FeeManagerOp.exec, FeeManager.setAdmin, FeeManager.setGovernance,
    FeeManager.setConfig, FeeManager.setBondConfig, FeeManager.setBondSplit]

/-- The calls a foreign target makes of governance call nobody further. -/
theorem nestedCalls_spares (calls : List Timelock.NestedCall) {g : GovernanceState} :
    Spares b (calls.foldlM (fun g nested => Timelock.NestedCall.run ctx g nested) g) := by
  induction calls generalizing g with
  | nil => exact avoids_pure _
  | cons nested calls ih =>
    rw [List.foldlM_cons]
    exact avoids_bind.mpr ⟨by simp [Timelock.NestedCall.run], fun _ _ => ih⟩

/-- The function the payload names calls governance at most. -/
theorem dispatch_spares (hw : Wired w) {foreign : Timelock.Foreign} {target : Address}
    {payload : TimelockPayload}
    (hb : ∀ a ∈ ctx.callers, a = b → ∃ c, a = .contract c ∧ c ≠ .governance) :
    Spares b (Timelock.dispatch ctx w foreign target payload) := by
  unfold Timelock.dispatch
  split
  case h_1 => exact avoids_bind.mpr ⟨nestedCalls_spares _, fun _ _ => avoids_ok _⟩
  case h_6 => exact setCreatorByTimelock_spares hw hb
  all_goals simp [Governance.applyTreasury, Governance.applyPauseAuthority,
    Governance.recordUpgradeHash, Governance.applyTimelock, Governance.requireTimelock,
    Council.setMember, Registry.setSupportedCollateral, FeeManager.setConfig, Registry.setRole,
    Tokens.setRole, Council.setRole, Oracle.setRole, Vault.setRole, Amm.setRole]

/-- An action that does not name the timelock itself is executed without entering it twice. -/
theorem execute_spares (hw : Wired w) (hb : b ∉ ctx.callers) {i : ℕ} {foreign : Timelock.Foreign}
    (htarget : ∀ action, w.timelock.action i = some action → action.executed = false →
      action.cancelled = false → action.executeAfter ≤ ctx.now → ctx.now ≤ action.expiresAt →
      action.target ≠ .contract .timelock) :
    Spares b (Timelock.execute ctx w i foreign) := by
  refine avoids_bind.mpr ⟨requireAuth_rare, fun _ _ => ?_⟩
  refine avoids_bind.mpr ⟨by simp [Timelock.readAction], fun action haction => ?_⟩
  refine avoids_bind.mpr ⟨by simp, fun _ hwaiting => ?_⟩
  refine avoids_bind.mpr ⟨by simp, fun _ _ => ?_⟩
  refine avoids_bind.mpr ⟨by simp, fun _ hready => ?_⟩
  refine avoids_bind.mpr ⟨by simp, fun _ hvalid => ?_⟩
  obtain ⟨hexecuted, hcancelled⟩ := not_or.mp (refuse_ok.mp hwaiting)
  have hother := htarget action (orFault_ok.mp haction) (Bool.eq_false_iff.mpr hexecuted)
    (Bool.eq_false_iff.mpr hcancelled) (not_lt.mp (refuse_ok.mp hready))
    (not_lt.mp (refuse_ok.mp hvalid))
  refine avoids_bind.mpr ⟨?_, fun _ _ => ?_⟩
  · rw [avoids_refuse]
    intro hmem heq
    rcases List.mem_cons.mp hmem with hself | hmem
    · exact hother hself
    · rw [Fault.reentry.inj heq] at hmem
      exact hb hmem
  · refine avoids_bind.mpr ⟨dispatch_spares hw ?_, fun _ _ => avoids_ok _⟩
    rintro a ha rfl
    rcases List.mem_cons.mp ha with hself | ha
    · exact ⟨_, hself, by decide⟩
    · exact absurd ha hb

end Timelock

/-- An invocation of one of the ten contracts. -/
inductive NetworkOp where
  | registry (op : Registry.RegistryOp)
  | tokens (op : Tokens.TokensOp)
  | vault (op : Vault.VaultOp)
  | amm (op : Amm.AmmOp)
  | feeManager (op : FeeManager.FeeManagerOp)
  | council (op : Council.CouncilOp)
  | oracle (op : Oracle.OracleOp)
  | governance (op : Governance.GovernanceOp)
  | timelock (op : Timelock.TimelockOp)
  | factory (op : Factory.FactoryOp)

/-- Execute an invocation. -/
def NetworkOp.exec (ctx : Ctx) (w : World) : NetworkOp → Res World
  | registry op => do
    let r ← op.exec ctx w.registry
    return { w with registry := r }
  | tokens op => op.exec ctx w
  | vault op => op.exec ctx w
  | amm op => op.exec ctx w
  | feeManager op => do
    let f ← op.exec ctx w.feeManager
    return { w with feeManager := f }
  | council op => op.exec ctx w
  | oracle op => op.exec ctx w
  | governance op => do
    let g ← op.exec ctx w.governance
    return { w with governance := g }
  | timelock op => op.exec ctx w
  | factory op => op.exec ctx w

/-- None of the ten contracts. -/
def Outsider : Address → Prop
  | .contract _ => False
  | .account _ => True

instance (a : Address) : Decidable (Outsider a) := by
  cases a with
  | contract c => exact instDecidableFalse
  | account n => exact instDecidableTrue

/-- An invocation that none of the ten contracts makes, neither directly nor through others. -/
def AtTop (ctx : Ctx) : Prop := ∀ a ∈ ctx.callers, Outsider a

instance (ctx : Ctx) : Decidable (AtTop ctx) := inferInstanceAs (Decidable (∀ a ∈ _, _))

/-- An invocation from the top finds every contract free. -/
theorem AtTop.free {ctx : Ctx} (h : AtTop ctx) (c : Contract) : Free c ctx := fun hc => h _ hc

/-- Nothing that an invocation calls is entered again: only who made the
invocation could be. -/
def NoReentry (ctx : Ctx) (x : Res World) : Prop :=
  ∀ b, x = .error (.reentry b) → b ∈ ctx.callers

/-- One step of a run. -/
inductive NetworkStep where
  /-- An invocation. -/
  | call (ctx : Ctx) (op : NetworkOp)
  /-- Balances of foreign tokens change. -/
  | outside (bank : Bank)

/-- Runs of the ten contracts from a deployment. -/
def network : System World NetworkStep Fault where
  Init := fun w => ∃ l : Launch, w = deploy l
  step := fun w step =>
    match step with
    | .call ctx op => do
      refuse (¬AtTop ctx) .trap
      op.exec ctx w
    | .outside bank => .ok { w with bank := bank }

/-- The addresses the contracts keep of each other. -/
def wires (w : World) : List (Option Address) :=
  [w.vault.roles .registry, w.vault.roles .tokens, w.vault.roles .oracle, w.tokens.roles .vault,
    w.amm.vault, w.amm.tokens, w.amm.registry, w.registry.roles .oracle, w.council.roles .oracle,
    w.oracle.roles .registry, w.oracle.roles .vault, w.oracle.roles .fees,
    w.oracle.roles .council, w.oracle.roles .treas, w.factory.registry, w.factory.amm,
    w.factory.feeManager, some w.factory.governance]

/-- The step rewires nothing. -/
def NetworkStep.KeepsWires (w : World) (step : NetworkStep) : Prop :=
  match network.step w step with
  | .ok w' => wires w' = wires w
  | .error _ => True

instance (w : World) (step : NetworkStep) : Decidable (step.KeepsWires w) := by
  unfold NetworkStep.KeepsWires
  split
  · infer_instance
  · exact instDecidableTrue

/-- Contracts wired as in a deployment know the ones they call. -/
theorem wired_of_wires {w : World} {l : Launch} (h : wires w = wires (deploy l)) : Wired w := by
  unfold wires at h
  simp only [List.cons.injEq, Option.some.injEq, and_true] at h
  obtain ⟨h1, h2, h3, h4, h5, h6, h7, h8, h9, h10, h11, h12, h13, h14, h15, h16, h17, h18⟩ := h
  refine { vaultRegistry := h1, vaultTokens := h2, tokensVault := h4, ammVault := h5,
           ammTokens := h6, ammRegistry := h7, factoryRegistry := h15, factoryAmm := h16,
           factoryFees := h17, oracle := ⟨.account l.treasury, ?_⟩, factoryGovernance := ?_ }
  · exact ⟨h13, h10, h11, h12, h14, h3, h8, h9⟩
  · intro c hc
    rw [h18] at hc
    cases hc

/-- Steps that rewire nothing leave the wiring of the deployment. -/
theorem wired_runs {w : World} (h : network.Guarded (fun w step => step.KeepsWires w) w) :
    Wired w := by
  suffices hw : ∃ l, wires w = wires (deploy l) from wired_of_wires hw.choose_spec
  refine h.invariant (I := fun w => ∃ l, wires w = wires (deploy l)) ?_ ?_
  · rintro w ⟨l, rfl⟩
    exact ⟨l, rfl⟩
  · rintro w step w' ⟨l, hl⟩ hkeeps hstep
    unfold NetworkStep.KeepsWires at hkeeps
    rw [hstep] at hkeeps
    exact ⟨l, hkeeps.trans hl⟩

/-- The invocation reports no tally of an escalated request that earns the council
a part of a lost bond, and has the timelock not call itself. -/
def Clear (now : ℕ) (w : World) : NetworkOp → Prop
  | .council (.finalizeAndReportCase k) => ∀ case request, w.council.caseData k = some case →
      case.hasFinalOutcome = false → case.revealEnd < now →
      w.oracle.request case.requestId = some request → request.status = .escalated →
      ¬Earns w.feeManager request (Council.tally case)
  | .timelock (.execute i _) => ∀ action, w.timelock.action i = some action →
      action.executed = false → action.cancelled = false → action.executeAfter ≤ now →
      now ≤ action.expiresAt → action.target ≠ .contract .timelock
  | _ => True

/-- Wired contracts that are invoked from the top enter none of them twice. -/
theorem clear_spares {w : World} (hw : Wired w) {ctx : Ctx} (htop : AtTop ctx) {op : NetworkOp}
    (hclear : Clear ctx.now w op) {b : Address} (hb : b ∉ ctx.callers) :
    Spares b (op.exec ctx w) := by
  have hfree := htop.free
  obtain ⟨treasury, horacle⟩ := hw.oracle
  cases op with
  | registry op => exact avoids_bind.mpr ⟨registryExec_rare op, fun _ _ => avoids_ok _⟩
  | tokens op => exact tokensExec_spares hw.toBooksWired (hfree .vault) op
  | vault op => exact vaultExec_spares hw.toBooksWired (hfree .registry) (hfree .tokens) op
  | amm op =>
    exact ammExec_spares hw.toTradeWired ⟨hfree .registry, hfree .vault, hfree .tokens⟩ op
  | feeManager op => exact avoids_bind.mpr ⟨feeManagerExec_spares op, fun _ _ => avoids_ok _⟩
  | governance op => exact avoids_bind.mpr ⟨governanceExec_spares op, fun _ _ => avoids_ok _⟩
  | factory op => exact factoryExec_spares hw hfree hb op
  | oracle op =>
    exact oracleExec_spares hw.toBooksWired horacle
      ⟨hfree .registry, hfree .vault, hfree .feeManager⟩ (hfree .council) op
  | council op =>
    by_cases hreport : ∃ k, op = .finalizeAndReportCase k
    · obtain ⟨k, rfl⟩ := hreport
      exact world_rare.mpr (finalizeAndReportCase_spares horacle hfree hclear)
    · exact councilExec_spares fun k hk => hreport ⟨k, hk⟩
  | timelock op =>
    cases op with
    | execute i foreign => exact world_rare.mpr (execute_spares hw hb hclear)
    | _ => simp [NetworkOp.exec, Timelock.TimelockOp.exec, Timelock.store, Timelock.setAdmin,
        Timelock.setRoles, Timelock.queue, Timelock.cancel, Timelock.readAction]

/-- An escalated request with both bonds locked, whose case nobody has tallied
and whose reveal window is over. -/
structure Countable (now : ℕ) (w : World) (k : ℕ) (case : CouncilCase)
    (request : ResolutionRequest) (market : MarketData) : Prop where
  stored : w.council.caseData k = some case
  numbered : case.id = k
  undecided : case.hasFinalOutcome = false
  late : case.revealEnd < now
  locked : BothLocked w case.requestId k request market
  unresolved : market.hasFinalOutcome = false
  voting : market.status = .councilVoting
  whole : SplitWhole w.feeManager

instance (now : ℕ) (w : World) (k : ℕ) (case : CouncilCase) (request : ResolutionRequest)
    (market : MarketData) : Decidable (Countable now w k case request market) :=
  decidable_of_iff
    (w.council.caseData k = some case ∧ case.id = k ∧ case.hasFinalOutcome = false ∧
      case.revealEnd < now ∧ BothLocked w case.requestId k request market ∧
      market.hasFinalOutcome = false ∧ market.status = .councilVoting ∧ SplitWhole w.feeManager)
    ⟨fun ⟨h1, h2, h3, h4, h5, h6, h7, h8⟩ => ⟨h1, h2, h3, h4, h5, h6, h7, h8⟩,
      fun ⟨h1, h2, h3, h4, h5, h6, h7, h8⟩ => ⟨h1, h2, h3, h4, h5, h6, h7, h8⟩⟩

/-- If one side wins, its share of the other's bond is a unit or more and can be computed. -/
def WinnerPaid (f : FeeManagerState) (request : ResolutionRequest) (outcome : Outcome) : Prop :=
  outcome = request.proposedOutcome ∨ outcome = request.disputedOutcome →
    10000 ≤ request.bondAmount * f.winnerBondShareBps ∧
      request.bondAmount * f.winnerBondShareBps ≤ i128Max

instance (f : FeeManagerState) (request : ResolutionRequest) (outcome : Outcome) :
    Decidable (WinnerPaid f request outcome) := inferInstanceAs (Decidable (_ → _))

/-- With the council on the stack, an outcome is payable when the council earns
nothing and a winner is paid. -/
theorem payable_iff {ctx : Ctx} {f : FeeManagerState} {request : ResolutionRequest}
    {market : MarketData} {outcome : Outcome} (hbusy : .contract .council ∈ ctx.callers)
    (hunresolved : market.hasFinalOutcome = false) (hvoting : market.status = .councilVoting) :
    Payable ctx f request market outcome ↔
      ¬Earns f request outcome ∧ WinnerPaid f request outcome := by
  unfold Payable Earns WinnerPaid
  constructor
  · rintro ⟨_, ⟨hproposed, hdisputed⟩ | ⟨hwinner, hfits, _, hsmall | hfree⟩⟩
    · have hside := not_or.mpr ⟨hproposed, hdisputed⟩
      exact ⟨fun hk => hside hk.1, fun hk => absurd hk hside⟩
    · exact ⟨fun hk => absurd hk.2 (by omega), fun _ => ⟨hwinner, hfits⟩⟩
    · exact absurd hbusy hfree
  · rintro ⟨hearns, hpaid⟩
    refine ⟨⟨hunresolved, Or.inr hvoting⟩, ?_⟩
    by_cases hside : outcome = request.proposedOutcome ∨ outcome = request.disputedOutcome
    · obtain ⟨hwinner, hfits⟩ := hpaid hside
      have hsmall : request.bondAmount * f.councilBondShareBps < 10000 :=
        not_le.mp fun hk => hearns ⟨hside, hk⟩
      have hmax : (10000 : ℤ) ≤ i128Max := by decide
      exact Or.inr ⟨hwinner, hfits, by omega, Or.inl hsmall⟩
    · exact Or.inl (not_or.mp hside)

/-- A tally is reported exactly when it earns the council nothing and pays a winner. -/
theorem finalizeAndReportCase_iff {ctx : Ctx} {w : World} (hw : Wired w) (htop : AtTop ctx) {k : ℕ}
    {case : CouncilCase} {request : ResolutionRequest} {market : MarketData}
    (h : Countable ctx.now w k case request market) :
    (∃ w', (NetworkOp.council (.finalizeAndReportCase k)).exec ctx w = .ok w') ↔
      ¬Earns w.feeManager request (Council.tally case) ∧
        WinnerPaid w.feeManager request (Council.tally case) := by
  obtain ⟨treasury, horacle⟩ := hw.oracle
  let called : Ctx := { ctx with callers := .contract .council :: ctx.callers }
  let w1 : World := { w with council := Council.writeCase w.council (Council.finalized case) }
  have hfinal := Council.finalizeCase_ok.mpr
    ⟨case, h.stored, h.undecided, h.late, rfl, rfl⟩
  have hread : Council.readCase w1.council k = .ok (Council.finalized case) := by
    rw [← h.numbered]
    exact orFault_ok.mpr (Store.set_get_self _ _ _)
  have hcall : ctx.call .council (.contract .oracle) .oracle = .ok called :=
    Ctx.call_ok.mpr ⟨rfl, by simpa using htop.free .oracle, rfl⟩
  have hby : ByCouncil called := ⟨Or.inr rfl, (htop.free .registry).under (by decide),
    (htop.free .vault).under (by decide), (htop.free .feeManager).under (by decide)⟩
  have horacle1 : OracleWired w1 treasury := { horacle with }
  have hlocked1 : BothLocked w1 case.requestId k request market := { h.locked with }
  have hiff : Payable called w.feeManager request market (Council.tally case) ↔ _ :=
    payable_iff List.mem_cons_self h.unresolved h.voting
  rw [← hiff]
  constructor
  · rintro ⟨w', hexec⟩
    obtain ⟨outcome, hexec⟩ := world_ok.mp hexec
    obtain ⟨⟨outcome', c⟩, hfinal', hexec⟩ := bind_ok.mp hexec
    rw [hfinal] at hfinal'
    obtain ⟨rfl, rfl⟩ := Prod.mk.inj (ok_ok.mp hfinal')
    obtain ⟨case', hread', hexec⟩ := bind_ok.mp hexec
    rw [hread] at hread'
    obtain rfl := ok_ok.mp hread'
    obtain ⟨oracle, _, hexec⟩ := bind_ok.mp hexec
    obtain ⟨called', hcalled, hexec⟩ := bind_ok.mp hexec
    obtain ⟨w2, hreport, _⟩ := bind_ok.mp hexec
    rw [(Ctx.call_ok.mp hcalled).2.2] at hreport
    exact Resolution.payable_of_reported horacle1 hlocked1 h.whole hreport
  · intro hpay
    obtain ⟨w2, hreport, _⟩ := Resolution.settles_of_payable horacle1 hby hlocked1 h.whole hpay
    refine ⟨w2, world_ok.mpr ⟨Council.tally case, ?_⟩⟩
    unfold Council.finalizeAndReportCase
    rw [bind_of_ok hfinal]
    refine bind_ok.mpr ⟨_, hread, bind_ok.mpr ⟨_, readRole_ok.mpr horacle.councilOracle, ?_⟩⟩
    exact bind_ok.mpr ⟨called, hcall, bind_ok.mpr ⟨w2, hreport, rfl⟩⟩

/-- In every run that rewires nothing, an invocation enters no contract twice
unless a tally earns the council a part of a lost bond or the timelock is to
call itself; and a tally is reported exactly when it earns the council nothing
and pays a winner. -/
theorem noReentry_of_clear {w : World}
    (h : network.Guarded (fun w step => step.KeepsWires w) w) :
    (∀ ctx (op : NetworkOp), AtTop ctx → Clear ctx.now w op → NoReentry ctx (op.exec ctx w)) ∧
      ∀ ctx k case request market, AtTop ctx → Countable ctx.now w k case request market →
        ((∃ w', (NetworkOp.council (.finalizeAndReportCase k)).exec ctx w = .ok w') ↔
          ¬Earns w.feeManager request (Council.tally case) ∧
            WinnerPaid w.feeManager request (Council.tally case)) := by
  have hw := wired_runs h
  constructor
  · intro ctx op htop hclear b hfault
    by_contra hb
    exact clear_spares hw htop hclear hb hfault
  · intro ctx k case request market htop hcount
    exact finalizeAndReportCase_iff hw htop hcount

/-- Alice's outcome is disputed by bob and escalated; the only member votes for it. -/
def majority : List NetworkStep :=
  [.call ⟨1, [.account 1], []⟩ (.factory (.createMarket sampleConfig 100 5000)),
    .call ⟨1, [.account 2], []⟩ (.council (.setMember (.account 20) true)),
    .call ⟨1000, [], []⟩ (.oracle (.requestResolution 1 0 "rules" 1000 10 100)),
    .call ⟨1000, [alice], []⟩ (.oracle (.proposeOutcome alice 1 .yes "yes")),
    .call ⟨1000, [bob], []⟩ (.oracle (.disputeOutcome bob 1 .no "no")),
    .call ⟨1000, [], []⟩ (.oracle (.escalateToCouncil 1)),
    .call ⟨1001, [.account 20], []⟩ (.council (.commitVote (.account 20) 1 0)),
    .call ⟨1101, [.account 20], []⟩ (.council (.revealVote (.account 20) 1 .yes 0))]

/-- Anyone reports the tally once the reveal window is over. -/
def report : NetworkOp := .council (.finalizeAndReportCase 1)

/-- A sample run that rewires nothing, and what its last state passes. -/
theorem network_of_check (steps : List NetworkStep) (p : World → Bool)
    (hc : network.checkRun (fun w step => step.KeepsWires w) p (deploy sampleLaunch) steps = true) :
    ∃ w, network.Guarded (fun w step => step.KeepsWires w) w ∧ p w = true := by
  have hinit : network.Init (deploy sampleLaunch) := ⟨sampleLaunch, rfl⟩
  obtain ⟨w, _, hguarded, hp⟩ := System.Guarded.of_check (.init hinit) steps hc
  exact ⟨w, hguarded, hp⟩

/-- Nobody votes, and the tally is reported: the council is not called back. -/
theorem noReentry_without_votes : ∃ w w',
    NoReentry ⟨1201, [], []⟩ (report.exec ⟨1201, [], []⟩ w) ∧
      report.exec ⟨1201, [], []⟩ w = .ok w' := by
  obtain ⟨w, hguarded, hp⟩ := network_of_check (majority.take 6) (fun w =>
    (w.council.caseData 1).any fun case => (w.oracle.request 1).any fun request =>
      (w.registry.market 1).any fun market => decide (Countable 1201 w 1 case request market ∧
        ¬Earns w.feeManager request (Council.tally case) ∧
        WinnerPaid w.feeManager request (Council.tally case) ∧ case.requestId = 1))
    (by decide +kernel)
  obtain ⟨case, hcase, hp⟩ := (Option.any_eq_true _ _).mp hp
  obtain ⟨request, hrequest, hp⟩ := (Option.any_eq_true _ _).mp hp
  obtain ⟨market, _, hp⟩ := (Option.any_eq_true _ _).mp hp
  obtain ⟨hcount, hearns, hpaid, hid⟩ := of_decide_eq_true hp
  have htop : AtTop ⟨1201, [], []⟩ := by decide
  obtain ⟨hnone, hreport⟩ := noReentry_of_clear hguarded
  obtain ⟨w', hw'⟩ :=
    (hreport ⟨1201, [], []⟩ 1 case request market htop hcount).mpr ⟨hearns, hpaid⟩
  refine ⟨w, w', hnone _ report htop ?_, hw'⟩
  intro case' request' hcase' _ _ hrequest' _
  obtain rfl := Option.some.inj (hcase.symm.trans hcase')
  rw [hid, hrequest] at hrequest'
  obtain rfl := Option.some.inj hrequest'
  exact hearns

/-- The fault a computation stops with. -/
def faultOf (x : Res World) : Option Fault :=
  match x with
  | .ok _ => none
  | .error e => some e

/-- The council's majority for alice pays the council: the oracle calls the
council back, which is still busy, and the report fails. -/
theorem not_always_noReentry : ¬∀ w, network.Guarded (fun w step => step.KeepsWires w) w →
    ∀ ctx (op : NetworkOp), AtTop ctx → NoReentry ctx (op.exec ctx w) := by
  intro hall
  obtain ⟨w, hguarded, hp⟩ := network_of_check majority (fun w =>
    decide (faultOf (report.exec ⟨1201, [], []⟩ w) = some (.reentry (.contract .council))))
    (by decide +kernel)
  have hfault := of_decide_eq_true hp
  unfold faultOf at hfault
  split at hfault
  · cases hfault
  · next e he =>
    rw [Option.some.inj hfault] at he
    exact absurd (hall w hguarded ⟨1201, [], []⟩ report (by decide) _ he) List.not_mem_nil

end DikeProtocol.Network
