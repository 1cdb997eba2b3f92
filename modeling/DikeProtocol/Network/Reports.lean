import DikeProtocol.Network.Stack

/-!
# The calls of council, oracle, timelock and factory

The council reports a tally to the oracle while it is busy itself, and the
oracle calls the council back only where the council earns a part of a lost
bond. The timelock calls the target of an action, whatever it is.
-/

namespace DikeProtocol.Network

open Lib
open Resolution (OracleWired)

section Oracle

variable {b : Address} {ctx : Ctx} {w w' : World} {treasury : Address} {m : MarketId} {r : ℕ}
  {u : Address} {token : Asset} {outcome : Outcome} {x : ℤ} {d : Bool}

/-- Nothing the oracle always calls is busy. -/
structure OracleFree (ctx : Ctx) : Prop where
  registry : Free .registry ctx
  vault : Free .vault ctx
  fees : Free .feeManager ctx

@[simp] theorem readRequest_spares {o : OracleState} : Spares b (Oracle.readRequest o r) := by
  simp [Oracle.readRequest]

@[simp] theorem disputeDeadline_spares {i j : ℕ} : Spares b (Oracle.disputeDeadline i j) := by
  simp [Oracle.disputeDeadline]

@[simp] theorem losingBondSplit_spares {f : FeeManagerState} :
    Spares b (FeeManager.losingBondSplit f x) := by
  simp [FeeManager.losingBondSplit]

/-- The council's share of a lost bond is its rate of the bond. -/
theorem losingBondSplit_council {f : FeeManagerState} {winner council rest : ℤ}
    (h : FeeManager.losingBondSplit f x = .ok (winner, council, rest)) :
    0 < x ∧ council = bpsOf x f.councilBondShareBps := by
  obtain ⟨_, hpos, h⟩ := bind_ok.mp h
  obtain ⟨_, _, h⟩ := bind_ok.mp h
  obtain ⟨share, hshare, h⟩ := bind_ok.mp h
  obtain ⟨_, _, h⟩ := bind_ok.mp h
  obtain ⟨_, _, h⟩ := bind_ok.mp h
  obtain ⟨_, hpair⟩ := Prod.mk.inj (pure_ok.mp h)
  obtain ⟨rfl, _⟩ := Prod.mk.inj hpair
  exact ⟨by have := refuse_ok.mp hpos; omega, (bps_ok.mp hshare).1⟩

/-- The oracle asks the registry for a market. -/
theorem loadMarket_spares (hw : OracleWired w treasury) (hfree : OracleFree ctx) :
    Spares b (Oracle.loadMarket ctx w m) := by
  simp [Oracle.loadMarket, readRole, orFault, hw.oracleRegistry, hfree.registry]

/-- What the oracle has the registry do. -/
theorem callRegistry_spares (hrole : w.oracle.roles .registry = some (.contract .registry))
    (hfree : OracleFree ctx) {op : Ctx → RegistryState → Res RegistryState}
    (hop : ∀ called, Spares b (op called w.registry)) :
    Spares b (Oracle.callRegistry ctx w op) := by
  refine avoids_bind.mpr ⟨readRole_rare, fun registry hregistry => ?_⟩
  rw [readRole_ok, hrole] at hregistry
  refine invoke_spares (Option.some.inj hregistry).symm (by decide) hfree.registry ?_
  exact avoids_bind.mpr ⟨hop _, fun _ _ => avoids_ok _⟩

/-- What the oracle has the vault do. -/
theorem callVault_spares (hrole : w.oracle.roles .vault = some (.contract .vault))
    (hfree : OracleFree ctx) {op : Ctx → World → Res World}
    (hop : ∀ called, Free .registry called → Spares b (op called w)) :
    Spares b (Oracle.callVault ctx w op) := by
  refine avoids_bind.mpr ⟨readRole_rare, fun vault hvault => ?_⟩
  rw [readRole_ok, hrole] at hvault
  exact invoke_spares (Option.some.inj hvault).symm (by decide) hfree.vault
    (hop _ (hfree.registry.under (by decide)))

/-- No invocation of the vault changes the oracle. -/
theorem vaultExec_oracle (op : Vault.VaultOp) (h : op.exec ctx w = .ok w') :
    w'.oracle = w.oracle := by
  obtain ⟨v, bank, t, rfl, _⟩ := op.exec_shape h
  rfl

/-- A request calls the registry. -/
theorem requestResolution_spares (hw : OracleWired w treasury) (hfree : OracleFree ctx)
    {questionHash : Hash} {rulesUri : String} {expiry disputeWindow : ℕ} :
    Spares b (Oracle.requestResolution ctx w m questionHash rulesUri expiry x disputeWindow) := by
  refine avoids_bind.mpr ⟨by simp [Oracle.ensureNotPaused], fun _ _ => ?_⟩
  refine avoids_bind.mpr ⟨by simp, fun _ _ => ?_⟩
  refine avoids_bind.mpr ⟨loadMarket_spares hw hfree, fun market _ => ?_⟩
  refine avoids_bind.mpr ⟨by simp [Oracle.validateRequestMatchesMarket], fun _ _ => ?_⟩
  refine avoids_bind.mpr ⟨by simp, fun _ _ => ?_⟩
  refine avoids_bind.mpr ⟨by simp, fun _ _ => ?_⟩
  refine avoids_bind.mpr ⟨?_, fun w1 h1 => ?_⟩
  · split
    · exact callRegistry_spares hw.oracleRegistry hfree fun _ => closeTrading_rare
    · simp
  · have hsame : w1.oracle = w.oracle := by
      split at h1
      · obtain ⟨_, _, _, _, rfl⟩ := Oracle.callRegistry_ok.mp h1
        rfl
      · obtain ⟨_, _, h1⟩ := bind_ok.mp h1
        rw [← pure_ok.mp h1]
    refine avoids_bind.mpr ⟨by simp, fun _ _ => ?_⟩
    refine avoids_bind.mpr ⟨checkedAddU64_rare, fun next _ => ?_⟩
    refine avoids_bind.mpr ⟨callRegistry_spares ?_ hfree fun _ => markResolutionRequested_rare,
      fun _ _ => avoids_ok _⟩
    change w1.oracle.roles .registry = _
    rw [hsame]
    exact hw.oracleRegistry

/-- A proposal calls the registry and the vault. -/
theorem proposeOutcome_spares (hb : BooksWired w) (hw : OracleWired w treasury)
    (hfree : OracleFree ctx) {evidenceUri : String} :
    Spares b (Oracle.proposeOutcome ctx w u r outcome evidenceUri) := by
  refine avoids_bind.mpr ⟨requireAuth_rare, fun _ _ => ?_⟩
  refine avoids_bind.mpr ⟨by simp, fun _ _ => ?_⟩
  refine avoids_bind.mpr ⟨readRequest_spares, fun request _ => ?_⟩
  refine avoids_bind.mpr ⟨by simp, fun _ _ => ?_⟩
  refine avoids_bind.mpr ⟨disputeDeadline_spares, fun _ _ => ?_⟩
  refine avoids_bind.mpr ⟨loadMarket_spares hw hfree, fun market _ => ?_⟩
  refine avoids_bind.mpr ⟨callVault_spares hw.oracleVault hfree fun _ => lockBond_spares hb,
    fun w1 h1 => ?_⟩
  refine callRegistry_spares ?_ hfree fun _ => oracleMark_rare
  change w1.oracle.roles .registry = _
  rw [vaultExec_oracle (.lockBond _ _ _ _ _ _) (Oracle.callVault_ok.mp h1).2.2]
  exact hw.oracleRegistry

/-- So does a dispute. -/
theorem disputeOutcome_spares (hb : BooksWired w) (hw : OracleWired w treasury)
    (hfree : OracleFree ctx) {evidenceUri : String} :
    Spares b (Oracle.disputeOutcome ctx w u r outcome evidenceUri) := by
  refine avoids_bind.mpr ⟨requireAuth_rare, fun _ _ => ?_⟩
  refine avoids_bind.mpr ⟨by simp, fun _ _ => ?_⟩
  refine avoids_bind.mpr ⟨readRequest_spares, fun request _ => ?_⟩
  refine avoids_bind.mpr ⟨by simp, fun _ _ => ?_⟩
  refine avoids_bind.mpr ⟨by simp, fun _ _ => ?_⟩
  refine avoids_bind.mpr ⟨disputeDeadline_spares, fun _ _ => ?_⟩
  refine avoids_bind.mpr ⟨by simp, fun _ _ => ?_⟩
  refine avoids_bind.mpr ⟨by simp, fun _ _ => ?_⟩
  refine avoids_bind.mpr ⟨loadMarket_spares hw hfree, fun market _ => ?_⟩
  refine avoids_bind.mpr ⟨callVault_spares hw.oracleVault hfree fun _ => lockBond_spares hb,
    fun w1 h1 => ?_⟩
  refine callRegistry_spares ?_ hfree fun _ => oracleMark_rare
  change w1.oracle.roles .registry = _
  rw [vaultExec_oracle (.lockBond _ _ _ _ _ _) (Oracle.callVault_ok.mp h1).2.2]
  exact hw.oracleRegistry

/-- A payment out of a bond, asked for by the oracle. -/
theorem payBond_called_spares (hrole : w.oracle.roles .vault = some (.contract .vault))
    (hfree : OracleFree ctx) {recipient : Address} :
    Spares b (Oracle.callVault ctx w
      (fun called w => Vault.payBond called w token u r x d recipient)) :=
  callVault_spares hrole hfree fun _ _ => payBond_rare

/-- So does the end of an undisputed request. -/
theorem finalizeUndisputed_spares (hw : OracleWired w treasury) (hfree : OracleFree ctx) :
    Spares b (Oracle.finalizeUndisputed ctx w r) := by
  refine avoids_bind.mpr ⟨readRequest_spares, fun request _ => ?_⟩
  refine avoids_bind.mpr ⟨by simp, fun _ _ => ?_⟩
  refine avoids_bind.mpr ⟨by simp, fun _ _ => ?_⟩
  refine avoids_bind.mpr ⟨disputeDeadline_spares, fun _ _ => ?_⟩
  refine avoids_bind.mpr ⟨by simp, fun _ _ => ?_⟩
  refine avoids_bind.mpr ⟨loadMarket_spares hw hfree, fun market _ => ?_⟩
  refine avoids_bind.mpr ⟨callRegistry_spares hw.oracleRegistry hfree fun _ =>
    setFinalOutcome_rare, fun w1 h1 => ?_⟩
  refine avoids_bind.mpr ⟨payBond_called_spares ?_ hfree, fun _ _ => avoids_ok _⟩
  obtain ⟨_, _, _, _, rfl⟩ := Oracle.callRegistry_ok.mp h1
  exact hw.oracleVault

@[simp] theorem openCase_spares {c : CouncilState} {po do' : Outcome} {p q : Address}
    {pu du : String} {config : OpenCaseConfig} :
    Spares b (Council.openCase ctx c r m p po pu q do' du config) := by
  simp [Council.openCase]

/-- An escalation calls the registry and the council. -/
theorem escalateToCouncil_spares (hw : OracleWired w treasury) (hfree : OracleFree ctx)
    (hcouncil : Free .council ctx) : Spares b (Oracle.escalateToCouncil ctx w r) := by
  refine avoids_bind.mpr ⟨readRequest_spares, fun request _ => ?_⟩
  refine avoids_bind.mpr ⟨by simp, fun _ _ => ?_⟩
  refine avoids_bind.mpr ⟨loadMarket_spares hw hfree, fun market _ => ?_⟩
  refine avoids_bind.mpr ⟨readRole_rare, fun council hrole => ?_⟩
  rw [readRole_ok, hw.oracleCouncil] at hrole
  refine invoke_spares (Option.some.inj hrole).symm (by decide) hcouncil ?_
  refine avoids_bind.mpr ⟨openCase_spares, fun opened _ => ?_⟩
  refine avoids_bind.mpr ⟨?_, fun _ _ => avoids_ok _⟩
  exact callRegistry_spares (by exact hw.oracleRegistry) hfree fun _ => oracleMark_rare

/-- The council is called back only for a part of a lost bond, and only while it is busy. -/
theorem rewardCouncil_spares {council : Address}
    (hrole : w.oracle.roles .vault = some (.contract .vault))
    (haddress : council = .contract .council) (hfree : OracleFree ctx)
    (hcouncil : 0 < x → Free .council ctx) :
    Spares b (Oracle.rewardCouncil ctx w token u council r x d) := by
  unfold Oracle.rewardCouncil
  split
  · next hx =>
    refine avoids_bind.mpr ⟨payBond_called_spares hrole hfree, fun w1 _ => ?_⟩
    refine invoke_spares haddress (by decide) (hcouncil hx) ?_
    simp [Council.caseForRequest, Council.recordCaseReward]
  · exact avoids_ok _

/-- The settlement of two bonds avoids it while the council is free or earns nothing. -/
theorem settleBonds_spares {loser : Address} (hw : OracleWired w treasury) (hfree : OracleFree ctx)
    (hcouncil : 10000 ≤ x * w.feeManager.councilBondShareBps → Free .council ctx) :
    Spares b (Oracle.settleBonds ctx w token u loser r x d) := by
  refine avoids_bind.mpr ⟨payBond_called_spares hw.oracleVault hfree, fun w1 h1 => ?_⟩
  have hkept := Oracle.BondsOnly.payBond (Oracle.callVault_ok.mp h1).2.2
  refine avoids_bind.mpr ⟨readRole_rare, fun fees hfees => ?_⟩
  refine avoids_bind.mpr ⟨readRole_rare, fun _ _ => ?_⟩
  refine avoids_bind.mpr ⟨readRole_rare, fun council hrole => ?_⟩
  rw [readRole_ok, hkept.oracle, hw.oracleFees] at hfees
  rw [readRole_ok, hkept.oracle, hw.oracleCouncil] at hrole
  refine invoke_spares (Option.some.inj hfees).symm (by decide) hfree.fees ?_
  refine avoids_bind.mpr ⟨losingBondSplit_spares, ?_⟩
  rintro ⟨winnerAmt, councilAmt, treasuryAmt⟩ hsplit
  obtain ⟨hpos, hshare⟩ := losingBondSplit_council hsplit
  rw [hkept.feeManager] at hshare
  have hvault1 : w1.oracle.roles .vault = some (.contract .vault) := by
    rw [hkept.oracle]
    exact hw.oracleVault
  refine avoids_bind.mpr ⟨payBond_called_spares hvault1 hfree, fun w2 h2 => ?_⟩
  have hkept2 := Oracle.BondsOnly.payBond (Oracle.callVault_ok.mp h2).2.2
  have hvault2 : w2.oracle.roles .vault = some (.contract .vault) := by
    rw [hkept2.oracle]
    exact hvault1
  refine avoids_bind.mpr ⟨rewardCouncil_spares hvault2 (Option.some.inj hrole).symm hfree ?_,
    fun w3 h3 => ?_⟩
  · intro hearned
    rw [hshare] at hearned
    exact hcouncil ((Resolution.bpsOf_pos hpos.le).mp hearned)
  · have hvault3 : w3.oracle.roles .vault = some (.contract .vault) := by
      unfold Oracle.rewardCouncil at h3
      split at h3
      · obtain ⟨w4, h4, h3⟩ := bind_ok.mp h3
        obtain ⟨_, _, h3⟩ := bind_ok.mp h3
        obtain ⟨_, _, h3⟩ := bind_ok.mp h3
        obtain ⟨_, _, h3⟩ := bind_ok.mp h3
        rw [← pure_ok.mp h3]
        change w4.oracle.roles .vault = _
        rw [(Oracle.BondsOnly.payBond (Oracle.callVault_ok.mp h4).2.2).oracle]
        exact hvault2
      · rw [← ok_ok.mp h3]
        exact hvault2
    unfold Oracle.rewardTreasury
    split
    · exact payBond_called_spares hvault3 hfree
    · exact avoids_ok _

/-- The council earns a part of the bond that an outcome costs one of the two sides. -/
def Earns (f : FeeManagerState) (request : ResolutionRequest) (outcome : Outcome) : Prop :=
  (outcome = request.proposedOutcome ∨ outcome = request.disputedOutcome) ∧
    10000 ≤ request.bondAmount * f.councilBondShareBps

instance (f : FeeManagerState) (request : ResolutionRequest) (outcome : Outcome) :
    Decidable (Earns f request outcome) := inferInstanceAs (Decidable (_ ∧ _))

/-- A report avoids it while the council is free or earns nothing. -/
theorem reportCouncilOutcome_spares (hw : OracleWired w treasury) (hfree : OracleFree ctx)
    (hcouncil : ∀ request, w.oracle.request r = some request → request.status = .escalated →
      Earns w.feeManager request outcome → Free .council ctx) :
    Spares b (Oracle.reportCouncilOutcome ctx w r outcome) := by
  refine avoids_bind.mpr ⟨requireRole_rare, fun _ _ => ?_⟩
  refine avoids_bind.mpr ⟨readRequest_spares, fun request hrequest => ?_⟩
  refine avoids_bind.mpr ⟨by simp, fun _ hstatus => ?_⟩
  have hearns := hcouncil request (orFault_ok.mp hrequest) (not_not.mp (refuse_ok.mp hstatus))
  refine avoids_bind.mpr ⟨by simp, fun _ _ => ?_⟩
  refine avoids_bind.mpr ⟨loadMarket_spares hw hfree, fun market _ => ?_⟩
  refine avoids_bind.mpr ⟨?_, fun w1 h1 => ?_⟩
  · unfold Oracle.divideBonds
    split
    · next heq => exact settleBonds_spares hw hfree fun hlarge => hearns ⟨Or.inl heq, hlarge⟩
    · split
      · next heq => exact settleBonds_spares hw hfree fun hlarge => hearns ⟨Or.inr heq, hlarge⟩
      · refine avoids_bind.mpr ⟨payBond_called_spares hw.oracleVault hfree, fun w1 h1 => ?_⟩
        refine payBond_called_spares ?_ hfree
        rw [(Oracle.BondsOnly.payBond (Oracle.callVault_ok.mp h1).2.2).oracle]
        exact hw.oracleVault
  · refine avoids_bind.mpr ⟨callRegistry_spares ?_ hfree fun _ => setFinalOutcome_rare,
      fun _ _ => avoids_ok _⟩
    rw [(Oracle.BondsOnly.divideBonds h1).oracle]
    exact hw.oracleRegistry

/-- The oracle calls the registry, the vault, the fee manager and the council. -/
theorem oracleExec_spares (hb : BooksWired w) (hw : OracleWired w treasury)
    (hfree : OracleFree ctx) (hcouncil : Free .council ctx) (op : Oracle.OracleOp) :
    Spares b (op.exec ctx w) := by
  cases op with
  | setAdmin | upgrade | setRole | pause =>
    simp [Oracle.OracleOp.exec, Oracle.store, Oracle.setAdmin, Oracle.setRole, Oracle.pause]
  | requestResolution => exact world_rare.mpr (requestResolution_spares hw hfree)
  | proposeOutcome => exact proposeOutcome_spares hb hw hfree
  | disputeOutcome => exact disputeOutcome_spares hb hw hfree
  | finalizeUndisputed => exact world_rare.mpr (finalizeUndisputed_spares hw hfree)
  | escalateToCouncil => exact escalateToCouncil_spares hw hfree hcouncil
  | reportCouncilOutcome =>
    exact reportCouncilOutcome_spares hw hfree fun _ _ _ _ => hcouncil

end Oracle

section Council

variable {b : Address} {ctx : Ctx} {w : World} {treasury : Address} {k : ℕ}

/-- What is written to the storage of the council alone calls nobody. -/
@[simp] theorem councilStore_spares {x : Res CouncilState} :
    Spares b (Council.store w x) ↔ Spares b x := by
  simp [Council.store]

@[simp] theorem councilStorage_spares {α : Type} {x : Res (α × CouncilState)} :
    Spares b (Council.storage x) ↔ Spares b x := by
  simp [Council.storage]

@[simp] theorem readCase_spares {c : CouncilState} : Spares b (Council.readCase c k) := by
  simp [Council.readCase]

@[simp] theorem finalizeCase_spares {c : CouncilState} :
    Spares b (Council.finalizeCase ctx c k) := by
  simp [Council.finalizeCase]

@[simp] theorem withVote_spares {case : CouncilCase} {outcome : Outcome} :
    Spares b (Council.withVote case outcome) := by
  cases outcome <;> simp [Council.withVote, Council.countVote]

/-- Every invocation of the council except the report of a tally stays inside it. -/
theorem councilExec_spares {op : Council.CouncilOp} (hop : ∀ k, op ≠ .finalizeAndReportCase k) :
    Spares b (op.exec ctx w) := by
  cases op with
  | finalizeAndReportCase k => exact absurd rfl (hop k)
  | _ => simp [Council.CouncilOp.exec, Council.setAdmin, Council.setRole, Council.setMember,
      Council.pause, Council.recordCaseReward, Council.commitVote, Council.revealVote,
      Council.claimReward, Council.sweepCaseReward, Council.payReward, Council.requireMember,
      Council.ensureNotPaused]

/-- A tally that earns the council nothing is reported without calling it back. -/
theorem finalizeAndReportCase_spares (hw : OracleWired w treasury) (hfree : ∀ c, Free c ctx)
    (hearns : ∀ case request, w.council.caseData k = some case → case.hasFinalOutcome = false →
      case.revealEnd < ctx.now → w.oracle.request case.requestId = some request →
      request.status = .escalated → ¬Earns w.feeManager request (Council.tally case)) :
    Spares b (Council.finalizeAndReportCase ctx w k) := by
  refine avoids_bind.mpr ⟨finalizeCase_spares, ?_⟩
  rintro ⟨outcome, c⟩ hfinal
  obtain ⟨before, hbefore, hopen, hlate, rfl, rfl⟩ := Council.finalizeCase_ok.mp hfinal
  refine avoids_bind.mpr ⟨readCase_spares, fun case hcase => ?_⟩
  have hrequestId := Council.readCase_finalized hbefore hcase
  refine avoids_bind.mpr ⟨readRole_rare, fun oracle hrole => ?_⟩
  have haddress : oracle = .contract .oracle := by
    have hread : w.council.roles .oracle = some oracle := readRole_ok.mp hrole
    exact Option.some.inj (hread.symm.trans hw.councilOracle)
  refine invoke_spares haddress (by decide) (hfree .oracle) ?_
  have hw1 : OracleWired
      { w with council := Council.writeCase w.council (Council.finalized before) } treasury :=
    { hw with }
  refine avoids_bind.mpr ⟨reportCouncilOutcome_spares hw1
    ⟨(hfree .registry).under (by decide), (hfree .vault).under (by decide),
      (hfree .feeManager).under (by decide)⟩ ?_, fun _ _ => avoids_ok _⟩
  intro request hrequest hstatus hk
  rw [hrequestId] at hrequest
  exact absurd hk (hearns before request hbefore hopen hlate hrequest hstatus)

end Council

end DikeProtocol.Network
