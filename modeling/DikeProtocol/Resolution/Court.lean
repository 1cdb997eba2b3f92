import DikeProtocol.Resolution.Reporting
import DikeProtocol.Vault.BondRuns
import DikeProtocol.Vault.System

/-!
# Council, oracle, registry and vault in time

Every public entry point of the four contracts that resolve a market and hold
its bonds, invoked by anyone from outside the four, at times that never go
back. What one step may do is said once, and every invariant is derived from it.
-/

namespace DikeProtocol.Resolution

open Lib
open Council (CouncilOp)
open Oracle (OracleOp)
open Registry (RegistryOp)
open Vault (VaultOp Outside Sane SameBonds BondRun BondMove)

/-- An invocation of one of the four contracts. -/
inductive CourtOp where
  | council (op : CouncilOp)
  | oracle (op : OracleOp)
  | registry (op : RegistryOp)
  | vault (op : VaultOp)

/-- Execute an invocation. -/
def CourtOp.exec (ctx : Ctx) (w : World) : CourtOp → Res World
  | council op => op.exec ctx w
  | oracle op => op.exec ctx w
  | registry op => do
    let r ← op.exec ctx w.registry
    return { w with registry := r }
  | vault op => op.exec ctx w

/-- Invocations from outside the four contracts. -/
def Apart (ctx : Ctx) : Prop :=
  Outside .council ctx ∧ Outside .oracle ctx ∧ Outside .registry ctx ∧ Outside .vault ctx

instance (ctx : Ctx) : Decidable (Apart ctx) := inferInstanceAs (Decidable (_ ∧ _ ∧ _ ∧ _))

/-- One step of a run. -/
inductive CourtStep where
  /-- An invocation. -/
  | call (ctx : Ctx) (op : CourtOp)
  /-- Anything else changes: balances and the other contracts. -/
  | outside (w : World)

/-- Runs of the four contracts from a deployment, with the time of the last invocation. -/
def court : System (World × ℕ) CourtStep Fault where
  Init := fun s => ∃ l : Launch, s.1 = deploy l
  step := fun s step =>
    match step with
    | .call ctx op => do
      refuse (¬Apart ctx) .trap
      refuse (ctx.now < s.2 ∨ u64Max < ctx.now) .trap
      let w ← op.exec ctx s.1
      return (w, ctx.now)
    | .outside around =>
      .ok ({ around with
        council := s.1.council
        oracle := s.1.oracle
        registry := s.1.registry
        vault := s.1.vault
        host := s.1.host }, s.2)

/-- What an invocation at some time may do. -/
inductive CourtMove (ctx : Ctx) (w : World) : CourtOp → World → Prop where
  /-- The council does something of its own. -/
  | council {op : CouncilOp} {w' : World} (hop : ∀ caseId, op ≠ .finalizeAndReportCase caseId)
      (horacle : w'.oracle = w.oracle) (hregistry : w'.registry = w.registry)
      (hvault : w'.vault = w.vault) (h : op.exec ctx w = .ok w') : CourtMove ctx w (.council op) w'
  /-- The council reports a tally to the oracle. -/
  | tally {caseId : ℕ} {c : CouncilState} {case : CouncilCase} {outcome : Outcome} {w' : World}
      (hfinal : Council.finalizeCase ctx w.council caseId = .ok (outcome, c))
      (hcase : c.caseData caseId = some case)
      (h : Oracle.reportCouncilOutcome { ctx with callers := .contract .council :: ctx.callers }
        { w with council := c } case.requestId outcome = .ok w') :
      CourtMove ctx w (.council (.finalizeAndReportCase caseId)) w'
  /-- The oracle is invoked. -/
  | oracle {op : OracleOp} {w' : World} (h : op.exec ctx w = .ok w') :
      CourtMove ctx w (.oracle op) w'
  /-- The registry is invoked. -/
  | registry {op : RegistryOp} {r : RegistryState} (h : op.exec ctx w.registry = .ok r) :
      CourtMove ctx w (.registry op) { w with registry := r }
  /-- The vault is invoked. -/
  | vault {op : VaultOp} {w' : World} (horacle : w'.oracle = w.oracle)
      (hregistry : w'.registry = w.registry) (hcouncil : w'.council = w.council)
      (h : op.exec ctx w = .ok w') : CourtMove ctx w (.vault op) w'

/-- A change of the council's own storage changes nothing else. -/
theorem councilStore_ok {w w' : World} {x : Res CouncilState} (h : Council.store w x = .ok w') :
    ∃ c, x = .ok c ∧ w' = { w with council := c } := by
  obtain ⟨c, hc, h⟩ := bind_ok.mp h
  exact ⟨c, hc, (pure_ok.mp h).symm⟩

/-- Every invocation of the council is one of these moves. -/
theorem council_moves {ctx : Ctx} {w w' : World} {op : CouncilOp} (h : op.exec ctx w = .ok w') :
    CourtMove ctx w (.council op) w' := by
  have hown : (∀ caseId, op ≠ .finalizeAndReportCase caseId) →
      (∃ c b, w' = { w with council := c, bank := b }) → CourtMove ctx w (.council op) w' := by
    rintro hop ⟨c, b, rfl⟩
    exact .council hop rfl rfl rfl h
  have hstore : (∀ caseId, op ≠ .finalizeAndReportCase caseId) →
      ∀ x, Council.store w x = .ok w' → CourtMove ctx w (.council op) w' := by
    intro hop x hx
    obtain ⟨c, _, hshape⟩ := councilStore_ok hx
    exact hown hop ⟨c, w.bank, hshape⟩
  cases op with
  | setAdmin admin => exact hstore (fun _ => by simp) _ h
  | upgrade wasmHash =>
    obtain ⟨_, _, hpure⟩ := bind_ok.mp h
    exact hown (fun _ => by simp) ⟨w.council, w.bank, (pure_ok.mp hpure).symm⟩
  | setRole role module => exact hstore (fun _ => by simp) _ h
  | setMember member approved => exact hstore (fun _ => by simp) _ h
  | pause paused => exact hstore (fun _ => by simp) _ h
  | recordCaseReward caseId amount => exact hstore (fun _ => by simp) _ h
  | openCase requestId marketId proposer proposerOutcome proposerUri disputer disputerOutcome
      disputerUri config => exact hstore (fun _ => by simp) _ h
  | commitVote voter caseId commitment => exact hstore (fun _ => by simp) _ h
  | revealVote voter caseId outcome salt => exact hstore (fun _ => by simp) _ h
  | finalizeCase caseId => exact hstore (fun _ => by simp) _ h
  | finalizeAndReportCase caseId =>
    obtain ⟨outcome, h⟩ := world_ok.mp h
    unfold Council.finalizeAndReportCase at h
    obtain ⟨⟨outcome', c⟩, hfinal, h⟩ := bind_ok.mp h
    obtain ⟨case, hcase, h⟩ := bind_ok.mp h
    obtain ⟨oracle, _, h⟩ := bind_ok.mp h
    obtain ⟨called, hcall, h⟩ := bind_ok.mp h
    obtain ⟨w1, hreport, h⟩ := bind_ok.mp h
    obtain ⟨rfl, rfl⟩ := Prod.mk.inj (pure_ok.mp h)
    obtain rfl := (Ctx.call_ok.mp hcall).2.2
    exact .tally hfinal (orFault_ok.mp hcase) hreport
  | claimReward voter caseId =>
    obtain ⟨payout, hclaim⟩ := world_ok.mp h
    unfold Council.claimReward at hclaim
    obtain ⟨_, _, hclaim⟩ := bind_ok.mp hclaim
    obtain ⟨case, _, hclaim⟩ := bind_ok.mp hclaim
    obtain ⟨_, _, hclaim⟩ := bind_ok.mp hclaim
    obtain ⟨revealed, _, hclaim⟩ := bind_ok.mp hclaim
    obtain ⟨_, _, hclaim⟩ := bind_ok.mp hclaim
    obtain ⟨w1, hpay, hclaim⟩ := bind_ok.mp hclaim
    obtain ⟨_, hshape⟩ := Prod.mk.inj (pure_ok.mp hclaim)
    obtain ⟨b, rfl⟩ := Council.payReward_ok hpay
    exact hown (fun _ => by simp) ⟨_, b, hshape.symm⟩
  | sweepCaseReward caseId recipient =>
    obtain ⟨pool, hsweep⟩ := world_ok.mp h
    unfold Council.sweepCaseReward at hsweep
    obtain ⟨_, _, hsweep⟩ := bind_ok.mp hsweep
    obtain ⟨case, _, hsweep⟩ := bind_ok.mp hsweep
    obtain ⟨_, _, hsweep⟩ := bind_ok.mp hsweep
    obtain ⟨_, _, hsweep⟩ := bind_ok.mp hsweep
    obtain ⟨_, _, hsweep⟩ := bind_ok.mp hsweep
    obtain ⟨token, _, hsweep⟩ := bind_ok.mp hsweep
    obtain ⟨w1, hpay, hsweep⟩ := bind_ok.mp hsweep
    obtain ⟨_, hshape⟩ := Prod.mk.inj (pure_ok.mp hsweep)
    obtain ⟨_, b, _, rfl⟩ := transferToken_ok.mp hpay
    exact hown (fun _ => by simp) ⟨_, b, hshape.symm⟩

/-- A step of a run is one of these moves, not before the last, or leaves the
four contracts alone. -/
theorem court_step {s s' : World × ℕ} {step : CourtStep} (h : court.step s step = .ok s') :
    (∃ ctx op, step = .call ctx op ∧ Apart ctx ∧ s.2 ≤ ctx.now ∧ ctx.now ≤ u64Max ∧
      s'.2 = ctx.now ∧ CourtMove ctx s.1 op s'.1) ∨
    (∃ around, step = .outside around ∧ s' = ({ around with
      council := s.1.council
      oracle := s.1.oracle
      registry := s.1.registry
      vault := s.1.vault
      host := s.1.host }, s.2)) := by
  cases step with
  | call ctx op =>
    obtain ⟨_, hapart, h⟩ := bind_ok.mp h
    obtain ⟨_, htime, h⟩ := bind_ok.mp h
    obtain ⟨w, hexec, h⟩ := bind_ok.mp h
    obtain rfl := pure_ok.mp h
    have htime' := refuse_ok.mp htime
    refine Or.inl ⟨ctx, op, rfl, not_not.mp (refuse_ok.mp hapart), by omega, by omega, rfl, ?_⟩
    cases op with
    | council op => exact council_moves hexec
    | oracle op => exact .oracle hexec
    | registry op =>
      obtain ⟨r, hr, hexec⟩ := bind_ok.mp hexec
      obtain rfl := pure_ok.mp hexec
      exact .registry hr
    | vault op =>
      obtain ⟨v, b, t, rfl, _⟩ := op.exec_shape hexec
      exact .vault rfl rfl rfl hexec
  | outside around => exact Or.inr ⟨around, rfl, (ok_ok.mp h).symm⟩

end DikeProtocol.Resolution
