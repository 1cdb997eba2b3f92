import DikeProtocol.Resolution.BondLedger
import DikeProtocol.Resolution.Lockstep
import DikeProtocol.Trading.Exits

/-!
# What an open request rests on

As long as nobody rewires the four contracts, a request that is proposed or
disputed keeps everything its next step asks for: the bond with its token and
market, the evidence, the two different outcomes, and that no case is open.
-/

namespace DikeProtocol.Resolution

open Lib
open Council (CouncilOp)
open Oracle (OracleOp)
open Registry (RegistryOp MarketsFollow Ordered)
open Vault (VaultOp Outside Sane Held BondRun BondMove bondTotal paidFrom)

/-- The role steps of a run: what the four contracts point to stays. -/
def CourtStep.KeepsWires : CourtStep → Prop
  | call _ (.registry (.setRole .oracle module)) => module = .contract .oracle
  | call _ (.vault (.setRole .oracle module)) => module = .contract .oracle
  | call _ (.council (.setRole .oracle module)) => module = .contract .oracle
  | call _ (.oracle (.setRole .registry module)) => module = .contract .registry
  | call _ (.oracle (.setRole .vault module)) => module = .contract .vault
  | call _ (.oracle (.setRole .council module)) => module = .contract .council
  | _ => True

/-- Then oracle and registry stay wired. -/
theorem CourtStep.KeepsWires.staysWired {step : CourtStep} (h : step.KeepsWires) :
    step.StaysWired := by
  cases step with
  | outside w => trivial
  | call ctx op =>
    cases op with
    | registry op =>
      cases op with
      | setRole role module => cases role <;> exact h
      | _ => trivial
    | oracle op =>
      cases op with
      | setRole role module => cases role <;> first | exact h | trivial
      | _ => trivial
    | _ => trivial

/-- The four contracts stand behind each other's roles. -/
structure Wired (w : World) : Prop where
  oracleRegistry : w.oracle.roles .registry = some (.contract .registry)
  oracleVault : w.oracle.roles .vault = some (.contract .vault)
  oracleCouncil : w.oracle.roles .council = some (.contract .council)
  vaultOracle : w.vault.roles .oracle = some (.contract .oracle)
  councilOracle : w.council.roles .oracle = some (.contract .oracle)

/-- A rewritten role of a table is still right when it is set right. -/
theorem role_set {roles : Store Role (Option Address)} {role key : Role} {module a : Address}
    (h : roles key = some a) (hset : role = key → module = a) :
    (roles.set role (some module)) key = some a := by
  rw [Store.set_get]
  split
  · next heq => rw [hset heq.symm]
  · exact h

section Wires

variable {ctx : Ctx} {w w' : World}

/-- What the council does on its own leaves the cases of requests alone. -/
theorem council_requestCase (hctx : Outside .oracle ctx)
    (hrole : w.council.roles .oracle = some (.contract .oracle)) {op : CouncilOp}
    (hop : ∀ caseId, op ≠ .finalizeAndReportCase caseId)
    (hwires : (CourtStep.call ctx (.council op)).KeepsWires) (h : op.exec ctx w = .ok w') :
    w'.council.requestCase = w.council.requestCase ∧
      w'.council.roles .oracle = some (.contract .oracle) := by
  cases op with
  | setAdmin admin =>
    obtain ⟨c, hc, rfl⟩ := councilStore_ok h
    obtain ⟨_, _, hc⟩ := bind_ok.mp hc
    obtain rfl := pure_ok.mp hc
    exact ⟨rfl, hrole⟩
  | upgrade wasmHash =>
    obtain ⟨_, _, h⟩ := bind_ok.mp h
    obtain rfl := pure_ok.mp h
    exact ⟨rfl, hrole⟩
  | setRole role module =>
    obtain ⟨c, hc, rfl⟩ := councilStore_ok h
    obtain ⟨_, _, hc⟩ := bind_ok.mp hc
    obtain rfl := pure_ok.mp hc
    refine ⟨rfl, role_set hrole ?_⟩
    rintro rfl
    exact hwires
  | setMember member approved =>
    obtain ⟨c, hc, rfl⟩ := councilStore_ok h
    obtain ⟨_, _, hc⟩ := bind_ok.mp hc
    obtain rfl := pure_ok.mp hc
    exact ⟨rfl, hrole⟩
  | pause paused =>
    obtain ⟨c, hc, rfl⟩ := councilStore_ok h
    obtain ⟨_, _, hc⟩ := bind_ok.mp hc
    obtain rfl := pure_ok.mp hc
    exact ⟨rfl, hrole⟩
  | recordCaseReward caseId amount =>
    obtain ⟨c, hc, rfl⟩ := councilStore_ok h
    obtain ⟨_, _, hc⟩ := bind_ok.mp hc
    obtain ⟨_, _, hc⟩ := bind_ok.mp hc
    obtain ⟨_, _, hc⟩ := bind_ok.mp hc
    obtain rfl := pure_ok.mp hc
    exact ⟨rfl, hrole⟩
  | openCase requestId marketId proposer proposerOutcome proposerUri disputer disputerOutcome
      disputerUri config =>
    obtain ⟨c, hc, rfl⟩ := councilStore_ok h
    obtain ⟨_, hopen, _⟩ := bind_ok.mp hc
    obtain ⟨_, hauth, _⟩ := bind_ok.mp hopen
    exact absurd hauth (Trading.requireRole_outside hctx hrole)
  | commitVote voter caseId commitment =>
    obtain ⟨c, hc, rfl⟩ := councilStore_ok h
    obtain ⟨_, _, hc⟩ := bind_ok.mp hc
    obtain ⟨_, _, hc⟩ := bind_ok.mp hc
    obtain ⟨_, _, hc⟩ := bind_ok.mp hc
    obtain ⟨_, _, hc⟩ := bind_ok.mp hc
    obtain ⟨_, _, hc⟩ := bind_ok.mp hc
    obtain rfl := pure_ok.mp hc
    exact ⟨rfl, hrole⟩
  | revealVote voter caseId outcome salt =>
    obtain ⟨c, hc, rfl⟩ := councilStore_ok h
    obtain ⟨_, _, hc⟩ := bind_ok.mp hc
    obtain ⟨_, _, hc⟩ := bind_ok.mp hc
    obtain ⟨_, _, hc⟩ := bind_ok.mp hc
    obtain ⟨_, _, hc⟩ := bind_ok.mp hc
    obtain ⟨_, _, hc⟩ := bind_ok.mp hc
    obtain ⟨_, _, hc⟩ := bind_ok.mp hc
    obtain ⟨_, _, hc⟩ := bind_ok.mp hc
    obtain ⟨_, _, hc⟩ := bind_ok.mp hc
    obtain rfl := pure_ok.mp hc
    exact ⟨rfl, hrole⟩
  | finalizeCase caseId =>
    obtain ⟨c, hc, rfl⟩ := councilStore_ok h
    obtain ⟨⟨outcome, c1⟩, hfinal, hc⟩ := bind_ok.mp hc
    obtain rfl := pure_ok.mp hc
    obtain ⟨_, _, _, _, _, rfl⟩ := Council.finalizeCase_ok.mp hfinal
    exact ⟨rfl, hrole⟩
  | finalizeAndReportCase caseId => exact absurd rfl (hop caseId)
  | claimReward voter caseId =>
    obtain ⟨payout, h⟩ := world_ok.mp h
    unfold Council.claimReward at h
    obtain ⟨_, _, h⟩ := bind_ok.mp h
    obtain ⟨case, _, h⟩ := bind_ok.mp h
    obtain ⟨_, _, h⟩ := bind_ok.mp h
    obtain ⟨revealed, _, h⟩ := bind_ok.mp h
    obtain ⟨_, _, h⟩ := bind_ok.mp h
    obtain ⟨w1, hpay, h⟩ := bind_ok.mp h
    obtain ⟨_, rfl⟩ := Prod.mk.inj (pure_ok.mp h)
    obtain ⟨b, rfl⟩ := Council.payReward_ok hpay
    exact ⟨rfl, hrole⟩
  | sweepCaseReward caseId recipient =>
    obtain ⟨pool, h⟩ := world_ok.mp h
    unfold Council.sweepCaseReward at h
    obtain ⟨_, _, h⟩ := bind_ok.mp h
    obtain ⟨case, _, h⟩ := bind_ok.mp h
    obtain ⟨_, _, h⟩ := bind_ok.mp h
    obtain ⟨_, _, h⟩ := bind_ok.mp h
    obtain ⟨_, _, h⟩ := bind_ok.mp h
    obtain ⟨token, _, h⟩ := bind_ok.mp h
    obtain ⟨w1, hpay, h⟩ := bind_ok.mp h
    obtain ⟨_, rfl⟩ := Prod.mk.inj (pure_ok.mp h)
    obtain ⟨_, b, _, rfl⟩ := transferToken_ok.mp hpay
    exact ⟨rfl, hrole⟩

/-- Every invocation of the vault keeps the role of the oracle. -/
theorem vault_wired (hctx : Outside .vault ctx) (hsane : Sane w.vault)
    (hrole : w.vault.roles .oracle = some (.contract .oracle)) {op : VaultOp}
    (hwires : (CourtStep.call ctx (.vault op)).KeepsWires) (h : op.exec ctx w = .ok w') :
    w'.vault.roles .oracle = some (.contract .oracle) := by
  by_cases hrewires : (Trading.TradeOp.vault op).rewires = true
  · cases op with
    | upgrade wasmHash =>
      obtain ⟨_, _, h⟩ := bind_ok.mp h
      obtain rfl := pure_ok.mp h
      exact hrole
    | setRole role module =>
      obtain rfl := Vault.admin_ok h
      refine role_set hrole ?_
      rintro rfl
      exact hwires
    | _ => cases hrewires
  · rw [Trading.vaultExec_roles hctx hsane (Bool.eq_false_iff.mpr hrewires) h]
    exact hrole

/-- A reported outcome changes no role, and no request's case. -/
theorem report_wired {r : ℕ} {outcome : Outcome} (hw : Wired w)
    (h : Oracle.reportCouncilOutcome ctx w r outcome = .ok w') :
    Wired w' ∧ w'.council.requestCase = w.council.requestCase := by
  obtain ⟨request, market, w1, called, reg, _, _, _, hdivide, _, rfl⟩ :=
    Oracle.reportCouncilOutcome_steps h
  have hvault : w1.vault.roles = w.vault.roles := by
    refine Oracle.divideBonds_keeps (I := fun s => s.vault.roles = w.vault.roles) ?_
      (fun _ _ _ hs => hs) hdivide rfl
    intro ctx s s' token user recipient r x d hpay hs
    obtain ⟨_, _, _, _, _, _, _, _, _, _, rfl⟩ := Vault.payBond_ok.mp hpay
    exact hs
  obtain ⟨pool, hcouncil⟩ := (Oracle.BondsOnly.divideBonds hdivide).council
  refine ⟨⟨hw.oracleRegistry, hw.oracleVault, hw.oracleCouncil, ?_, ?_⟩, ?_⟩
  · dsimp only
    rw [hvault]
    exact hw.vaultOracle
  · dsimp only
    rw [hcouncil]
    exact hw.councilOracle
  · dsimp only
    rw [hcouncil]

end Wires

/-- Markets that stay, with their collateral. -/
def CollateralKept (r r' : RegistryState) : Prop :=
  ∀ m market, r.market m = some market →
    ∃ market', r'.market m = some market' ∧ market'.collateral = market.collateral

/-- The same markets. -/
theorem CollateralKept.of_eq {r r' : RegistryState} (h : r'.market = r.market) :
    CollateralKept r r' := by
  intro m market hm
  rw [h]
  exact ⟨market, hm, rfl⟩

/-- Markets that move along their life keep their collateral. -/
theorem CollateralKept.follow {r r' : RegistryState} (hr : Ordered r) (h : MarketsFollow r r') :
    CollateralKept r r' := by
  intro m market hm
  exact h.kept hr (P := fun market' => market'.collateral = market.collateral)
    (fun _ _ _ hsame hk => hsame.trans hk) ⟨market, hm, rfl⟩

/-- One step after another. -/
theorem CollateralKept.trans {r r' r'' : RegistryState} (h : CollateralKept r r')
    (h' : CollateralKept r' r'') : CollateralKept r r'' := by
  intro m market hm
  obtain ⟨market', hm', hsame⟩ := h m market hm
  obtain ⟨market'', hm'', hsame'⟩ := h' m market' hm'
  exact ⟨market'', hm'', hsame'.trans hsame⟩

/-- A mark of the oracle keeps the collateral. -/
theorem CollateralKept.mark {ctx : Ctx} {r r' : RegistryState} {m : MarketId} {next : MarketStatus}
    (hr : Ordered r) (h : Registry.oracleMark next ctx r m = .ok r') : CollateralKept r r' := by
  obtain ⟨_, _, h⟩ := bind_ok.mp h
  exact .follow hr (Registry.transitionInternal_follow h)

/-- So does the final outcome. -/
theorem CollateralKept.final {ctx : Ctx} {r r' : RegistryState} {m : MarketId} {outcome : Outcome}
    (hr : Ordered r) (h : Registry.setFinalOutcome ctx r m outcome = .ok r') :
    CollateralKept r r' :=
  .follow hr (RegistryOp.exec_follow (show (RegistryOp.setFinalOutcome m outcome).exec ctx r =
    .ok r' from h))

/-- What the next step of an open request asks for. -/
structure Pending (w : World) (request : ResolutionRequest) : Prop where
  bond : 0 < request.bondAmount
  window : 0 < request.disputeWindow
  proposal : request.status = .proposed ∨ request.status = .disputed →
    request.hasProposal = true ∧ request.proposalEvidenceUri ≠ ""
  held : request.status = .proposed →
    ∃ market, w.registry.market request.marketId = some market ∧
      Held w.vault (request.id, request.proposer, false) market.collateral request.marketId
        request.bondAmount
  dispute : request.status = .disputed →
    request.disputeEvidenceUri ≠ "" ∧ request.proposedOutcome ≠ request.disputedOutcome
  caseless : request.status = .requested ∨ request.status = .proposed ∨
    request.status = .disputed → w.council.requestCase request.id = none

/-- A request that is not touched keeps it. -/
theorem Pending.keep {w w' : World} {moves : List BondMove} {request : ResolutionRequest}
    (h : Pending w request) (hregistry : CollateralKept w.registry w'.registry)
    (hrun : BondRun w moves w') (hmoves : paidFrom (request.id, request.proposer, false) moves = 0)
    (hcase : w.council.requestCase request.id = none →
      w'.council.requestCase request.id = none) : Pending w' request where
  bond := h.bond
  window := h.window
  proposal := h.proposal
  held := by
    intro hs
    obtain ⟨market, hm, hheld⟩ := h.held hs
    obtain ⟨market', hm', hsame⟩ := hregistry _ market hm
    have hkept := hrun.held hheld
    rw [hmoves, sub_zero] at hkept
    rw [← hsame] at hkept
    exact ⟨market', hm', hkept⟩
  dispute := h.dispute
  caseless := fun hs => hcase (h.caseless hs)

/-- The request a bond is moved for. -/
def moveRequest : BondMove → ℕ
  | .lock key _ => key.1
  | .pay key _ => key.1

/-- Bonds of other requests pay nothing. -/
theorem paidFrom_of_other {moves : List BondMove} {k r : ℕ}
    (h : ∀ move ∈ moves, moveRequest move = k)
    (hr : r ≠ k) (user : Address) (d : Bool) : paidFrom (r, user, d) moves = 0 := by
  induction moves with
  | nil => rfl
  | cons move moves ih =>
    have hrest := ih (fun m hm => h m (List.mem_cons_of_mem _ hm))
    have hfirst := h move List.mem_cons_self
    cases move with
    | lock key x => exact hrest
    | pay key x =>
      have hne : key ≠ (r, user, d) := by
        rintro rfl
        exact hr hfirst
      unfold paidFrom
      rw [if_neg hne, zero_add]
      exact hrest

/-- A division moves the bonds of its request. -/
theorem divideMoves_request (f : FeeManagerState) (request : ResolutionRequest) (r : ℕ)
    (outcome : Outcome) : ∀ move ∈ divideMoves f request r outcome, moveRequest move = r := by
  have hsettle : ∀ winner loser x d, ∀ move ∈ settleMoves f winner loser r x d,
      moveRequest move = r := by
    intro winner loser x d move hmove
    unfold settleMoves at hmove
    rcases List.mem_cons.mp hmove with rfl | hmove
    · rfl
    · split at hmove
      · rcases List.mem_cons.mp hmove with rfl | hmove
        · rfl
        · rcases List.mem_append.mp hmove with hmove | hmove
          · split at hmove
            · rw [List.mem_singleton.mp hmove]
              rfl
            · cases hmove
          · split at hmove
            · rw [List.mem_singleton.mp hmove]
              rfl
            · cases hmove
      · cases hmove
  unfold divideMoves
  split
  · exact hsettle _ _ _ _
  · split
    · exact hsettle _ _ _ _
    · intro move hmove
      rcases List.mem_cons.mp hmove with rfl | hmove
      · rfl
      · rw [List.mem_singleton.mp hmove]
        rfl

/-- The wiring stays, and every open request keeps what its next step asks for. -/
structure Ready (w : World) : Prop where
  wired : Wired w
  pending : ∀ r request, w.oracle.request r = some request → Pending w request
  fresh : ∀ r, w.oracle.nextRequestId ≤ r → w.council.requestCase r = none

section Steps

variable {ctx : Ctx} {w w' : World} {moves : List BondMove}

/-- Moves of bonds that pay nothing keep it while the requests stay. -/
theorem Ready.run (hw : Ready w) (hwired : Wired w')
    (hregistry : CollateralKept w.registry w'.registry)
    (hrun : BondRun w moves w') (hmoves : ∀ key, paidFrom key moves = 0)
    (hrequest : w'.oracle.request = w.oracle.request)
    (hnext : w'.oracle.nextRequestId = w.oracle.nextRequestId)
    (hcase : w'.council.requestCase = w.council.requestCase) : Ready w' where
  wired := hwired
  pending := by
    intro r request hr
    rw [hrequest] at hr
    refine (hw.pending r request hr).keep hregistry hrun (hmoves _) (fun hnone => ?_)
    rw [hcase]
    exact hnone
  fresh := by
    intro r hr
    rw [hnext] at hr
    rw [hcase]
    exact hw.fresh r hr

/-- Moves of the bonds of one request keep it when that request is rewritten. -/
theorem Ready.rewrite (hw : Ready w) (ho : RequestsOrdered w.oracle) {k : ℕ}
    {before after : ResolutionRequest} (hk : w.oracle.request k = some before)
    (horacle : w'.oracle = Oracle.writeRequest w.oracle after) (hid : after.id = before.id)
    (hwired : Wired w') (hregistry : CollateralKept w.registry w'.registry)
    (hrun : BondRun w moves w') (hmoves : ∀ move ∈ moves, moveRequest move = k)
    (hcase : ∀ r, r ≠ k → w'.council.requestCase r = w.council.requestCase r)
    (hafter : Pending w' after) : Ready w' where
  wired := hwired
  pending := by
    intro r request hr
    rw [horacle] at hr
    unfold Oracle.writeRequest at hr
    dsimp only at hr
    rw [Store.set_get, hid, (ho k before hk).1] at hr
    split at hr
    · obtain rfl := Option.some.inj hr
      exact hafter
    · next hne =>
      have hrid := (ho r request hr).1
      refine (hw.pending r request hr).keep hregistry hrun ?_ (fun hnone => ?_)
      · rw [hrid]
        exact paidFrom_of_other hmoves hne _ _
      · rw [hrid] at hnone ⊢
        rw [hcase r hne]
        exact hnone
  fresh := by
    intro r hr
    rw [horacle] at hr
    have hlt := (ho k before hk).2
    have hle : w.oracle.nextRequestId ≤ r := hr
    rw [hcase r (by omega)]
    exact hw.fresh r hle

/-- A request that is not open asks for nothing. -/
theorem Pending.closed {before after : ResolutionRequest} (h : Pending w before)
    (hbond : after.bondAmount = before.bondAmount)
    (hwindow : after.disputeWindow = before.disputeWindow)
    (hstatus : after.status = .escalated ∨ after.status = .finalized) : Pending w' after where
  bond := by rw [hbond]; exact h.bond
  window := by rw [hwindow]; exact h.window
  proposal := by rcases hstatus with hs | hs <;> simp [hs]
  held := by rcases hstatus with hs | hs <;> simp [hs]
  dispute := by rcases hstatus with hs | hs <;> simp [hs]
  caseless := by rcases hstatus with hs | hs <;> simp [hs]

/-- A reported outcome keeps the other requests ready. -/
theorem report_ready (hlock : Lockstep w) (hbonds : CourtBonds w) (hw : Ready w) {k : ℕ}
    {outcome : Outcome} (h : Oracle.reportCouncilOutcome ctx w k outcome = .ok w') : Ready w' := by
  obtain ⟨hwired, hcase⟩ := report_wired hw.wired h
  obtain ⟨hrun, _⟩ := report_bonds hbonds h
  obtain ⟨request, market, w1, called, reg, hk, hstatus, _, hdivide, hset, rfl⟩ :=
    Oracle.reportCouncilOutcome_steps h
  refine hw.rewrite hlock.requests hk rfl rfl hwired (.final hlock.markets hset) hrun ?_
    (fun r _ => by rw [hcase]) ((hw.pending k request hk).closed rfl rfl (Or.inr rfl))
  unfold reportMoves
  rw [hk]
  exact divideMoves_request _ _ _ _

/-- Every invocation of the oracle keeps open requests ready. -/
theorem oracle_ready (hlock : Lockstep w) (hbonds : CourtBonds w) (hw : Ready w) {op : OracleOp}
    (hwires : (CourtStep.call ctx (.oracle op)).KeepsWires) (h : op.exec ctx w = .ok w') :
    Ready w' := by
  obtain ⟨hrun, _⟩ := oracle_bonds hbonds h
  have hwired := hw.wired
  cases op with
  | setAdmin admin =>
    obtain ⟨o, ho, h⟩ := bind_ok.mp h
    obtain ⟨_, _, ho⟩ := bind_ok.mp ho
    obtain rfl := pure_ok.mp h
    obtain rfl := pure_ok.mp ho
    exact hw.run { hwired with } (.of_eq rfl) hrun (fun _ => rfl) rfl rfl rfl
  | upgrade wasmHash =>
    obtain ⟨_, _, h⟩ := bind_ok.mp h
    obtain rfl := pure_ok.mp h
    exact hw
  | setRole role module =>
    obtain ⟨o, ho, h⟩ := bind_ok.mp h
    obtain ⟨_, _, ho⟩ := bind_ok.mp ho
    obtain rfl := pure_ok.mp h
    obtain rfl := pure_ok.mp ho
    refine hw.run ⟨role_set hwired.oracleRegistry ?_, role_set hwired.oracleVault ?_,
      role_set hwired.oracleCouncil ?_, hwired.vaultOracle, hwired.councilOracle⟩ (.of_eq rfl) hrun
      (fun _ => rfl) rfl rfl rfl
    · rintro rfl
      exact hwires
    · rintro rfl
      exact hwires
    · rintro rfl
      exact hwires
  | pause paused =>
    obtain ⟨o, ho, h⟩ := bind_ok.mp h
    obtain ⟨_, _, ho⟩ := bind_ok.mp ho
    obtain rfl := pure_ok.mp h
    obtain rfl := pure_ok.mp ho
    exact hw.run { hwired with } (.of_eq rfl) hrun (fun _ => rfl) rfl rfl rfl
  | requestResolution m questionHash rulesUri expiry bondAmount disputeWindow =>
    obtain ⟨requestId, h⟩ := world_ok.mp h
    obtain ⟨r1, r2, called, hclose, hmark, rfl, hbond, hwindow, _, rfl⟩ :=
      Oracle.requestResolution_steps h
    have hclosed : Ordered r1 ∧ CollateralKept w.registry r1 := by
      rcases hclose with rfl | hclose
      · exact ⟨hlock.markets, .of_eq rfl⟩
      · have hfollow : MarketsFollow w.registry r1 :=
          RegistryOp.exec_follow (show (RegistryOp.closeTrading m).exec called w.registry =
            .ok r1 from hclose)
        exact ⟨hfollow.ordered hlock.markets, .follow hlock.markets hfollow⟩
    have hmarked : CollateralKept r1 r2 :=
      .follow hclosed.1 (RegistryOp.exec_follow
        (show (RegistryOp.markResolutionRequested m _).exec called r1 = .ok r2 from hmark))
    have hregistry := hclosed.2.trans hmarked
    refine ⟨{ hwired with }, ?_, ?_⟩
    · intro k stored hk
      unfold Oracle.writeRequest at hk
      dsimp only [Oracle.newRequest] at hk
      rw [Store.set_get] at hk
      split at hk
      · obtain rfl := Option.some.inj hk
        exact ⟨hbond, hwindow, by simp, by simp, by simp, fun _ => hw.fresh _ le_rfl⟩
      · exact (hw.pending k stored hk).keep hregistry hrun rfl id
    · intro k hk
      exact hw.fresh k (Nat.le_of_succ_le hk)
  | proposeOutcome proposer k outcome uri =>
    obtain ⟨request, market, w1, called, reg, hk, hstatus, huri, _, hmarket, hlocked, hmark, rfl⟩ :=
      Oracle.proposeOutcome_steps h
    obtain ⟨_, _, b, _, _, rfl⟩ := Vault.lockBond_ok hlocked
    have hbefore := hw.pending k request hk
    have hid := (hlock.requests k request hk).1
    have hregistry : CollateralKept w.registry reg := .mark hlock.markets hmark
    refine hw.rewrite hlock.requests hk rfl rfl { hwired with } hregistry hrun ?_ (fun _ _ => rfl)
      ⟨hbefore.bond, hbefore.window, fun _ => ⟨rfl, huri⟩, fun _ => ?_, by simp,
        fun _ => hbefore.caseless (Or.inl hstatus)⟩
    · unfold oracleMoves
      dsimp only
      rw [hk]
      intro move hmove
      rw [List.mem_singleton.mp hmove]
      rfl
    · obtain ⟨market', hm', hsame⟩ := hregistry _ market hmarket
      refine ⟨market', hm', ?_, ?_, ?_⟩
      · dsimp only
        rw [hid, Store.set_get_self, hsame]
      · dsimp only
        rw [hid, Store.set_get_self]
      · dsimp only
        rw [hid, Store.set_get_self]
  | disputeOutcome disputer k outcome uri =>
    obtain ⟨request, market, w1, called, reg, hk, hstatus, hdiffer, huri, _, _, hlocked, hmark,
      rfl⟩ := Oracle.disputeOutcome_steps h
    obtain ⟨_, _, b, _, _, rfl⟩ := Vault.lockBond_ok hlocked
    have hbefore := hw.pending k request hk
    refine hw.rewrite hlock.requests hk rfl rfl { hwired with } (.mark hlock.markets hmark) hrun ?_
      (fun _ _ => rfl) ⟨hbefore.bond, hbefore.window, fun _ => hbefore.proposal (Or.inl hstatus),
        by simp, fun _ => ⟨huri, hdiffer⟩, fun _ => hbefore.caseless (Or.inr (Or.inl hstatus))⟩
    unfold oracleMoves
    dsimp only
    rw [hk]
    intro move hmove
    rw [List.mem_singleton.mp hmove]
    rfl
  | finalizeUndisputed k =>
    obtain ⟨outcome, h⟩ := world_ok.mp h
    obtain ⟨request, market, called, reg, w1, hk, hstatus, _, _, _, hset, hpay, rfl⟩ :=
      Oracle.finalizeUndisputed_steps h
    obtain ⟨_, _, p, left, b, _, _, _, _, _, rfl⟩ := Vault.payBond_ok.mp hpay
    refine hw.rewrite hlock.requests hk rfl rfl { hwired with } (.final hlock.markets hset) hrun ?_
      (fun _ _ => rfl) ((hw.pending k request hk).closed rfl rfl (Or.inr rfl))
    unfold oracleMoves
    dsimp only
    rw [hk]
    intro move hmove
    rw [List.mem_singleton.mp hmove]
    rfl
  | escalateToCouncil k =>
    obtain ⟨request, market, called, caseId, c, reg, hk, hstatus, _, hopen, hmark, rfl⟩ :=
      Oracle.escalateToCouncil_steps h
    obtain ⟨_, _, _, _, _, _, _, rfl⟩ := Council.openCase_ok.mp hopen
    have hid := (hlock.requests k request hk).1
    refine hw.rewrite hlock.requests hk rfl rfl { hwired with } (.mark hlock.markets hmark) hrun ?_
      (fun r hr => ?_) ((hw.pending k request hk).closed rfl rfl (Or.inl rfl))
    · exact List.forall_mem_nil _
    · dsimp only
      rw [hid, Store.set_get_of_ne _ _ hr]
  | reportCouncilOutcome k outcome => exact report_ready hlock hbonds hw h

/-- What every run keeps that moves early markets only and rewires nothing. -/
structure Standing (w : World) : Prop where
  lockstep : Lockstep w
  bonds : CourtBonds w
  ready : Ready w
  fits : ∀ m d, bondTotal (w.vault.accounting m) d ≤ i128Max

/-- Every move of such a run keeps it. -/
theorem CourtMove.standing (hctx : Apart ctx) (hw : Standing w) {op : CourtOp}
    (hgov : (CourtStep.call ctx op).GovernsEarly w) (hwires : (CourtStep.call ctx op).KeepsWires)
    (h : CourtMove ctx w op w') : Standing w' := by
  obtain ⟨hlock, _⟩ := h.lockstep hctx hw.lockstep hgov hwires.staysWired
  obtain ⟨hrun, hbonds⟩ := h.bonds hctx hw.bonds
  have hwired := hw.ready.wired
  refine ⟨hlock, hbonds, ?_, hrun.fits hw.fits⟩
  cases h with
  | @council op _ hop horacle hregistry hvault hexec =>
    obtain ⟨hcase, hrole⟩ :=
      council_requestCase hctx.2.1 hwired.councilOracle hop hwires hexec
    have hwired' : Wired w' := by
      refine ⟨?_, ?_, ?_, ?_, hrole⟩
      · rw [horacle]
        exact hwired.oracleRegistry
      · rw [horacle]
        exact hwired.oracleVault
      · rw [horacle]
        exact hwired.oracleCouncil
      · rw [hvault]
        exact hwired.vaultOracle
    exact hw.ready.run hwired' (.of_eq (by rw [hregistry])) (run_nil hvault) (fun _ => rfl)
      (by rw [horacle]) (by rw [horacle]) hcase
  | @tally caseId c case outcome _ hfinal hcase hreport =>
    obtain ⟨decided, _, _, _, _, rfl⟩ := Council.finalizeCase_ok.mp hfinal
    have hlock1 : Lockstep { w with
        council := Council.writeCase w.council (Council.finalized decided) } :=
      hw.lockstep.same rfl rfl rfl rfl hw.lockstep.markets rfl
    have hbonds1 : CourtBonds { w with
        council := Council.writeCase w.council (Council.finalized decided) } :=
      ⟨hw.bonds.sane, hw.bonds.booked, hw.bonds.ordered, hw.bonds.secured⟩
    have hready1 : Ready { w with
        council := Council.writeCase w.council (Council.finalized decided) } :=
      hw.ready.run { hwired with } (.of_eq rfl) (run_nil rfl) (fun _ => rfl) rfl rfl rfl
    exact report_ready hlock1 hbonds1 hready1 hreport
  | oracle hexec => exact oracle_ready hw.lockstep hw.bonds hw.ready hwires hexec
  | registry hexec =>
    have hfollow := RegistryOp.exec_follow hexec
    exact hw.ready.run { hwired with } (.follow hw.lockstep.markets hfollow) (run_nil rfl)
      (fun _ => rfl) rfl rfl rfl
  | @vault op _ horacle hregistry hcouncil hexec =>
    have hforeign : ∀ {u}, requireRole ctx w.vault.roles .oracle ≠ .ok u := by
      intro u
      exact Trading.requireRole_outside hctx.2.1 hwired.vaultOracle
    have hmoves : ∀ key, paidFrom key (vaultMoves op) = 0 := by
      intro key
      cases op with
      | releaseBond token user r x d =>
        obtain ⟨⟨u, hrole⟩, _⟩ := Vault.payBond_ok.mp hexec
        exact absurd hrole hforeign
      | slashBond token user r x d recipient =>
        obtain ⟨⟨u, hrole⟩, _⟩ := Vault.payBond_ok.mp hexec
        exact absurd hrole hforeign
      | _ => rfl
    have hwired' : Wired w' := by
      refine ⟨?_, ?_, ?_,
        vault_wired hctx.2.2.2 hw.bonds.sane hwired.vaultOracle hwires hexec, ?_⟩
      · rw [horacle]
        exact hwired.oracleRegistry
      · rw [horacle]
        exact hwired.oracleVault
      · rw [horacle]
        exact hwired.oracleCouncil
      · rw [hcouncil]
        exact hwired.councilOracle
    exact hw.ready.run hwired' (.of_eq (by rw [hregistry])) hrun hmoves (by rw [horacle])
      (by rw [horacle]) (by rw [hcouncil])

end Steps

/-- A deployment stands. -/
theorem Standing.deployed (l : Launch) : Standing (deploy l) where
  lockstep := .deployed l
  bonds := (Recorded.deployed l).bonds
  ready := {
    wired := ⟨rfl, rfl, rfl, rfl, rfl⟩
    pending := by
      intro r request hr
      cases hr
    fresh := fun _ _ => rfl }
  fits := by
    intro m d
    cases d with
    | true => exact (by decide : (0 : ℤ) ≤ i128Max)
    | false => exact (by decide : (0 : ℤ) ≤ i128Max)

/-- Every run that moves early markets only and rewires nothing stands, at a time
of 64 bits once there is a request. -/
theorem standing_runs {s : World × ℕ} (h : court.Guarded
    (fun s step => step.GovernsEarly s.1 ∧ step.KeepsWires) s) :
    Standing s.1 ∧ ∀ r request, s.1.oracle.request r = some request → s.2 ≤ u64Max := by
  refine h.invariant (I := fun s => Standing s.1 ∧
    ∀ r request, s.1.oracle.request r = some request → s.2 ≤ u64Max) ?_ ?_
  · rintro s ⟨l, hl⟩
    rw [hl]
    refine ⟨.deployed l, fun r request hr => ?_⟩
    cases hr
  · intro s step s' hs hok hstep
    obtain ⟨hs, htime⟩ := hs
    rcases court_step hstep with ⟨ctx, op, rfl, hapart, _, hnow, htime', hmove⟩ | ⟨around, rfl, rfl⟩
    · refine ⟨hmove.standing hapart hs hok.1 hok.2, fun _ _ _ => ?_⟩
      rw [htime']
      exact hnow
    · refine ⟨⟨hs.lockstep.same rfl rfl rfl rfl hs.lockstep.markets rfl,
        hs.bonds.run (run_nil rfl) rfl rfl, ?_, hs.fits⟩, htime⟩
      exact hs.ready.run { hs.ready.wired with } (.of_eq rfl) (run_nil rfl) (fun _ => rfl) rfl rfl
        rfl

end DikeProtocol.Resolution
