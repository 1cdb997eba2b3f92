import DikeProtocol.Resolution.Oracle
import DikeProtocol.Vault.Bonds

/-!
# What the entry points of the oracle do

For each entry point, the calls a successful invocation made and the request
it stored. Later results cite these lemmas and do not unfold the functions.
-/

namespace DikeProtocol.Oracle

open Lib

variable {ctx : Ctx} {w w' : World}

/-- The oracle calls the registry of its role, which is not on the stack. -/
theorem callRegistry_ok {op : Ctx → RegistryState → Res RegistryState} :
    callRegistry ctx w op = .ok w' ↔
      w.oracle.roles .registry = some (.contract .registry) ∧
        Address.contract .registry ∉ .contract .oracle :: ctx.callers ∧
        ∃ r, op { ctx with callers := .contract .oracle :: ctx.callers } w.registry = .ok r ∧
          w' = { w with registry := r } := by
  unfold callRegistry
  simp only [bind_ok, readRole_ok, Ctx.call_ok, pure_ok]
  constructor
  · rintro ⟨_, hrole, _, ⟨rfl, hfree, rfl⟩, r, hr, rfl⟩
    exact ⟨hrole, hfree, r, hr, rfl⟩
  · rintro ⟨hrole, hfree, r, hr, rfl⟩
    exact ⟨_, hrole, _, ⟨rfl, hfree, rfl⟩, r, hr, rfl⟩

/-- The oracle calls the vault of its role, which is not on the stack. -/
theorem callVault_ok {op : Ctx → World → Res World} :
    callVault ctx w op = .ok w' ↔
      w.oracle.roles .vault = some (.contract .vault) ∧
        Address.contract .vault ∉ .contract .oracle :: ctx.callers ∧
        op { ctx with callers := .contract .oracle :: ctx.callers } w = .ok w' := by
  unfold callVault
  simp only [bind_ok, readRole_ok, Ctx.call_ok]
  constructor
  · rintro ⟨_, hrole, _, ⟨rfl, hfree, rfl⟩, h⟩
    exact ⟨hrole, hfree, h⟩
  · rintro ⟨hrole, hfree, h⟩
    exact ⟨_, hrole, _, ⟨rfl, hfree, rfl⟩, h⟩

/-- A market the oracle loads is stored at the registry of its role. -/
theorem loadMarket_ok {marketId : MarketId} {market : MarketData} :
    loadMarket ctx w marketId = .ok market ↔
      w.oracle.roles .registry = some (.contract .registry) ∧
        Address.contract .registry ∉ .contract .oracle :: ctx.callers ∧
        w.registry.market marketId = some market := by
  unfold loadMarket
  simp only [bind_ok, readRole_ok, Ctx.call_ok, Registry.getMarket_ok]
  constructor
  · rintro ⟨_, hrole, _, ⟨rfl, hfree, rfl⟩, h⟩
    exact ⟨hrole, hfree, h⟩
  · rintro ⟨hrole, hfree, h⟩
    exact ⟨_, hrole, _, ⟨rfl, hfree, rfl⟩, h⟩

/-- What every payment out of a bond and every booked reward of the council
keep, a division of the bonds keeps. Under the council nothing is booked. -/
theorem divideBonds_keeps {I : World → Prop}
    (hpay : ∀ {ctx : Ctx} {w w' : World} {token : Asset} {user recipient : Address} {r : ℕ} {x : ℤ}
      {d : Bool}, Vault.payBond ctx w token user r x d recipient = .ok w' → I w → I w')
    (hpool : Address.contract .council ∉ ctx.callers → ∀ {w : World} (pool : Store ℕ ℤ), I w →
      I { w with council := { w.council with caseRewardPool := pool } })
    {token : Asset} {request : ResolutionRequest} {r : ℕ} {outcome : Outcome}
    (h : divideBonds ctx w token request r outcome = .ok w') (hw : I w) : I w' := by
  have hcouncil : ∀ {w w' : World} {loser council : Address} {x : ℤ} {d : Bool},
      rewardCouncil ctx w token loser council r x d = .ok w' → I w → I w' := by
    intro w w' loser council x d h hw
    unfold rewardCouncil at h
    split at h
    · obtain ⟨w1, h1, h⟩ := bind_ok.mp h
      obtain ⟨called, hcall, h⟩ := bind_ok.mp h
      obtain ⟨caseId, _, h⟩ := bind_ok.mp h
      obtain ⟨c, hc, h⟩ := bind_ok.mp h
      obtain ⟨_, hfree, _⟩ := Ctx.call_ok.mp hcall
      unfold Council.recordCaseReward at hc
      obtain ⟨_, _, hc⟩ := bind_ok.mp hc
      obtain ⟨_, _, hc⟩ := bind_ok.mp hc
      obtain ⟨_, _, hc⟩ := bind_ok.mp hc
      rw [← pure_ok.mp h, ← pure_ok.mp hc]
      have hcallers : Address.contract .council ∉ ctx.callers :=
        fun hk => hfree (List.mem_cons_of_mem _ hk)
      exact hpool hcallers _ (hpay (callVault_ok.mp h1).2.2 hw)
    · rw [← ok_ok.mp h]
      exact hw
  have htreasury : ∀ {w w' : World} {loser treasury : Address} {x : ℤ} {d : Bool},
      rewardTreasury ctx w token loser treasury r x d = .ok w' → I w → I w' := by
    intro w w' loser treasury x d h hw
    unfold rewardTreasury at h
    split at h
    · exact hpay (callVault_ok.mp h).2.2 hw
    · rw [← ok_ok.mp h]
      exact hw
  have hsettle : ∀ {winner loser : Address} {x : ℤ} {d : Bool},
      settleBonds ctx w token winner loser r x d = .ok w' → I w' := by
    intro winner loser x d h
    unfold settleBonds at h
    obtain ⟨w1, h1, h⟩ := bind_ok.mp h
    obtain ⟨feeManager, _, h⟩ := bind_ok.mp h
    obtain ⟨treasury, _, h⟩ := bind_ok.mp h
    obtain ⟨council, _, h⟩ := bind_ok.mp h
    obtain ⟨_, _, h⟩ := bind_ok.mp h
    obtain ⟨⟨winnerAmt, councilAmt, treasuryAmt⟩, _, h⟩ := bind_ok.mp h
    obtain ⟨w2, h2, h⟩ := bind_ok.mp h
    obtain ⟨w3, h3, h⟩ := bind_ok.mp h
    have hreleased := hpay (callVault_ok.mp h1).2.2 hw
    have hslashed := hpay (callVault_ok.mp h2).2.2 hreleased
    exact htreasury h (hcouncil h3 hslashed)
  unfold divideBonds at h
  split at h
  · exact hsettle h
  · split at h
    · exact hsettle h
    · obtain ⟨w1, h1, h⟩ := bind_ok.mp h
      exact hpay (callVault_ok.mp h).2.2 (hpay (callVault_ok.mp h1).2.2 hw)

/-- Two worlds that differ in the vault, the balances and the reward pools of
the council only. -/
structure BondsOnly (w w' : World) : Prop where
  oracle : w'.oracle = w.oracle
  registry : w'.registry = w.registry
  feeManager : w'.feeManager = w.feeManager
  council : ∃ pool, w'.council = { w.council with caseRewardPool := pool }

namespace BondsOnly

variable {w'' : World}

/-- Doing nothing. -/
theorem refl (w : World) : BondsOnly w w := ⟨rfl, rfl, rfl, _, rfl⟩

/-- One step after another. -/
theorem trans (h : BondsOnly w w') (h' : BondsOnly w' w'') : BondsOnly w w'' := by
  refine ⟨h'.oracle.trans h.oracle, h'.registry.trans h.registry,
    h'.feeManager.trans h.feeManager, ?_⟩
  obtain ⟨pool, hpool⟩ := h.council
  obtain ⟨pool', hpool'⟩ := h'.council
  rw [hpool] at hpool'
  exact ⟨pool', hpool'⟩

/-- A payment out of a bond. -/
theorem payBond {token : Asset} {user recipient : Address} {r : ℕ} {x : ℤ} {d : Bool}
    (h : Vault.payBond ctx w token user r x d recipient = .ok w') : BondsOnly w w' := by
  obtain ⟨_, _, _, _, _, _, _, _, _, _, rfl⟩ := Vault.payBond_ok.mp h
  exact ⟨rfl, rfl, rfl, _, rfl⟩

/-- A division of the bonds under any outcome. -/
theorem divideBonds {token : Asset} {request : ResolutionRequest} {r : ℕ} {outcome : Outcome}
    (h : divideBonds ctx w token request r outcome = .ok w') : BondsOnly w w' :=
  divideBonds_keeps (I := fun s => BondsOnly w s) (fun hpay hs => hs.trans (payBond hpay))
    (fun _ _ pool hs => hs.trans ⟨rfl, rfl, rfl, pool, rfl⟩) h (refl w)

end BondsOnly

/-- Invocations that only change settings of the oracle. -/
def OracleOp.isSetting : OracleOp → Bool
  | setAdmin _ | upgrade _ | setRole _ _ | pause _ => true
  | _ => false

/-- They change its administrator, its roles and its pause, and nothing else. -/
theorem OracleOp.exec_setting {op : OracleOp} (hop : op.isSetting = true)
    (h : op.exec ctx w = .ok w') : ∃ admin roles paused, w' = { w with
      oracle := { w.oracle with
        admin := admin
        roles := roles
        paused := paused } } := by
  have hstore : ∀ {x : Res OracleState}, store w x = .ok w' →
      ∃ o, x = .ok o ∧ w' = { w with oracle := o } := by
    intro x hx
    obtain ⟨o, ho, hx⟩ := bind_ok.mp hx
    exact ⟨o, ho, (pure_ok.mp hx).symm⟩
  cases op with
  | setAdmin admin =>
    obtain ⟨o, ho, rfl⟩ := hstore h
    obtain ⟨_, _, ho⟩ := bind_ok.mp ho
    rw [← pure_ok.mp ho]
    exact ⟨admin, _, _, rfl⟩
  | upgrade wasmHash =>
    obtain ⟨_, _, h⟩ := bind_ok.mp h
    rw [← pure_ok.mp h]
    exact ⟨_, _, _, rfl⟩
  | setRole role module =>
    obtain ⟨o, ho, rfl⟩ := hstore h
    obtain ⟨_, _, ho⟩ := bind_ok.mp ho
    rw [← pure_ok.mp ho]
    exact ⟨_, _, _, rfl⟩
  | pause paused =>
    obtain ⟨o, ho, rfl⟩ := hstore h
    obtain ⟨_, _, ho⟩ := bind_ok.mp ho
    rw [← pure_ok.mp ho]
    exact ⟨_, _, paused, rfl⟩
  | _ => cases hop

/-- A request as it is first stored. -/
def newRequest (now requestId : ℕ) (marketId : MarketId) (questionHash : Hash) (rulesUri : String)
    (expiry : ℕ) (bondAmount : ℤ) (disputeWindow : ℕ) : ResolutionRequest where
  id := requestId
  marketId := marketId
  questionHash := questionHash
  rulesUri := rulesUri
  expiry := expiry
  requestedAt := now
  bondAmount := bondAmount
  disputeWindow := disputeWindow
  hasProposal := false
  proposer := .contract .oracle
  proposedOutcome := Outcome.unset
  proposalEvidenceUri := ""
  proposedAt := 0
  hasDispute := false
  disputer := .contract .oracle
  disputedOutcome := Outcome.unset
  disputeEvidenceUri := ""
  disputedAt := 0
  status := .requested
  hasFinalOutcome := false
  finalOutcome := Outcome.unset

/-- A request is new, and its market is marked as requested after trading was closed. -/
theorem requestResolution_steps {marketId : MarketId} {questionHash : Hash} {rulesUri : String}
    {expiry : ℕ} {bondAmount : ℤ} {disputeWindow requestId : ℕ}
    (h : requestResolution ctx w marketId questionHash rulesUri expiry bondAmount disputeWindow =
      .ok (requestId, w')) :
    ∃ r1 r2 called,
      (r1 = w.registry ∨ Registry.closeTrading called w.registry marketId = .ok r1) ∧
      Registry.markResolutionRequested called r1 marketId requestId = .ok r2 ∧
      requestId = w.oracle.nextRequestId ∧ 0 < bondAmount ∧ 0 < disputeWindow ∧
      w.oracle.marketRequest marketId = none ∧
      w' = { w with
        registry := r2
        oracle := { writeRequest w.oracle (newRequest ctx.now requestId marketId questionHash
            rulesUri expiry bondAmount disputeWindow) with
          marketRequest := w.oracle.marketRequest.set marketId (some requestId)
          nextRequestId := w.oracle.nextRequestId + 1 } } := by
  unfold requestResolution at h
  obtain ⟨_, _, h⟩ := bind_ok.mp h
  obtain ⟨_, hinput, h⟩ := bind_ok.mp h
  obtain ⟨market, _, h⟩ := bind_ok.mp h
  obtain ⟨_, _, h⟩ := bind_ok.mp h
  obtain ⟨_, _, h⟩ := bind_ok.mp h
  obtain ⟨_, _, h⟩ := bind_ok.mp h
  obtain ⟨w1, h1, h⟩ := bind_ok.mp h
  obtain ⟨_, hfresh, h⟩ := bind_ok.mp h
  obtain ⟨next, hnext, h⟩ := bind_ok.mp h
  obtain ⟨w2, h2, h⟩ := bind_ok.mp h
  obtain ⟨rfl, rfl⟩ := Prod.mk.inj (pure_ok.mp h)
  obtain ⟨_, _, r2, hr2, rfl⟩ := callRegistry_ok.mp h2
  obtain ⟨rfl, _⟩ := checkedAddU64_ok.mp hnext
  obtain ⟨_, hbond, hwindow⟩ : _ ∧ 0 < bondAmount ∧ 0 < disputeWindow := by
    have hinput' := refuse_ok.mp hinput
    rw [not_or, not_or, not_le] at hinput'
    exact ⟨hinput'.1, hinput'.2.1, Nat.pos_of_ne_zero hinput'.2.2⟩
  have hfresh' := not_not.mp (refuse_ok.mp hfresh)
  split at h1
  · obtain ⟨_, _, r1, hr1, rfl⟩ := callRegistry_ok.mp h1
    exact ⟨r1, r2, _, Or.inr hr1, hr2, rfl, hbond, hwindow, hfresh', rfl⟩
  · obtain ⟨_, _, h1⟩ := bind_ok.mp h1
    obtain rfl := pure_ok.mp h1
    exact ⟨w.registry, r2, _, Or.inl rfl, hr2, rfl, hbond, hwindow, hfresh', rfl⟩

/-- A proposal locks the proposer's bond and is stored in the open request. -/
theorem proposeOutcome_steps {proposer : Address} {requestId : ℕ} {outcome : Outcome}
    {uri : String} (h : proposeOutcome ctx w proposer requestId outcome uri = .ok w') :
    ∃ (request : ResolutionRequest) (market : MarketData) (w1 : World) (called : Ctx)
      (r : RegistryState),
      w.oracle.request requestId = some request ∧ request.status = .requested ∧
      uri ≠ "" ∧ ctx.now + request.disputeWindow ≤ u64Max ∧
      w.registry.market request.marketId = some market ∧
      Vault.lockBond called w market.collateral proposer requestId request.marketId
        request.bondAmount false = .ok w1 ∧
      Registry.markProposed called w1.registry request.marketId = .ok r ∧
      w' = { w1 with
        registry := r
        oracle := writeRequest w1.oracle { request with
          hasProposal := true
          proposer := proposer
          proposedOutcome := outcome
          proposalEvidenceUri := uri
          proposedAt := ctx.now
          status := .proposed } } := by
  unfold proposeOutcome at h
  obtain ⟨_, _, h⟩ := bind_ok.mp h
  obtain ⟨_, huri, h⟩ := bind_ok.mp h
  obtain ⟨request, hrequest, h⟩ := bind_ok.mp h
  obtain ⟨_, hstatus, h⟩ := bind_ok.mp h
  obtain ⟨_, hwindow, h⟩ := bind_ok.mp h
  obtain ⟨market, hmarket, h⟩ := bind_ok.mp h
  obtain ⟨w1, h1, h⟩ := bind_ok.mp h
  obtain ⟨_, _, r, hr, rfl⟩ := callRegistry_ok.mp h
  exact ⟨request, market, w1, _, r, orFault_ok.mp hrequest, not_not.mp (refuse_ok.mp hstatus),
    refuse_ok.mp huri, (checkedAddU64_ok.mp hwindow).2, (loadMarket_ok.mp hmarket).2.2,
    (callVault_ok.mp h1).2.2, hr, rfl⟩

/-- A dispute locks the disputer's bond and is stored in the proposed request. -/
theorem disputeOutcome_steps {disputer : Address} {requestId : ℕ} {outcome : Outcome}
    {uri : String} (h : disputeOutcome ctx w disputer requestId outcome uri = .ok w') :
    ∃ (request : ResolutionRequest) (market : MarketData) (w1 : World) (called : Ctx)
      (r : RegistryState),
      w.oracle.request requestId = some request ∧ request.status = .proposed ∧
      request.proposedOutcome ≠ outcome ∧ uri ≠ "" ∧
      ctx.now ≤ request.proposedAt + request.disputeWindow ∧
      w.registry.market request.marketId = some market ∧
      Vault.lockBond called w market.collateral disputer requestId request.marketId
        request.bondAmount true = .ok w1 ∧
      Registry.markDisputed called w1.registry request.marketId = .ok r ∧
      w' = { w1 with
        registry := r
        oracle := writeRequest w1.oracle { request with
          hasDispute := true
          disputer := disputer
          disputedOutcome := outcome
          disputeEvidenceUri := uri
          disputedAt := ctx.now
          status := .disputed } } := by
  unfold disputeOutcome at h
  obtain ⟨_, _, h⟩ := bind_ok.mp h
  obtain ⟨_, huri, h⟩ := bind_ok.mp h
  obtain ⟨request, hrequest, h⟩ := bind_ok.mp h
  obtain ⟨_, hstatus, h⟩ := bind_ok.mp h
  obtain ⟨_, _, h⟩ := bind_ok.mp h
  obtain ⟨deadline, hdeadline, h⟩ := bind_ok.mp h
  obtain ⟨_, hopen, h⟩ := bind_ok.mp h
  obtain ⟨_, hdiffer, h⟩ := bind_ok.mp h
  obtain ⟨market, hmarket, h⟩ := bind_ok.mp h
  obtain ⟨w1, h1, h⟩ := bind_ok.mp h
  obtain ⟨_, _, r, hr, rfl⟩ := callRegistry_ok.mp h
  have hopen' : ctx.now ≤ request.proposedAt + request.disputeWindow := by
    rw [← (checkedAddU64_ok.mp hdeadline).1]
    exact not_lt.mp (refuse_ok.mp hopen)
  exact ⟨request, market, w1, _, r, orFault_ok.mp hrequest, not_not.mp (refuse_ok.mp hstatus),
    refuse_ok.mp hdiffer, refuse_ok.mp huri, hopen', (loadMarket_ok.mp hmarket).2.2,
    (callVault_ok.mp h1).2.2, hr, rfl⟩

/-- An undisputed proposal becomes the final outcome and its bond goes back. -/
theorem finalizeUndisputed_steps {requestId : ℕ} {outcome : Outcome}
    (h : finalizeUndisputed ctx w requestId = .ok (outcome, w')) :
    ∃ (request : ResolutionRequest) (market : MarketData) (called : Ctx) (r : RegistryState)
      (w1 : World),
      w.oracle.request requestId = some request ∧ request.status = .proposed ∧
      outcome = request.proposedOutcome ∧
      request.proposedAt + request.disputeWindow < ctx.now ∧
      w.registry.market request.marketId = some market ∧
      Registry.setFinalOutcome called w.registry request.marketId outcome = .ok r ∧
      Vault.payBond called { w with registry := r } market.collateral request.proposer requestId
        request.bondAmount false request.proposer = .ok w1 ∧
      w' = { w1 with oracle := writeRequest w1.oracle (finalized request outcome) } := by
  unfold finalizeUndisputed at h
  obtain ⟨request, hrequest, h⟩ := bind_ok.mp h
  obtain ⟨_, hstatus, h⟩ := bind_ok.mp h
  obtain ⟨_, _, h⟩ := bind_ok.mp h
  obtain ⟨deadline, hdeadline, h⟩ := bind_ok.mp h
  obtain ⟨_, hclosed, h⟩ := bind_ok.mp h
  obtain ⟨market, hmarket, h⟩ := bind_ok.mp h
  obtain ⟨w1, h1, h⟩ := bind_ok.mp h
  obtain ⟨w2, h2, h⟩ := bind_ok.mp h
  obtain ⟨rfl, rfl⟩ := Prod.mk.inj (pure_ok.mp h)
  obtain ⟨_, _, r, hr, rfl⟩ := callRegistry_ok.mp h1
  have hclosed' : request.proposedAt + request.disputeWindow < ctx.now := by
    rw [← (checkedAddU64_ok.mp hdeadline).1]
    exact not_le.mp (refuse_ok.mp hclosed)
  exact ⟨request, market, _, r, w2, orFault_ok.mp hrequest, not_not.mp (refuse_ok.mp hstatus), rfl,
    hclosed', (loadMarket_ok.mp hmarket).2.2, hr, (callVault_ok.mp h2).2.2, rfl⟩

/-- What a case is opened with. -/
def caseConfig (request : ResolutionRequest) (market : MarketData) : OpenCaseConfig where
  proposalBond := request.bondAmount
  disputeBond := request.bondAmount
  commitDuration := request.disputeWindow
  revealDuration := request.disputeWindow
  token := market.collateral

/-- An escalation opens a case and marks the request. -/
theorem escalateToCouncil_steps {requestId : ℕ} (h : escalateToCouncil ctx w requestId = .ok w') :
    ∃ (request : ResolutionRequest) (market : MarketData) (called : Ctx) (caseId : ℕ)
      (c : CouncilState) (r : RegistryState),
      w.oracle.request requestId = some request ∧ request.status = .disputed ∧
      w.registry.market request.marketId = some market ∧
      Council.openCase { ctx with callers := .contract .oracle :: ctx.callers } w.council request.id
        request.marketId request.proposer request.proposedOutcome request.proposalEvidenceUri
        request.disputer request.disputedOutcome request.disputeEvidenceUri
        (caseConfig request market) = .ok (caseId, c) ∧
      Registry.markCouncilVoting called w.registry request.marketId = .ok r ∧
      w' = { w with
        council := c
        registry := r
        oracle := writeRequest w.oracle { request with status := .escalated } } := by
  unfold escalateToCouncil at h
  obtain ⟨request, hrequest, h⟩ := bind_ok.mp h
  obtain ⟨_, hstatus, h⟩ := bind_ok.mp h
  obtain ⟨market, hmarket, h⟩ := bind_ok.mp h
  obtain ⟨council, _, h⟩ := bind_ok.mp h
  obtain ⟨called, hcall, h⟩ := bind_ok.mp h
  obtain ⟨⟨caseId, c⟩, hopen, h⟩ := bind_ok.mp h
  obtain ⟨w1, h1, h⟩ := bind_ok.mp h
  obtain rfl := pure_ok.mp h
  obtain ⟨_, _, r, hr, rfl⟩ := callRegistry_ok.mp h1
  obtain ⟨_, _, rfl⟩ := Ctx.call_ok.mp hcall
  exact ⟨request, market, _, caseId, c, r, orFault_ok.mp hrequest,
    not_not.mp (refuse_ok.mp hstatus), (loadMarket_ok.mp hmarket).2.2, hopen, hr, rfl⟩

/-- A reported outcome divides the bonds of an escalated request, resolves its
market and finalizes it. -/
theorem reportCouncilOutcome_steps {requestId : ℕ} {outcome : Outcome}
    (h : reportCouncilOutcome ctx w requestId outcome = .ok w') :
    ∃ (request : ResolutionRequest) (market : MarketData) (w1 : World) (called : Ctx)
      (r : RegistryState),
      w.oracle.request requestId = some request ∧ request.status = .escalated ∧
      w.registry.market request.marketId = some market ∧
      divideBonds ctx w market.collateral request requestId outcome = .ok w1 ∧
      Registry.setFinalOutcome called w.registry request.marketId outcome = .ok r ∧
      w' = { w1 with
        registry := r
        oracle := writeRequest w.oracle (finalized request outcome) } := by
  unfold reportCouncilOutcome at h
  obtain ⟨_, _, h⟩ := bind_ok.mp h
  obtain ⟨request, hrequest, h⟩ := bind_ok.mp h
  obtain ⟨_, hstatus, h⟩ := bind_ok.mp h
  obtain ⟨_, _, h⟩ := bind_ok.mp h
  obtain ⟨market, hmarket, h⟩ := bind_ok.mp h
  obtain ⟨w1, h1, h⟩ := bind_ok.mp h
  obtain ⟨w2, h2, h⟩ := bind_ok.mp h
  obtain rfl := pure_ok.mp h
  obtain ⟨_, _, r, hr, rfl⟩ := callRegistry_ok.mp h2
  have hbonds := BondsOnly.divideBonds h1
  rw [hbonds.registry] at hr
  dsimp only
  rw [hbonds.oracle]
  exact ⟨request, market, w1, _, r, orFault_ok.mp hrequest, not_not.mp (refuse_ok.mp hstatus),
    (loadMarket_ok.mp hmarket).2.2, h1, hr, rfl⟩

end DikeProtocol.Oracle

namespace DikeProtocol.Council

open Lib

variable {ctx : Ctx} {w w' : World}

/-- Invocations that only change settings of the council. -/
def CouncilOp.isSetting : CouncilOp → Bool
  | setAdmin _ | upgrade _ | setRole _ _ | setMember _ _ | pause _ => true
  | _ => false

/-- They change its administrator, its roles, its members and its pause, and nothing else. -/
theorem CouncilOp.exec_setting {op : CouncilOp} (hop : op.isSetting = true)
    (h : op.exec ctx w = .ok w') : ∃ admin roles member paused, w' = { w with
      council := { w.council with
        admin := admin
        roles := roles
        member := member
        paused := paused } } := by
  have hstore : ∀ {x : Res CouncilState}, store w x = .ok w' →
      ∃ c, x = .ok c ∧ w' = { w with council := c } := by
    intro x hx
    obtain ⟨c, hc, hx⟩ := bind_ok.mp hx
    exact ⟨c, hc, (pure_ok.mp hx).symm⟩
  cases op with
  | setAdmin admin =>
    obtain ⟨c, hc, rfl⟩ := hstore h
    obtain ⟨_, _, hc⟩ := bind_ok.mp hc
    rw [← pure_ok.mp hc]
    exact ⟨admin, _, _, _, rfl⟩
  | upgrade wasmHash =>
    obtain ⟨_, _, h⟩ := bind_ok.mp h
    rw [← pure_ok.mp h]
    exact ⟨_, _, _, _, rfl⟩
  | setRole role module =>
    obtain ⟨c, hc, rfl⟩ := hstore h
    obtain ⟨_, _, hc⟩ := bind_ok.mp hc
    rw [← pure_ok.mp hc]
    exact ⟨_, _, _, _, rfl⟩
  | setMember member approved =>
    obtain ⟨c, hc, rfl⟩ := hstore h
    obtain ⟨_, _, hc⟩ := bind_ok.mp hc
    rw [← pure_ok.mp hc]
    exact ⟨_, _, _, _, rfl⟩
  | pause paused =>
    obtain ⟨c, hc, rfl⟩ := hstore h
    obtain ⟨_, _, hc⟩ := bind_ok.mp hc
    rw [← pure_ok.mp hc]
    exact ⟨_, _, _, paused, rfl⟩
  | _ => cases hop

end DikeProtocol.Council
