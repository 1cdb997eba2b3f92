import DikeProtocol.Resolution.Court
import DikeProtocol.Trading.System

/-!
# Requests and markets in lockstep

The oracle and the registry keep a status each. A simulation relation ties the
stored requests to the stored markets, and every invocation of the four
contracts keeps it, as long as the registry takes the oracle's marks from the
oracle only.
-/

namespace DikeProtocol.Resolution

open Lib
open Council (CouncilOp)
open Oracle (OracleOp)
open Registry (RegistryOp MarketsFollow Ordered)
open Vault (Outside)

/-- A transition is one of the table, and changes the status only. -/
theorem transitionInternal_ok {r r' : RegistryState} {m : MarketId} {next : MarketStatus} :
    Registry.transitionInternal r m next = .ok r' ↔ ∃ market, r.market m = some market ∧
      Registry.validTransition market.status next = true ∧
      r' = Registry.writeMarket r { market with status := next } := by
  unfold Registry.transitionInternal Registry.readMarket
  simp only [bind_ok, orFault_ok, refuse_ok, pure_ok, exists_const, Bool.not_eq_false,
    eq_comm (b := r')]

/-- A mark of the oracle is a transition. -/
theorem oracleMark_ok {ctx : Ctx} {r r' : RegistryState} {m : MarketId} {next : MarketStatus}
    (h : Registry.oracleMark next ctx r m = .ok r') : ∃ market, r.market m = some market ∧
      Registry.validTransition market.status next = true ∧
      r' = Registry.writeMarket r { market with status := next } := by
  obtain ⟨_, _, h⟩ := bind_ok.mp h
  exact transitionInternal_ok.mp h

/-- The table leads from an early status to another. -/
theorem validTransition_early {status next : MarketStatus}
    (hstatus : status = .created ∨ status = .live ∨ status = .paused)
    (h : Registry.validTransition status next = true) :
    next = .created ∨ next = .live ∨ next = .paused ∨ next = .tradingClosed ∨
      next = .cancelled := by
  rcases hstatus with rfl | rfl | rfl <;> cases next <;> first | (simp; done) | cases h

/-- Trading is opened and closed from an early status only. -/
theorem validTransition_trading {status next : MarketStatus}
    (hnext : next = .live ∨ next = .tradingClosed)
    (h : Registry.validTransition status next = true) :
    status = .created ∨ status = .live ∨ status = .paused := by
  rcases hnext with rfl | rfl <;> cases status <;> first | (simp; done) | cases h

/-- The status of a market beside the status of its request. -/
inductive Corresponds : OracleStatus → MarketStatus → Prop where
  | requested : Corresponds .requested .resolutionRequested
  | proposed : Corresponds .proposed .proposed
  | disputed : Corresponds .disputed .disputed
  | escalated : Corresponds .escalated .councilVoting
  | finalized : Corresponds .finalized .resolved

/-- The proposal of a request was disputed, or became final. -/
def Answered (request : ResolutionRequest) : Prop :=
  request.status = .disputed ∨ request.status = .escalated ∨ request.status = .finalized

/-- A request and the market that names it, with the same outcome once final. -/
structure Paired (request : ResolutionRequest) (market : MarketData) : Prop where
  asked : market.hasRequest = true
  named : market.requestId = request.id
  status : Corresponds request.status market.status
  outcome : request.status = .finalized → request.hasFinalOutcome = true ∧
    market.hasFinalOutcome = true ∧ market.finalOutcome = request.finalOutcome
  undisputed : ¬Answered request → request.hasDispute = false

/-- A market whose resolution nobody has requested. -/
structure Unasked (market : MarketData) : Prop where
  free : market.hasRequest = false
  early : market.status = .created ∨ market.status = .live ∨ market.status = .paused ∨
    market.status = .tradingClosed ∨ market.status = .cancelled

/-- The simulation between the requests of the oracle and the markets of the registry. -/
structure Lockstep (w : World) : Prop where
  markets : Ordered w.registry
  requests : RequestsOrdered w.oracle
  wired : w.registry.roles .oracle = some (.contract .oracle)
  recorded : ∀ r request, w.oracle.request r = some request →
    w.oracle.marketRequest request.marketId = some r
  paired : ∀ r request, w.oracle.request r = some request →
    ∃ market, w.registry.market request.marketId = some market ∧ Paired request market
  asked : ∀ m market, w.registry.market m = some market →
    Unasked market ∨ ∃ request, w.oracle.request market.requestId = some request ∧
      request.marketId = m

namespace Lockstep

variable {w w' : World}

/-- A market in one of these statuses has no request. -/
theorem free (h : Lockstep w) {m : MarketId} {market : MarketData}
    (hm : w.registry.market m = some market)
    (hstatus : ∀ status, Corresponds status market.status → False) : Unasked market := by
  rcases h.asked m market hm with hunasked | ⟨request, hr, rfl⟩
  · exact hunasked
  · obtain ⟨market', hmarket', hpaired⟩ := h.paired _ request hr
    rw [hm] at hmarket'
    obtain rfl := Option.some.inj hmarket'
    exact absurd hpaired.status (hstatus _)

/-- Two requests of one market are the same. -/
theorem single (h : Lockstep w) {r r' : ℕ} {request request' : ResolutionRequest}
    (hr : w.oracle.request r = some request) (hr' : w.oracle.request r' = some request')
    (hm : request.marketId = request'.marketId) : r = r' := by
  have hrecorded := h.recorded r request hr
  rw [hm, h.recorded r' request' hr'] at hrecorded
  exact (Option.some.inj hrecorded).symm

/-- Only requests, markets and the role of the oracle matter. -/
theorem same (h : Lockstep w) (hrequest : w'.oracle.request = w.oracle.request)
    (hrecord : w'.oracle.marketRequest = w.oracle.marketRequest)
    (hnext : w'.oracle.nextRequestId = w.oracle.nextRequestId)
    (hmarket : w'.registry.market = w.registry.market) (hordered : Ordered w'.registry)
    (hroles : w'.registry.roles .oracle = w.registry.roles .oracle) : Lockstep w' where
  markets := hordered
  requests := h.requests.same hrequest hnext
  wired := by rw [hroles]; exact h.wired
  recorded := by rw [hrequest, hrecord]; exact h.recorded
  paired := by rw [hrequest, hmarket]; exact h.paired
  asked := by rw [hrequest, hmarket]; exact h.asked

/-- A market without a request may be stored anew in an early status. -/
theorem store (h : Lockstep w) {m : MarketId} (market' : MarketData)
    (hfree : ∀ market, w.registry.market m = some market → market.hasRequest = false)
    (horacle : w'.oracle = w.oracle)
    (hmarket : w'.registry.market = w.registry.market.set m (some market'))
    (hunasked : Unasked market') (hordered : Ordered w'.registry)
    (hroles : w'.registry.roles = w.registry.roles) : Lockstep w' where
  markets := hordered
  requests := by rw [horacle]; exact h.requests
  wired := by rw [hroles]; exact h.wired
  recorded := by rw [horacle]; exact h.recorded
  paired := by
    intro r request hr
    rw [horacle] at hr
    obtain ⟨market, hm, hpaired⟩ := h.paired r request hr
    have hne : request.marketId ≠ m := by
      rintro rfl
      have hasked := hfree market hm
      rw [hpaired.asked] at hasked
      cases hasked
    rw [hmarket, Store.set_get_of_ne _ _ hne]
    exact ⟨market, hm, hpaired⟩
  asked := by
    intro k market hk
    rw [hmarket, Store.set_get] at hk
    split at hk
    · obtain rfl := Option.some.inj hk
      exact Or.inl hunasked
    · rw [horacle]
      exact h.asked k market hk

/-- A request and its market move together. -/
theorem move (h : Lockstep w) {r : ℕ} {before after : ResolutionRequest}
    (market' : MarketData) (hr : w.oracle.request r = some before)
    (hid : after.id = before.id) (hm : after.marketId = before.marketId)
    (horacle : w'.oracle = Oracle.writeRequest w.oracle after)
    (hmarket : w'.registry.market = w.registry.market.set before.marketId (some market'))
    (hpaired : Paired after market') (hordered : Ordered w'.registry)
    (hroles : w'.registry.roles = w.registry.roles) : Lockstep w' := by
  have hbefore := (h.requests r before hr).1
  have hstore : w'.oracle.request = w.oracle.request.set r (some after) := by
    rw [horacle, ← hbefore, ← hid]
    rfl
  refine ⟨hordered, ?_, ?_, ?_, ?_, ?_⟩
  · rw [horacle]
    exact h.requests.write (hid.trans hbefore) hr
  · rw [hroles]
    exact h.wired
  · intro k request hk
    rw [hstore, Store.set_get] at hk
    rw [horacle]
    split at hk
    · next heq =>
      obtain rfl := Option.some.inj hk
      rw [heq, hm]
      exact h.recorded r before hr
    · exact h.recorded k request hk
  · intro k request hk
    rw [hstore, Store.set_get] at hk
    rw [hmarket]
    split at hk
    · obtain rfl := Option.some.inj hk
      rw [hm, Store.set_get_self]
      exact ⟨market', rfl, hpaired⟩
    · next hne =>
      have hother : request.marketId ≠ before.marketId := fun hk' => hne (h.single hk hr hk')
      rw [Store.set_get_of_ne _ _ hother]
      exact h.paired k request hk
  · intro k market hk
    rw [hmarket, Store.set_get] at hk
    rw [hstore]
    split at hk
    · next heq =>
      obtain rfl := Option.some.inj hk
      refine Or.inr ⟨after, ?_, hm.trans heq.symm⟩
      rw [hpaired.named, hid, hbefore, Store.set_get_self]
    · next hne =>
      refine (h.asked k market hk).imp_right ?_
      rintro ⟨request, hrequest, hid'⟩
      refine ⟨request, ?_, hid'⟩
      rw [Store.set_get_of_ne]
      · exact hrequest
      · intro heq
        rw [heq, hr] at hrequest
        obtain rfl := Option.some.inj hrequest
        exact hne hid'.symm

/-- A new request and its market start together. -/
theorem start (h : Lockstep w) {m : MarketId} {request : ResolutionRequest} {market' : MarketData}
    (hfree : w.oracle.marketRequest m = none) (hid : request.id = w.oracle.nextRequestId)
    (hm : request.marketId = m)
    (horacle : w'.oracle = { Oracle.writeRequest w.oracle request with
      marketRequest := w.oracle.marketRequest.set m (some w.oracle.nextRequestId)
      nextRequestId := w.oracle.nextRequestId + 1 })
    (hmarket : w'.registry.market = w.registry.market.set m (some market'))
    (hpaired : Paired request market') (hordered : Ordered w'.registry)
    (hroles : w'.registry.roles = w.registry.roles) : Lockstep w' := by
  have hstore : w'.oracle.request =
      w.oracle.request.set w.oracle.nextRequestId (some request) := by
    rw [horacle, ← hid]
    rfl
  have hrecord : w'.oracle.marketRequest =
      w.oracle.marketRequest.set m (some w.oracle.nextRequestId) := by
    rw [horacle]
  have hnext : w'.oracle.nextRequestId = w.oracle.nextRequestId + 1 := by
    rw [horacle]
  have hother : ∀ k stored, w.oracle.request k = some stored → stored.marketId ≠ m := by
    rintro k stored hk rfl
    rw [h.recorded k stored hk] at hfree
    cases hfree
  refine ⟨hordered, h.requests.start hid hstore hnext, ?_, ?_, ?_, ?_⟩
  · rw [hroles]
    exact h.wired
  · intro k stored hk
    rw [hstore, Store.set_get] at hk
    rw [hrecord]
    split at hk
    · next heq =>
      obtain rfl := Option.some.inj hk
      rw [heq, hm, Store.set_get_self]
    · rw [Store.set_get_of_ne _ _ (hother k stored hk)]
      exact h.recorded k stored hk
  · intro k stored hk
    rw [hstore, Store.set_get] at hk
    rw [hmarket]
    split at hk
    · obtain rfl := Option.some.inj hk
      rw [hm, Store.set_get_self]
      exact ⟨market', rfl, hpaired⟩
    · rw [Store.set_get_of_ne _ _ (hother k stored hk)]
      exact h.paired k stored hk
  · intro k market hk
    rw [hmarket, Store.set_get] at hk
    rw [hstore]
    split at hk
    · next heq =>
      obtain rfl := Option.some.inj hk
      refine Or.inr ⟨request, ?_, hm.trans heq.symm⟩
      rw [hpaired.named, hid, Store.set_get_self]
    · refine (h.asked k market hk).imp_right ?_
      rintro ⟨stored, hstored, hid'⟩
      refine ⟨stored, ?_, hid'⟩
      rw [Store.set_get_of_ne _ _ (Nat.ne_of_lt (h.requests _ stored hstored).2)]
      exact hstored

/-- A market may change in what the oracle does not see. -/
theorem touch (h : Lockstep w) {m : MarketId} {market : MarketData} (market' : MarketData)
    (hm : w.registry.market m = some market) (hrequest : market'.hasRequest = market.hasRequest)
    (hnamed : market'.requestId = market.requestId) (hstatus : market'.status = market.status)
    (hhas : market'.hasFinalOutcome = market.hasFinalOutcome)
    (hfinal : market'.finalOutcome = market.finalOutcome) (horacle : w'.oracle = w.oracle)
    (hmarket : w'.registry.market = w.registry.market.set m (some market'))
    (hordered : Ordered w'.registry) (hroles : w'.registry.roles = w.registry.roles) :
    Lockstep w' where
  markets := hordered
  requests := by rw [horacle]; exact h.requests
  wired := by rw [hroles]; exact h.wired
  recorded := by rw [horacle]; exact h.recorded
  paired := by
    intro r request hr
    rw [horacle] at hr
    obtain ⟨stored, hstored, hpaired⟩ := h.paired r request hr
    rw [hmarket, Store.set_get]
    split
    · next heq =>
      rw [heq, hm] at hstored
      obtain rfl := Option.some.inj hstored
      refine ⟨market', rfl, hrequest.trans hpaired.asked, hnamed.trans hpaired.named, ?_, ?_,
        hpaired.undisputed⟩
      · rw [hstatus]
        exact hpaired.status
      · rw [hhas, hfinal]
        exact hpaired.outcome
    · exact ⟨stored, hstored, hpaired⟩
  asked := by
    intro k stored hk
    rw [hmarket, Store.set_get] at hk
    rw [horacle]
    split at hk
    · next heq =>
      obtain rfl := Option.some.inj hk
      rw [heq, hnamed]
      refine (h.asked m market hm).imp_left (fun hunasked => ⟨hrequest.trans hunasked.free, ?_⟩)
      rw [hstatus]
      exact hunasked.early
    · exact h.asked k stored hk

/-- A deployment has neither. -/
theorem deployed (l : Launch) : Lockstep (deploy l) where
  markets := by
    constructor
    · intro m market hm
      cases hm
    · intro m market hm
      cases hm
  requests := by
    intro r request hr
    cases hr
  wired := rfl
  recorded := by
    intro r request hr
    cases hr
  paired := by
    intro r request hr
    cases hr
  asked := by
    intro m market hm
    cases hm

end Lockstep

/-- Governance moves markets that are created, live or paused only. -/
def GovernsEarly (r : RegistryState) : RegistryOp → Prop
  | .setStatus m _ | .cancelMarket m => ∀ market, r.market m = some market →
    market.status = .created ∨ market.status = .live ∨ market.status = .paused
  | _ => True

/-- The registry keeps taking its marks from the oracle. -/
def KeepsOracle : RegistryOp → Prop
  | .setRole .oracle module => module = .contract .oracle
  | _ => True

section Steps

variable {ctx : Ctx} {w w' : World}

/-- An early market that moves along the table by the table's early part. -/
theorem Lockstep.transition (h : Lockstep w) {m : MarketId} {next : MarketStatus}
    {r : RegistryState} (hfree : ∀ market, w.registry.market m = some market →
      Registry.validTransition market.status next = true → Unasked market)
    (hearly : next = .created ∨ next = .live ∨ next = .paused ∨ next = .tradingClosed ∨
      next = .cancelled)
    (ht : Registry.transitionInternal w.registry m next = .ok r) :
    Lockstep { w with registry := r } := by
  have hordered := (Registry.transitionInternal_follow ht).ordered h.markets
  obtain ⟨market, hm, hvalid, rfl⟩ := transitionInternal_ok.mp ht
  have hid := (h.markets.registered m market hm).1
  have hunasked := hfree market hm hvalid
  refine h.store (m := m) { market with status := next } ?_ rfl ?_ ⟨hunasked.free, hearly⟩
    hordered rfl
  · intro stored hstored
    rw [hm] at hstored
    obtain rfl := Option.some.inj hstored
    exact hunasked.free
  · rw [← hid]
    rfl

/-- Markets of these statuses have no request. -/
theorem Lockstep.unasked_early (h : Lockstep w) {m : MarketId} {market : MarketData}
    (hm : w.registry.market m = some market)
    (hstatus : market.status = .created ∨ market.status = .live ∨ market.status = .paused) :
    Unasked market := by
  refine h.free hm (fun status hk => ?_)
  rcases hstatus with hs | hs | hs
  · rw [hs] at hk
    cases hk
  · rw [hs] at hk
    cases hk
  · rw [hs] at hk
    cases hk

/-- Closing the trading of a market keeps the simulation. -/
theorem Lockstep.closeTrading (hw : Lockstep w) {m : MarketId} {r : RegistryState}
    (h : Registry.closeTrading ctx w.registry m = .ok r) : Lockstep { w with registry := r } := by
  obtain ⟨_, _, h⟩ := bind_ok.mp h
  obtain ⟨_, _, h⟩ := bind_ok.mp h
  exact hw.transition (fun _ hm hvalid => hw.unasked_early hm
    (validTransition_trading (Or.inr rfl) hvalid)) (by simp) h

/-- Every invocation of the registry from outside the oracle keeps the simulation. -/
theorem registry_lockstep (hctx : Outside .oracle ctx) (hw : Lockstep w) {op : RegistryOp}
    (hgov : GovernsEarly w.registry op) (hwired : KeepsOracle op) {r : RegistryState}
    (h : op.exec ctx w.registry = .ok r) : Lockstep { w with registry := r } := by
  have hordered := (RegistryOp.exec_follow h).ordered hw.markets
  have hforeign : ∀ {u}, requireRole ctx w.registry.roles .oracle ≠ .ok u := by
    intro u
    exact Trading.requireRole_outside hctx hw.wired
  cases op with
  | setAdmin admin =>
    obtain ⟨_, _, h⟩ := bind_ok.mp h
    obtain rfl := pure_ok.mp h
    exact hw.same rfl rfl rfl rfl hordered rfl
  | upgrade wasmHash =>
    obtain ⟨_, _, h⟩ := bind_ok.mp h
    obtain rfl := pure_ok.mp h
    exact hw.same rfl rfl rfl rfl hordered rfl
  | setRole role module =>
    obtain ⟨_, _, h⟩ := bind_ok.mp h
    obtain rfl := pure_ok.mp h
    refine hw.same rfl rfl rfl rfl hordered ?_
    dsimp only
    rw [Store.set_get]
    split
    · next heq =>
      subst heq
      rw [show module = .contract .oracle from hwired]
      exact hw.wired.symm
    · rfl
  | setSupportedCollateral collateral supported =>
    obtain ⟨_, _, h⟩ := bind_ok.mp h
    obtain rfl := pure_ok.mp h
    exact hw.same rfl rfl rfl rfl hordered rfl
  | pauseSystem paused =>
    obtain ⟨_, _, h⟩ := bind_ok.mp h
    obtain rfl := pure_ok.mp h
    exact hw.same rfl rfl rfl rfl hordered rfl
  | registerMarket config yesTokenId noTokenId poolId =>
    obtain ⟨⟨id, r1⟩, h1, h⟩ := bind_ok.mp h
    obtain rfl := pure_ok.mp h
    unfold Registry.registerMarket at h1
    obtain ⟨_, _, h1⟩ := bind_ok.mp h1
    obtain ⟨_, _, h1⟩ := bind_ok.mp h1
    obtain ⟨next, hnext, h1⟩ := bind_ok.mp h1
    obtain ⟨_, rfl⟩ := Prod.mk.inj (pure_ok.mp h1)
    refine hw.store (m := w.registry.nextMarketId) _ ?_ rfl rfl ⟨rfl, Or.inl rfl⟩ hordered rfl
    intro market hm
    exact absurd (hw.markets.registered _ market hm).2 (lt_irrefl _)
  | setFeeConfig m feeConfig =>
    obtain ⟨_, _, h⟩ := bind_ok.mp h
    obtain ⟨_, _, h⟩ := bind_ok.mp h
    obtain ⟨market, hm, h⟩ := bind_ok.mp h
    obtain ⟨_, _, h⟩ := bind_ok.mp h
    obtain rfl := pure_ok.mp h
    have hm' := orFault_ok.mp hm
    refine hw.touch { market with feeConfig := feeConfig } hm' rfl rfl rfl rfl rfl rfl ?_ hordered
      rfl
    rw [← (hw.markets.registered m market hm').1]
    rfl
  | setStatus m next =>
    obtain ⟨_, _, h⟩ := bind_ok.mp h
    have hmoved : Registry.transitionInternal w.registry m next = .ok r := h
    obtain ⟨market, hm, hvalid, _⟩ := transitionInternal_ok.mp hmoved
    exact hw.transition (fun _ hm' _ => hw.unasked_early hm' (hgov _ hm'))
      (validTransition_early (hgov market hm) hvalid) hmoved
  | activateMarket m =>
    obtain ⟨_, _, h⟩ := bind_ok.mp h
    exact hw.transition (fun _ hm hvalid => hw.unasked_early hm
      (validTransition_trading (Or.inl rfl) hvalid)) (by simp) h
  | closeTrading m => exact hw.closeTrading h
  | markResolutionRequested m requestId =>
    obtain ⟨_, hrole, _⟩ := bind_ok.mp h
    exact absurd hrole hforeign
  | markProposed m =>
    obtain ⟨_, hrole, _⟩ := bind_ok.mp h
    exact absurd hrole hforeign
  | markDisputed m =>
    obtain ⟨_, hrole, _⟩ := bind_ok.mp h
    exact absurd hrole hforeign
  | markCouncilVoting m =>
    obtain ⟨_, hrole, _⟩ := bind_ok.mp h
    exact absurd hrole hforeign
  | setFinalOutcome m outcome =>
    obtain ⟨_, hrole, _⟩ := bind_ok.mp h
    exact absurd hrole hforeign
  | cancelMarket m =>
    obtain ⟨_, _, h⟩ := bind_ok.mp h
    exact hw.transition (fun _ hm _ => hw.unasked_early hm (hgov _ hm)) (by simp) h

/-- The final outcome ends a request and its market together. -/
theorem Lockstep.finish (hw : Lockstep w) {k : ℕ} {request : ResolutionRequest}
    {outcome : Outcome} {r : RegistryState} (hk : w.oracle.request k = some request)
    (horacle : w'.oracle = Oracle.writeRequest w.oracle (Oracle.finalized request outcome))
    (hregistry : w'.registry = r)
    (hset : Registry.setFinalOutcome ctx w.registry request.marketId outcome = .ok r) :
    Lockstep w' := by
  have hfollow : MarketsFollow w.registry r :=
    RegistryOp.exec_follow (show (RegistryOp.setFinalOutcome request.marketId outcome).exec ctx
      w.registry = .ok r from hset)
  have hordered := hfollow.ordered hw.markets
  obtain ⟨_, market, hmarket, _, _, rfl⟩ := Registry.setFinalOutcome_ok.mp hset
  obtain ⟨stored, hstored, hpaired⟩ := hw.paired k request hk
  rw [hmarket] at hstored
  obtain rfl := Option.some.inj hstored
  have hmid := (hw.markets.registered _ market hmarket).1
  have hended : Paired (Oracle.finalized request outcome) { market with
      hasFinalOutcome := true
      finalOutcome := outcome
      status := .resolved } :=
    ⟨hpaired.asked, hpaired.named, .finalized, fun _ => ⟨rfl, rfl, rfl⟩,
      fun hk => absurd (Or.inr (Or.inr rfl)) hk⟩
  have hid : (Oracle.finalized request outcome).id = request.id := rfl
  refine hw.move _ hk hid rfl horacle ?_ hended ?_ ?_
  · rw [hregistry, ← hmid]
    rfl
  · rw [hregistry]
    exact hordered
  · rw [hregistry]
    rfl

/-- What lasts of a request. -/
structure Ahead (before after : ResolutionRequest) : Prop where
  window : after.disputeWindow = before.disputeWindow
  answered : Answered before → Answered after ∧ after.proposedAt = before.proposedAt ∧
    after.hasDispute = before.hasDispute
  unanswered : ¬Answered after → after.hasDispute = before.hasDispute

/-- Every stored request stays, and what lasts of it. -/
def RequestsAhead (o o' : OracleState) : Prop :=
  ∀ r before, o.request r = some before → ∃ after, o'.request r = some after ∧ Ahead before after

/-- The same requests. -/
theorem RequestsAhead.of_eq {o o' : OracleState} (h : o'.request = o.request) :
    RequestsAhead o o' := by
  intro r before hr
  rw [h]
  exact ⟨before, hr, rfl, fun hk => ⟨hk, rfl, rfl⟩, fun _ => rfl⟩

/-- One request rewritten. -/
theorem RequestsAhead.write {o : OracleState} (ho : RequestsOrdered o) {k : ℕ}
    {before after : ResolutionRequest} (hk : o.request k = some before)
    (hid : after.id = before.id) (hahead : Ahead before after) :
    RequestsAhead o (Oracle.writeRequest o after) := by
  intro r stored hr
  unfold Oracle.writeRequest
  dsimp only
  rw [hid, (ho k before hk).1, Store.set_get]
  split
  · next heq =>
    rw [heq, hk] at hr
    obtain rfl := Option.some.inj hr
    exact ⟨after, rfl, hahead⟩
  · exact ⟨stored, hr, rfl, fun hk => ⟨hk, rfl, rfl⟩, fun _ => rfl⟩

/-- A mark of the oracle moves a request and its market together. -/
theorem Lockstep.mark (hw : Lockstep w) {k : ℕ} {before after : ResolutionRequest}
    {next : MarketStatus} {r : RegistryState} (hk : w.oracle.request k = some before)
    (hmark : Registry.oracleMark next ctx w.registry before.marketId = .ok r)
    (horacle : w'.oracle = Oracle.writeRequest w.oracle after) (hregistry : w'.registry = r)
    (hid : after.id = before.id) (hm : after.marketId = before.marketId)
    (hnext : Corresponds after.status next) (hopen : next ≠ .resolved)
    (hahead : Ahead before after) : Lockstep w' ∧ RequestsAhead w.oracle w'.oracle := by
  have hordered : Ordered r := by
    obtain ⟨_, _, htransition⟩ := bind_ok.mp hmark
    exact (Registry.transitionInternal_follow htransition).ordered hw.markets
  obtain ⟨market, hmarket, _, rfl⟩ := oracleMark_ok hmark
  obtain ⟨stored, hstored, hpaired⟩ := hw.paired k before hk
  rw [hmarket] at hstored
  obtain rfl := Option.some.inj hstored
  have hmid := (hw.markets.registered _ market hmarket).1
  have hmoved : Paired after { market with status := next } := by
    refine ⟨hpaired.asked, hpaired.named.trans hid.symm, hnext, fun hfinal => ?_, fun hk => ?_⟩
    · rw [hfinal] at hnext
      cases hnext
      exact absurd rfl hopen
    · have hbefore : ¬Answered before := fun hanswered => hk (hahead.answered hanswered).1
      exact (hahead.unanswered hk).trans (hpaired.undisputed hbefore)
  constructor
  · refine hw.move _ hk hid hm horacle ?_ hmoved ?_ ?_
    · rw [hregistry, ← hmid]
      rfl
    · rw [hregistry]
      exact hordered
    · rw [hregistry]
      rfl
  · rw [horacle]
    exact .write hw.requests hk hid hahead

/-- A request and its market start in lockstep. -/
theorem requestResolution_lockstep (hw : Lockstep w) {m : MarketId} {questionHash : Hash}
    {rulesUri : String} {expiry : ℕ} {bondAmount : ℤ} {disputeWindow requestId : ℕ}
    (h : Oracle.requestResolution ctx w m questionHash rulesUri expiry bondAmount disputeWindow =
      .ok (requestId, w')) : Lockstep w' ∧ RequestsAhead w.oracle w'.oracle := by
  obtain ⟨r1, r2, called, hclose, hmark, rfl, _, _, hfree, rfl⟩ := Oracle.requestResolution_steps h
  have hclosed : Lockstep { w with registry := r1 } := by
    rcases hclose with rfl | hclose
    · exact hw
    · exact hw.closeTrading hclose
  have hordered : Ordered r2 := (RegistryOp.exec_follow (show
    (RegistryOp.markResolutionRequested m w.oracle.nextRequestId).exec called r1 = .ok r2
      from hmark)).ordered hclosed.markets
  obtain ⟨_, _, hmark⟩ := bind_ok.mp hmark
  obtain ⟨market, hmarket, hmark⟩ := bind_ok.mp hmark
  obtain ⟨_, _, hmark⟩ := bind_ok.mp hmark
  obtain rfl := pure_ok.mp hmark
  have hmid := (hclosed.markets.registered m market (orFault_ok.mp hmarket)).1
  have hstart : Paired (Oracle.newRequest ctx.now w.oracle.nextRequestId m questionHash rulesUri
      expiry bondAmount disputeWindow) { market with
        status := .resolutionRequested
        hasRequest := true
        requestId := w.oracle.nextRequestId } :=
    ⟨rfl, rfl, .requested, (fun hk => by cases hk), fun _ => rfl⟩
  refine ⟨hclosed.start hfree rfl rfl rfl ?_ hstart hordered rfl, ?_⟩
  · rw [← hmid]
    rfl
  · intro k before hk
    refine ⟨before, ?_, rfl, fun hk => ⟨hk, rfl, rfl⟩, fun _ => rfl⟩
    unfold Oracle.writeRequest
    dsimp only [Oracle.newRequest]
    rw [Store.set_get_of_ne _ _ (Nat.ne_of_lt (hw.requests k before hk).2)]
    exact hk

/-- A reported outcome ends its request and market together. -/
theorem report_lockstep (hw : Lockstep w) {k : ℕ} {outcome : Outcome}
    (h : Oracle.reportCouncilOutcome ctx w k outcome = .ok w') :
    Lockstep w' ∧ RequestsAhead w.oracle w'.oracle := by
  obtain ⟨request, market, w1, called, r, hk, hstatus, _, _, hset, rfl⟩ :=
    Oracle.reportCouncilOutcome_steps h
  refine ⟨hw.finish hk rfl rfl hset, .write hw.requests hk rfl ⟨rfl, fun _ => ?_, fun _ => rfl⟩⟩
  exact ⟨Or.inr (Or.inr rfl), rfl, rfl⟩

/-- Every invocation of the oracle keeps the simulation. -/
theorem oracle_lockstep (hw : Lockstep w) {op : OracleOp} (h : op.exec ctx w = .ok w') :
    Lockstep w' ∧ RequestsAhead w.oracle w'.oracle := by
  have hsetting : op.isSetting = true → Lockstep w' ∧ RequestsAhead w.oracle w'.oracle := by
    intro hop
    obtain ⟨admin, roles, paused, rfl⟩ := OracleOp.exec_setting hop h
    exact ⟨hw.same rfl rfl rfl rfl hw.markets rfl, .of_eq rfl⟩
  cases op with
  | setAdmin admin => exact hsetting rfl
  | upgrade wasmHash => exact hsetting rfl
  | setRole role module => exact hsetting rfl
  | pause paused => exact hsetting rfl
  | requestResolution m questionHash rulesUri expiry bondAmount disputeWindow =>
    obtain ⟨requestId, h⟩ := world_ok.mp h
    exact requestResolution_lockstep hw h
  | proposeOutcome proposer k outcome uri =>
    obtain ⟨request, market, w1, called, r, hk, hstatus, _, _, _, hlock, hmark, rfl⟩ :=
      Oracle.proposeOutcome_steps h
    obtain ⟨_, _, b, _, _, rfl⟩ := Vault.lockBond_ok hlock
    have hopen : ¬Answered request := by
      unfold Answered
      rw [hstatus]
      decide
    exact hw.mark hk hmark rfl rfl rfl rfl .proposed (by decide)
      ⟨rfl, fun hk => absurd hk hopen, fun _ => rfl⟩
  | disputeOutcome disputer k outcome uri =>
    obtain ⟨request, market, w1, called, r, hk, hstatus, _, _, _, _, hlock, hmark, rfl⟩ :=
      Oracle.disputeOutcome_steps h
    obtain ⟨_, _, b, _, _, rfl⟩ := Vault.lockBond_ok hlock
    have hopen : ¬Answered request := by
      unfold Answered
      rw [hstatus]
      decide
    exact hw.mark hk hmark rfl rfl rfl rfl .disputed (by decide)
      ⟨rfl, fun hk => absurd hk hopen, fun hk => absurd (Or.inl rfl) hk⟩
  | finalizeUndisputed k =>
    obtain ⟨outcome, h⟩ := world_ok.mp h
    obtain ⟨request, market, called, r, w1, hk, hstatus, _, _, _, hset, hpay, rfl⟩ :=
      Oracle.finalizeUndisputed_steps h
    have hbonds := Oracle.BondsOnly.payBond hpay
    have hopen : ¬Answered request := by
      unfold Answered
      rw [hstatus]
      decide
    rw [hbonds.oracle]
    exact ⟨hw.finish hk rfl hbonds.registry hset,
      .write hw.requests hk rfl ⟨rfl, fun hk => absurd hk hopen, fun _ => rfl⟩⟩
  | escalateToCouncil k =>
    obtain ⟨request, market, called, caseId, c, r, hk, hstatus, _, _, hmark, rfl⟩ :=
      Oracle.escalateToCouncil_steps h
    exact hw.mark hk hmark rfl rfl rfl rfl .escalated (by decide)
      ⟨rfl, fun _ => ⟨Or.inr (Or.inl rfl), rfl, rfl⟩, fun _ => rfl⟩
  | reportCouncilOutcome k outcome => exact report_lockstep hw h

/-- A vault or a council that leaves both alone keeps the simulation. -/
theorem Lockstep.apart (hw : Lockstep w) (horacle : w'.oracle = w.oracle)
    (hregistry : w'.registry = w.registry) :
    Lockstep w' ∧ RequestsAhead w.oracle w'.oracle := by
  refine ⟨hw.same ?_ ?_ ?_ ?_ ?_ ?_, .of_eq ?_⟩
  · rw [horacle]
  · rw [horacle]
  · rw [horacle]
  · rw [hregistry]
  · rw [hregistry]
    exact hw.markets
  · rw [hregistry]
  · rw [horacle]

end Steps

/-- Governance moves early markets only. -/
def CourtStep.GovernsEarly (w : World) : CourtStep → Prop
  | call _ (.registry op) => Resolution.GovernsEarly w.registry op
  | _ => True

/-- Oracle and registry keep pointing at each other. -/
def CourtStep.StaysWired : CourtStep → Prop
  | call _ (.registry op) => KeepsOracle op
  | call _ (.oracle (.setRole .registry module)) => module = .contract .registry
  | _ => True

/-- Every move that keeps to this keeps the simulation. -/
theorem CourtMove.lockstep {ctx : Ctx} {w w' : World} {op : CourtOp} (hctx : Apart ctx)
    (hw : Lockstep w) (hgov : (CourtStep.call ctx op).GovernsEarly w)
    (hwired : (CourtStep.call ctx op).StaysWired) (h : CourtMove ctx w op w') :
    Lockstep w' ∧ RequestsAhead w.oracle w'.oracle := by
  cases h with
  | council _ horacle hregistry _ _ => exact hw.apart horacle hregistry
  | @tally caseId c case outcome _ _ _ hreport =>
    have hcouncil : Lockstep { w with council := c } := hw.same rfl rfl rfl rfl hw.markets rfl
    have hreported := report_lockstep hcouncil hreport
    exact hreported
  | oracle hexec => exact oracle_lockstep hw hexec
  | registry hexec => exact ⟨registry_lockstep hctx.2.1 hw hgov hwired hexec, .of_eq rfl⟩
  | vault horacle hregistry _ _ => exact hw.apart horacle hregistry

/-- So does every step. -/
theorem court_lockstep {s s' : World × ℕ} {step : CourtStep} (hw : Lockstep s.1)
    (hgov : step.GovernsEarly s.1) (hwired : step.StaysWired) (h : court.step s step = .ok s') :
    Lockstep s'.1 ∧ RequestsAhead s.1.oracle s'.1.oracle := by
  rcases court_step h with ⟨ctx, op, rfl, hapart, _, _, _, hmove⟩ | ⟨around, rfl, rfl⟩
  · exact hmove.lockstep hapart hw hgov hwired
  · exact hw.apart rfl rfl

/-- How the window of a proposal was used. -/
inductive Closing where
  /-- The proposal of this request was disputed at this time. -/
  | disputed (requestId now : ℕ)
  /-- The proposal of this request was finalized undisputed at this time. -/
  | undisputed (requestId now : ℕ)
  deriving DecidableEq

/-- What a step does to the window of a proposal. -/
def CourtStep.closing : CourtStep → List Closing
  | call ctx (.oracle (.disputeOutcome _ requestId _ _)) => [.disputed requestId ctx.now]
  | call ctx (.oracle (.finalizeUndisputed requestId)) => [.undisputed requestId ctx.now]
  | _ => []

/-- Runs of the four contracts with every closing of a window on record. -/
def closingCourt : System ((World × ℕ) × List Closing) CourtStep Fault :=
  court.recorded [] (fun closings _ step => closings ++ step.closing)

/-- What a closing says of the request it is about. -/
def ClosedBy (o : OracleState) : Closing → Prop
  | .disputed r now => ∃ request, o.request r = some request ∧ Answered request ∧
    request.hasDispute = true ∧ now ≤ request.proposedAt + request.disputeWindow
  | .undisputed r now => ∃ request, o.request r = some request ∧ Answered request ∧
    request.hasDispute = false ∧ request.proposedAt + request.disputeWindow < now

/-- What a closing says lasts. -/
theorem ClosedBy.ahead {o o' : OracleState} {closing : Closing} (h : ClosedBy o closing)
    (ho : RequestsAhead o o') : ClosedBy o' closing := by
  cases closing with
  | disputed r now =>
    obtain ⟨before, hr, hanswered, hdispute, hnow⟩ := h
    obtain ⟨after, hr', hahead⟩ := ho r before hr
    obtain ⟨hafter, hproposed, hsame⟩ := hahead.answered hanswered
    rw [← hproposed, ← hahead.window] at hnow
    exact ⟨after, hr', hafter, hsame.trans hdispute, hnow⟩
  | undisputed r now =>
    obtain ⟨before, hr, hanswered, hdispute, hnow⟩ := h
    obtain ⟨after, hr', hahead⟩ := ho r before hr
    obtain ⟨hafter, hproposed, hsame⟩ := hahead.answered hanswered
    rw [← hproposed, ← hahead.window] at hnow
    exact ⟨after, hr', hafter, hsame.trans hdispute, hnow⟩

/-- An invocation that closes a window closes it as it says. -/
theorem CourtMove.closing {ctx : Ctx} {w w' : World} {op : CourtOp} (hw : Lockstep w)
    (h : CourtMove ctx w op w') :
    ∀ closing ∈ (CourtStep.call ctx op).closing, ClosedBy w'.oracle closing := by
  cases h with
  | @oracle op w' hexec =>
    cases op with
    | disputeOutcome disputer k outcome uri =>
      obtain ⟨request, market, w1, called, r, hk, _, _, _, hnow, _, hlock, _, rfl⟩ :=
        Oracle.disputeOutcome_steps hexec
      obtain ⟨_, _, b, _, _, rfl⟩ := Vault.lockBond_ok hlock
      intro closing hclosing
      obtain rfl := List.mem_singleton.mp hclosing
      unfold ClosedBy Oracle.writeRequest
      dsimp only
      rw [(hw.requests k request hk).1, Store.set_get_self]
      exact ⟨_, rfl, Or.inl rfl, rfl, hnow⟩
    | finalizeUndisputed k =>
      obtain ⟨outcome, hexec⟩ := world_ok.mp hexec
      obtain ⟨request, market, called, r, w1, hk, hstatus, _, hnow, _, _, _, rfl⟩ :=
        Oracle.finalizeUndisputed_steps hexec
      obtain ⟨_, _, hpaired⟩ := hw.paired k request hk
      have hopen : ¬Answered request := by
        unfold Answered
        rw [hstatus]
        decide
      intro closing hclosing
      obtain rfl := List.mem_singleton.mp hclosing
      unfold ClosedBy Oracle.writeRequest Oracle.finalized
      dsimp only
      rw [(hw.requests k request hk).1, Store.set_get_self]
      exact ⟨_, rfl, Or.inr (Or.inr rfl), hpaired.undisputed hopen, hnow⟩
    | _ => exact List.forall_mem_nil _
  | _ => exact List.forall_mem_nil _

/-- So does a step. -/
theorem court_closing {s s' : World × ℕ} {step : CourtStep} (hw : Lockstep s.1)
    (h : court.step s step = .ok s') : ∀ closing ∈ step.closing, ClosedBy s'.1.oracle closing := by
  rcases court_step h with ⟨ctx, op, rfl, _, _, _, _, hmove⟩ | ⟨around, rfl, _⟩
  · exact hmove.closing hw
  · exact List.forall_mem_nil _

/-- What is promised of the requests, the markets and the windows closed so far. -/
structure InLockstep (w : World) (closings : List Closing) : Prop where
  /-- A market has at most one request. -/
  single : ∀ r r' request request', w.oracle.request r = some request →
    w.oracle.request r' = some request' → request.marketId = request'.marketId → r = r'
  /-- The market of a request names it, in the status that belongs to it. -/
  paired : ∀ r request, w.oracle.request r = some request →
    ∃ market, w.registry.market request.marketId = some market ∧ market.hasRequest = true ∧
      market.requestId = r ∧ Corresponds request.status market.status ∧
      (request.status = .finalized → market.hasFinalOutcome = true ∧
        request.hasFinalOutcome = true ∧ market.finalOutcome = request.finalOutcome)
  /-- Any other market is in a status without a request. -/
  asked : ∀ m market, w.registry.market m = some market → Unasked market ∨
    ∃ request, w.oracle.request market.requestId = some request ∧ request.marketId = m
  /-- Disputes fall into the window. -/
  disputed : ∀ r now, .disputed r now ∈ closings → ∃ request, w.oracle.request r = some request ∧
    now ≤ request.proposedAt + request.disputeWindow
  /-- Undisputed proposals are final after it. -/
  undisputed : ∀ r now, .undisputed r now ∈ closings → ∃ request,
    w.oracle.request r = some request ∧ request.proposedAt + request.disputeWindow < now
  /-- No request is both. -/
  once : ∀ r now now', .disputed r now ∈ closings → .undisputed r now' ∉ closings

/-- In every run in which governance moves early markets only and oracle and
registry stay wired to each other, requests and markets are in lockstep, and
every window is closed in time and in one way. -/
theorem inLockstep {s : (World × ℕ) × List Closing}
    (h : closingCourt.Guarded (fun s step => step.GovernsEarly s.1.1 ∧ step.StaysWired) s) :
    InLockstep s.1.1 s.2 := by
  have hinv : Lockstep s.1.1 ∧ ∀ closing ∈ s.2, ClosedBy s.1.1.oracle closing := by
    refine h.invariant (I := fun s => Lockstep s.1.1 ∧
      ∀ closing ∈ s.2, ClosedBy s.1.1.oracle closing) ?_ ?_
    · rintro s ⟨⟨l, hl⟩, hstart⟩
      rw [hl, hstart]
      exact ⟨.deployed l, List.forall_mem_nil _⟩
    · intro s step s' hs hok hstep
      obtain ⟨hstep, hnote⟩ := System.recorded_step.mp hstep
      obtain ⟨hlock, hahead⟩ := court_lockstep hs.1 hok.1 hok.2 hstep
      refine ⟨hlock, fun closing hclosing => ?_⟩
      rw [hnote] at hclosing
      rcases List.mem_append.mp hclosing with hold | hnew
      · exact (hs.2 closing hold).ahead hahead
      · exact court_closing hs.1 hstep closing hnew
  obtain ⟨hlock, hclosed⟩ := hinv
  refine ⟨fun _ _ _ _ hr hr' hm => hlock.single hr hr' hm, ?_, hlock.asked, ?_, ?_, ?_⟩
  · intro r request hr
    obtain ⟨market, hm, hpaired⟩ := hlock.paired r request hr
    refine ⟨market, hm, hpaired.asked, ?_, hpaired.status, fun hfinal => ?_⟩
    · exact hpaired.named.trans (hlock.requests r request hr).1
    · obtain ⟨hhas, hmarket, hsame⟩ := hpaired.outcome hfinal
      exact ⟨hmarket, hhas, hsame⟩
  · intro r now hk
    obtain ⟨request, hr, _, _, hnow⟩ := hclosed _ hk
    exact ⟨request, hr, hnow⟩
  · intro r now hk
    obtain ⟨request, hr, _, _, hnow⟩ := hclosed _ hk
    exact ⟨request, hr, hnow⟩
  · intro r now now' hk hk'
    obtain ⟨request, hr, _, hdispute, _⟩ := hclosed _ hk
    obtain ⟨request', hr', _, hdispute', _⟩ := hclosed _ hk'
    rw [hr] at hr'
    obtain rfl := Option.some.inj hr'
    rw [hdispute] at hdispute'
    cases hdispute'

/-- Nobody disputes alice's outcome for market 1 in its window. -/
def undisputedProposal : List CourtStep :=
  [.call byFactory (.registry (.registerMarket sampleConfig 2 3 1)),
    .call byFactory (.registry (.activateMarket 1)),
    .call ⟨1000, [], []⟩ (.oracle (.requestResolution 1 0 "rules" 1000 10 100)),
    .call ⟨1000, [alice], []⟩ (.oracle (.proposeOutcome alice 1 .yes "yes")),
    .call ⟨1101, [], []⟩ (.oracle (.finalizeUndisputed 1))]

/-- One unit after the window it is final, in lockstep. -/
theorem inLockstep_after_undisputed : ∃ s,
    closingCourt.runs ((deploy sampleLaunch, 0), []) undisputedProposal = .ok s ∧
      s.2 = [.undisputed 1 1101] ∧ InLockstep s.1.1 s.2 := by
  have hguard : ∀ step ∈ undisputedProposal, (∀ w, step.GovernsEarly w) ∧ step.StaysWired := by
    simp [undisputedProposal, CourtStep.GovernsEarly, GovernsEarly, CourtStep.StaysWired,
      KeepsOracle]
  obtain ⟨s, hs, hcheck⟩ := System.runs_of_decide (S := closingCourt)
    ((deploy sampleLaunch, 0), []) undisputedProposal (fun s => s.2 = [.undisputed 1 1101])
    (by decide +kernel)
  have hrun : closingCourt.Guarded (fun _ step => (∀ w, step.GovernsEarly w) ∧ step.StaysWired) s :=
    System.Guarded.runs (.init ⟨⟨sampleLaunch, rfl⟩, rfl⟩) undisputedProposal hguard hs
  have hinlockstep := inLockstep (hrun.mono (fun s _ hok => ⟨hok.1 s.1.1, hok.2⟩))
  exact ⟨s, hs, of_decide_eq_true hcheck, hinlockstep⟩

/-- The administrator of the registry hands the role of the oracle to an account,
which marks market 1 as requested. -/
def usurpedMark : List CourtStep :=
  [.call byFactory (.registry (.registerMarket sampleConfig 2 3 1)),
    .call byFactory (.registry (.activateMarket 1)),
    .call ⟨900, [.account 1], []⟩ (.registry (.setRole .oracle (.account 7))),
    .call ⟨1000, [], []⟩ (.registry (.closeTrading 1)),
    .call ⟨1000, [.account 7], []⟩ (.registry (.markResolutionRequested 1 1))]

/-- Alice's outcome for market 1 is proposed; then the account has the role and marks the market
as disputed. -/
def usurpedDispute : List CourtStep :=
  [.call byFactory (.registry (.registerMarket sampleConfig 2 3 1)),
    .call byFactory (.registry (.activateMarket 1)),
    .call ⟨1000, [], []⟩ (.oracle (.requestResolution 1 0 "rules" 1000 10 100)),
    .call ⟨1000, [alice], []⟩ (.oracle (.proposeOutcome alice 1 .yes "yes")),
    .call ⟨1000, [.account 1], []⟩ (.registry (.setRole .oracle (.account 7))),
    .call ⟨1000, [.account 7], []⟩ (.registry (.markDisputed 1))]

/-- The market of the first run names a request that is not there, and that of the second one is in
another status than its request. -/
theorem not_always_inLockstep :
    (¬∀ s, closingCourt.Guarded (fun s step => step.GovernsEarly s.1.1) s →
      InLockstep s.1.1 s.2) ∧
    ¬∀ s, closingCourt.Guarded (fun s step => step.GovernsEarly s.1.1) s →
      ∀ r request market, s.1.1.oracle.request r = some request →
        s.1.1.registry.market request.marketId = some market →
        Corresponds request.status market.status := by
  constructor
  · intro hall
    have hguard : ∀ step ∈ usurpedMark, ∀ w, step.GovernsEarly w := by
      simp [usurpedMark, CourtStep.GovernsEarly, GovernsEarly]
    obtain ⟨s, hs, hcheck⟩ := System.runs_of_decide (S := closingCourt)
      ((deploy sampleLaunch, 0), []) usurpedMark
      (fun s => (s.1.1.registry.market 1).map (fun market =>
        (market.hasRequest, market.requestId)) = some (true, 1) ∧
        s.1.1.oracle.request 1 = none) (by decide +kernel)
    obtain ⟨hmarket, hnone⟩ := of_decide_eq_true hcheck
    obtain ⟨market, hm, hpair⟩ := Option.map_eq_some_iff.mp hmarket
    obtain ⟨hhas, hid⟩ := Prod.mk.inj hpair
    have hrun : closingCourt.Guarded (fun _ step => ∀ w, step.GovernsEarly w) s :=
      System.Guarded.runs (.init ⟨⟨sampleLaunch, rfl⟩, rfl⟩) usurpedMark hguard hs
    have hlock := hall s (hrun.mono (fun s _ hok => hok s.1.1))
    rcases hlock.asked 1 market hm with hunasked | ⟨request, hr, _⟩
    · rw [hunasked.free] at hhas
      cases hhas
    · rw [hid, hnone] at hr
      cases hr
  · intro hall
    have hguard : ∀ step ∈ usurpedDispute, ∀ w, step.GovernsEarly w := by
      simp [usurpedDispute, CourtStep.GovernsEarly, GovernsEarly]
    obtain ⟨s, hs, hcheck⟩ := System.runs_of_decide (S := closingCourt)
      ((deploy sampleLaunch, 0), []) usurpedDispute
      (fun s => (s.1.1.registry.market 1).map MarketData.status = some .disputed ∧
        (s.1.1.oracle.request 1).map (fun request => (request.marketId, request.status)) =
          some (1, .proposed)) (by decide +kernel)
    obtain ⟨hmarket, hrequest⟩ := of_decide_eq_true hcheck
    obtain ⟨market, hm, hdisputed⟩ := Option.map_eq_some_iff.mp hmarket
    obtain ⟨request, hr, hpair⟩ := Option.map_eq_some_iff.mp hrequest
    obtain ⟨hid, hproposed⟩ := Prod.mk.inj hpair
    have hrun : closingCourt.Guarded (fun _ step => ∀ w, step.GovernsEarly w) s :=
      System.Guarded.runs (.init ⟨⟨sampleLaunch, rfl⟩, rfl⟩) usurpedDispute hguard hs
    have hstatus := hall s (hrun.mono (fun s _ hok => hok s.1.1)) 1 request market hr
      (by rw [hid]; exact hm)
    rw [hproposed, hdisputed] at hstatus
    cases hstatus

end DikeProtocol.Resolution
