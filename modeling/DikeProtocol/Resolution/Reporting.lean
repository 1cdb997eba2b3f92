import DikeProtocol.Resolution.Steps
import DikeProtocol.Lib.Run

/-!
# Final cases and their requests

Council, oracle and registry as one system, invoked by anyone in any order.
A case gets its outcome in the same invocation in which its request and market
get it, unless the tally alone is invoked.
-/

namespace DikeProtocol.Resolution

open Lib
open Council (CouncilOp)
open Oracle (OracleOp)
open Registry (RegistryOp MarketsFollow MarketFinal Ordered)

/-- One step of a run. -/
inductive ResolutionStep where
  /-- An invocation of the council. -/
  | council (ctx : Ctx) (op : CouncilOp)
  /-- An invocation of the oracle. -/
  | oracle (ctx : Ctx) (op : OracleOp)
  /-- An invocation of the registry. -/
  | registry (ctx : Ctx) (op : RegistryOp)
  /-- Anything else changes: balances and the other contracts. -/
  | outside (w : World)

/-- Runs of council, oracle and registry from a deployment. -/
def resolutionSystem : System World ResolutionStep Fault where
  Init := fun w => ∃ l : Launch, w = deploy l
  step := fun w step =>
    match step with
    | .council ctx op => op.exec ctx w
    | .oracle ctx op => op.exec ctx w
    | .registry ctx op => do
      let r ← op.exec ctx w.registry
      return { w with registry := r }
    | .outside w' =>
      .ok { w' with council := w.council, oracle := w.oracle, registry := w.registry }

/-- A request is finalized with this outcome for this market. -/
def RequestFinal (o : OracleState) (requestId : ℕ) (m : MarketId) (outcome : Outcome) : Prop :=
  ∃ request, o.request requestId = some request ∧ request.marketId = m ∧
    request.status = .finalized ∧ request.hasFinalOutcome = true ∧ request.finalOutcome = outcome

/-- Every case with a final outcome has its request finalized with the same
outcome, and the market of that request resolved with it. -/
def FinalizedReported (w : World) : Prop :=
  ∀ k case, w.council.caseData k = some case → case.hasFinalOutcome = true →
    ∃ m, RequestFinal w.oracle case.requestId m case.finalOutcome ∧
      MarketFinal w.registry m case.finalOutcome

/-- Requests are stored under their own identifiers, all of them assigned. -/
def RequestsOrdered (o : OracleState) : Prop :=
  ∀ r request, o.request r = some request → request.id = r ∧ r < o.nextRequestId

/-- A request that is not finalized yet may be overwritten. -/
theorem RequestFinal.write {o : OracleState} {request request' : ResolutionRequest} {k r : ℕ}
    {m : MarketId} {outcome : Outcome} (h : RequestFinal o r m outcome)
    (hid : request'.id = k) (hk : o.request k = some request) (hs : request.status ≠ .finalized) :
    RequestFinal (Oracle.writeRequest o request') r m outcome := by
  obtain ⟨stored, hstored, hm, hstatus, hhas, hout⟩ := h
  have hne : r ≠ request'.id := by
    intro heq
    rw [heq, hid, hk] at hstored
    obtain rfl := Option.some.inj hstored
    exact hs hstatus
  refine ⟨stored, ?_, hm, hstatus, hhas, hout⟩
  unfold Oracle.writeRequest
  dsimp only
  rw [Store.set_get_of_ne _ _ hne]
  exact hstored

/-- Overwriting a stored request keeps requests ordered. -/
theorem RequestsOrdered.write {o : OracleState} {request request' : ResolutionRequest} {k : ℕ}
    (h : RequestsOrdered o) (hid : request'.id = k) (hk : o.request k = some request) :
    RequestsOrdered (Oracle.writeRequest o request') := by
  intro r stored hstored
  unfold Oracle.writeRequest at hstored ⊢
  dsimp only at hstored ⊢
  rw [Store.set_get] at hstored
  split at hstored
  · next heq =>
    obtain rfl := Option.some.inj hstored
    rw [heq, hid]
    exact ⟨rfl, (h k request hk).2⟩
  · exact h r stored hstored

/-- Requests stay ordered while neither they nor their counter change. -/
theorem RequestsOrdered.same {o o' : OracleState} (h : RequestsOrdered o)
    (hrequest : o'.request = o.request) (hnext : o'.nextRequestId = o.nextRequestId) :
    RequestsOrdered o' := by
  intro r stored hr
  rw [hrequest] at hr
  rw [hnext]
  exact h r stored hr

/-- A request stored under the next identifier keeps requests ordered. -/
theorem RequestsOrdered.start {o o' : OracleState} {request : ResolutionRequest}
    (h : RequestsOrdered o) (hid : request.id = o.nextRequestId)
    (hrequest : o'.request = o.request.set o.nextRequestId (some request))
    (hnext : o'.nextRequestId = o.nextRequestId + 1) : RequestsOrdered o' := by
  intro r stored hr
  rw [hrequest, Store.set_get] at hr
  rw [hnext]
  split at hr
  · next heq =>
    obtain rfl := Option.some.inj hr
    rw [heq]
    exact ⟨hid, Nat.lt_succ_self _⟩
  · have hold := h r stored hr
    exact ⟨hold.1, Nat.lt_succ_of_lt hold.2⟩

/-- Requests and markets are ordered. -/
structure ResolutionInvariant (w : World) : Prop where
  requests : RequestsOrdered w.oracle
  markets : Ordered w.registry

/-- Between two worlds no case was decided, and what was final stays final. -/
structure Keeps (w w' : World) : Prop where
  cases : ∀ k case, w'.council.caseData k = some case → case.hasFinalOutcome = true →
    ∃ k0 case0, w.council.caseData k0 = some case0 ∧ case0.hasFinalOutcome = true ∧
      case0.requestId = case.requestId ∧ case0.finalOutcome = case.finalOutcome
  requests : ∀ r m outcome, RequestFinal w.oracle r m outcome → RequestFinal w'.oracle r m outcome
  markets : ∀ m outcome, MarketFinal w.registry m outcome → MarketFinal w'.registry m outcome

/-- Where no case was decided, every final case is still reported. -/
theorem Keeps.reported {w w' : World} (h : Keeps w w') (hw : FinalizedReported w) :
    FinalizedReported w' := by
  intro k case hk hhas
  obtain ⟨k0, case0, hk0, hhas0, hrequest, hout⟩ := h.cases k case hk hhas
  obtain ⟨m, hr, hm⟩ := hw k0 case0 hk0 hhas0
  rw [hrequest, hout] at hr
  rw [hout] at hm
  exact ⟨m, h.requests _ _ _ hr, h.markets _ _ hm⟩

/-- The same cases. -/
theorem cases_of_eq {c c' : CouncilState} (h : c'.caseData = c.caseData) : ∀ k case,
    c'.caseData k = some case → case.hasFinalOutcome = true →
      ∃ k0 case0, c.caseData k0 = some case0 ∧ case0.hasFinalOutcome = true ∧
        case0.requestId = case.requestId ∧ case0.finalOutcome = case.finalOutcome := by
  intro k case hk hhas
  rw [h] at hk
  exact ⟨k, case, hk, hhas, rfl, rfl⟩

/-- Cases that only open and count votes. -/
theorem cases_of_follow {c c' : CouncilState} (h : Council.CasesFollow c c') : ∀ k case,
    c'.caseData k = some case → case.hasFinalOutcome = true →
      ∃ k0 case0, c.caseData k0 = some case0 ∧ case0.hasFinalOutcome = true ∧
        case0.requestId = case.requestId ∧ case0.finalOutcome = case.finalOutcome := by
  intro k case hk hhas
  rcases h with heq | ⟨k', opened, hopen, heq⟩ | ⟨k', old, new, hold, _, hrequest, hh, hout, heq⟩
  · rw [heq] at hk
    exact ⟨k, case, hk, hhas, rfl, rfl⟩
  · rw [heq, Store.set_get] at hk
    split at hk
    · obtain rfl := Option.some.inj hk
      rw [hopen] at hhas
      cases hhas
    · exact ⟨k, case, hk, hhas, rfl, rfl⟩
  · rw [heq, Store.set_get] at hk
    split at hk
    · obtain rfl := Option.some.inj hk
      exact ⟨k', old, hold, hh ▸ hhas, hrequest.symm, hout.symm⟩
    · exact ⟨k, case, hk, hhas, rfl, rfl⟩

section Steps

variable {ctx : Ctx} {w w' : World}

/-- Council invocations that decide no case by themselves keep what is final. -/
theorem council_keeps {op : CouncilOp} (h : op.exec ctx w = .ok w')
    (hop : ∀ caseId, op ≠ .finalizeCase caseId ∧ op ≠ .finalizeAndReportCase caseId) :
    w'.oracle = w.oracle ∧ w'.registry = w.registry ∧ Keeps w w' := by
  have hsame : ∀ {c : CouncilState}, c.caseData = w.council.caseData →
      Keeps w { w with council := c } :=
    fun hc => ⟨cases_of_eq hc, fun _ _ _ hr => hr, fun _ _ hm => hm⟩
  have hsetting : op.isSetting = true →
      w'.oracle = w.oracle ∧ w'.registry = w.registry ∧ Keeps w w' := by
    intro hset
    obtain ⟨admin, roles, member, paused, rfl⟩ := CouncilOp.exec_setting hset h
    exact ⟨rfl, rfl, hsame rfl⟩
  cases op with
  | setAdmin admin => exact hsetting rfl
  | upgrade wasmHash => exact hsetting rfl
  | setRole role module => exact hsetting rfl
  | setMember member approved => exact hsetting rfl
  | pause paused => exact hsetting rfl
  | recordCaseReward caseId amount =>
    obtain ⟨c, hc, h⟩ := bind_ok.mp h
    obtain ⟨_, _, hc⟩ := bind_ok.mp hc
    obtain ⟨_, _, hc⟩ := bind_ok.mp hc
    obtain ⟨_, _, hc⟩ := bind_ok.mp hc
    rw [← pure_ok.mp h, ← pure_ok.mp hc]
    exact ⟨rfl, rfl, hsame rfl⟩
  | openCase requestId marketId proposer proposerOutcome proposerUri disputer disputerOutcome
      disputerUri config =>
    obtain ⟨c, hc, h⟩ := bind_ok.mp h
    obtain ⟨⟨id, c'⟩, hopen, hc⟩ := bind_ok.mp hc
    obtain rfl := pure_ok.mp hc
    rw [← pure_ok.mp h]
    exact ⟨rfl, rfl, cases_of_follow (Council.openCase_follow hopen), fun _ _ _ hr => hr,
      fun _ _ hm => hm⟩
  | commitVote voter caseId commitment =>
    obtain ⟨c, hc, h⟩ := bind_ok.mp h
    obtain ⟨_, _, hc⟩ := bind_ok.mp hc
    obtain ⟨_, _, hc⟩ := bind_ok.mp hc
    obtain ⟨_, _, hc⟩ := bind_ok.mp hc
    obtain ⟨_, _, hc⟩ := bind_ok.mp hc
    obtain ⟨_, _, hc⟩ := bind_ok.mp hc
    rw [← pure_ok.mp h, ← pure_ok.mp hc]
    exact ⟨rfl, rfl, hsame rfl⟩
  | revealVote voter caseId outcome salt =>
    obtain ⟨c, hc, h⟩ := bind_ok.mp h
    rw [← pure_ok.mp h]
    exact ⟨rfl, rfl, cases_of_follow (Council.revealVote_follow hc), fun _ _ _ hr => hr,
      fun _ _ hm => hm⟩
  | finalizeCase caseId => exact absurd rfl (hop caseId).1
  | finalizeAndReportCase caseId => exact absurd rfl (hop caseId).2
  | claimReward voter caseId =>
    obtain ⟨payout, h⟩ := world_ok.mp h
    unfold Council.claimReward at h
    obtain ⟨_, _, h⟩ := bind_ok.mp h
    obtain ⟨case, _, h⟩ := bind_ok.mp h
    obtain ⟨_, _, h⟩ := bind_ok.mp h
    obtain ⟨revealed, _, h⟩ := bind_ok.mp h
    obtain ⟨_, _, h⟩ := bind_ok.mp h
    obtain ⟨w1, hpay, h⟩ := bind_ok.mp h
    obtain ⟨_, rfl⟩ := Prod.mk.inj (pure_ok.mp h)
    obtain ⟨b, rfl⟩ := Council.payReward_ok hpay
    exact ⟨rfl, rfl, cases_of_eq rfl, fun _ _ _ hr => hr, fun _ _ hm => hm⟩
  | sweepCaseReward caseId recipient =>
    obtain ⟨pool, h⟩ := world_ok.mp h
    unfold Council.sweepCaseReward at h
    obtain ⟨_, _, h⟩ := bind_ok.mp h
    obtain ⟨case, _, h⟩ := bind_ok.mp h
    obtain ⟨_, _, h⟩ := bind_ok.mp h
    obtain ⟨_, _, h⟩ := bind_ok.mp h
    obtain ⟨_, _, h⟩ := bind_ok.mp h
    obtain ⟨token, _, h⟩ := bind_ok.mp h
    obtain ⟨w1, hpay, h⟩ := bind_ok.mp h
    obtain ⟨_, rfl⟩ := Prod.mk.inj (pure_ok.mp h)
    obtain ⟨_, b, _, rfl⟩ := transferToken_ok.mp hpay
    exact ⟨rfl, rfl, cases_of_eq rfl, fun _ _ _ hr => hr, fun _ _ hm => hm⟩

/-- What a step of the oracle does to one request and one market: the request is
overwritten before it is finalized, the market moves along its life. -/
structure Rewrites (w w' : World) (k : ℕ) (request : ResolutionRequest) : Prop where
  stored : ∃ before, w.oracle.request k = some before ∧ before.status ≠ .finalized
  written : w'.oracle = Oracle.writeRequest w.oracle request
  id : request.id = k
  registry : MarketsFollow w.registry w'.registry
  cases : Council.CasesFollow w.council w'.council

/-- A rewritten request keeps requests and markets ordered, and what is final. -/
theorem Rewrites.keeps {k : ℕ} {request : ResolutionRequest} (h : Rewrites w w' k request)
    (hw : ResolutionInvariant w) : ResolutionInvariant w' ∧ Keeps w w' := by
  obtain ⟨before, hbefore, hopen⟩ := h.stored
  refine ⟨⟨?_, h.registry.ordered hw.markets⟩, cases_of_follow h.cases, ?_,
    fun m outcome hm => hm.follow hw.markets h.registry⟩
  · rw [h.written]
    exact hw.requests.write h.id hbefore
  · intro r m outcome hr
    rw [h.written]
    exact hr.write h.id hbefore hopen

/-- A reported outcome rewrites its request, finalizes it and resolves its market. -/
theorem reportCouncilOutcome_rewrites (hw : ResolutionInvariant w) {requestId : ℕ}
    {outcome : Outcome} (h : Oracle.reportCouncilOutcome ctx w requestId outcome = .ok w') :
    (∃ request, Rewrites w w' requestId request) ∧
      w'.council.caseData = w.council.caseData ∧
      ∃ m, RequestFinal w'.oracle requestId m outcome ∧ MarketFinal w'.registry m outcome := by
  obtain ⟨request, market, w1, called, r, hrequest, hstatus, hmarket, hdivide, hr, rfl⟩ :=
    Oracle.reportCouncilOutcome_steps h
  obtain ⟨pool, hcouncil⟩ := (Oracle.BondsOnly.divideBonds hdivide).council
  have hid := (hw.requests requestId request hrequest).1
  have hopen : request.status ≠ .finalized := by
    rw [hstatus]
    decide
  have hfollow : MarketsFollow w.registry r :=
    RegistryOp.exec_follow (show (RegistryOp.setFinalOutcome request.marketId outcome).exec called
      w.registry = .ok r from hr)
  have hcases : w1.council.caseData = w.council.caseData := by
    rw [hcouncil]
  refine ⟨⟨Oracle.finalized request outcome,
    ⟨⟨request, hrequest, hopen⟩, rfl, hid, hfollow, Or.inl hcases⟩⟩, hcases, request.marketId,
    ?_, ?_⟩
  · refine ⟨Oracle.finalized request outcome, ?_, rfl, rfl, rfl, rfl⟩
    unfold Oracle.writeRequest Oracle.finalized
    dsimp only
    rw [hid, Store.set_get_self]
  · exact Registry.setFinalOutcome_final hw.markets hr

/-- Every step of the oracle keeps requests and markets ordered, and what is final. -/
theorem oracle_keeps (hw : ResolutionInvariant w) {op : OracleOp} (h : op.exec ctx w = .ok w') :
    ResolutionInvariant w' ∧ Keeps w w' := by
  have hown : ∀ {o : OracleState}, o.request = w.oracle.request →
      o.nextRequestId = w.oracle.nextRequestId →
      ResolutionInvariant { w with oracle := o } ∧ Keeps w { w with oracle := o } := by
    intro o ho hn
    refine ⟨⟨hw.requests.same ho hn, hw.markets⟩, cases_of_eq rfl, ?_, fun _ _ hm => hm⟩
    intro r m outcome hr
    unfold RequestFinal at hr ⊢
    dsimp only
    rw [ho]
    exact hr
  have hsetting : op.isSetting = true → ResolutionInvariant w' ∧ Keeps w w' := by
    intro hop
    obtain ⟨admin, roles, paused, rfl⟩ := OracleOp.exec_setting hop h
    exact hown rfl rfl
  cases op with
  | setAdmin admin => exact hsetting rfl
  | upgrade wasmHash => exact hsetting rfl
  | setRole role module => exact hsetting rfl
  | pause paused => exact hsetting rfl
  | requestResolution marketId questionHash rulesUri expiry bondAmount disputeWindow =>
    obtain ⟨requestId, h⟩ := world_ok.mp h
    obtain ⟨r1, r2, called, hclose, hmark, rfl, _, _, _, rfl⟩ := Oracle.requestResolution_steps h
    have hmarked : MarketsFollow r1 r2 :=
      RegistryOp.exec_follow (show (RegistryOp.markResolutionRequested marketId _).exec called r1 =
        .ok r2 from hmark)
    have hclosed : Ordered r1 ∧ ∀ m outcome, MarketFinal w.registry m outcome →
        MarketFinal r1 m outcome := by
      rcases hclose with rfl | hclose
      · exact ⟨hw.markets, fun _ _ hm => hm⟩
      · have hfollow : MarketsFollow w.registry r1 :=
          RegistryOp.exec_follow (show (RegistryOp.closeTrading marketId).exec called w.registry =
            .ok r1 from hclose)
        exact ⟨hfollow.ordered hw.markets, fun m outcome hm => hm.follow hw.markets hfollow⟩
    refine ⟨⟨hw.requests.start rfl rfl rfl, hmarked.ordered hclosed.1⟩, cases_of_eq rfl, ?_,
      fun m outcome hm => (hclosed.2 m outcome hm).follow hclosed.1 hmarked⟩
    rintro k m outcome ⟨stored, hk, hfinal⟩
    have hlt := (hw.requests k stored hk).2
    refine ⟨stored, ?_, hfinal⟩
    unfold Oracle.writeRequest
    dsimp only [Oracle.newRequest]
    rw [Store.set_get_of_ne _ _ (Nat.ne_of_lt hlt)]
    exact hk
  | proposeOutcome proposer requestId outcome uri =>
    obtain ⟨request, market, w1, called, r, hrequest, hstatus, _, _, _, hlock, hmark, rfl⟩ :=
      Oracle.proposeOutcome_steps h
    obtain ⟨_, _, b, _, _, rfl⟩ := Vault.lockBond_ok hlock
    have hopen : request.status ≠ .finalized := by
      rw [hstatus]
      decide
    have hfollow : MarketsFollow w.registry r :=
      RegistryOp.exec_follow (show (RegistryOp.markProposed request.marketId).exec called
        w.registry = .ok r from hmark)
    exact Rewrites.keeps ⟨⟨request, hrequest, hopen⟩, rfl,
      (hw.requests requestId request hrequest).1, hfollow, Or.inl rfl⟩ hw
  | disputeOutcome disputer requestId outcome uri =>
    obtain ⟨request, market, w1, called, r, hrequest, hstatus, _, _, _, _, hlock, hmark, rfl⟩ :=
      Oracle.disputeOutcome_steps h
    obtain ⟨_, _, b, _, _, rfl⟩ := Vault.lockBond_ok hlock
    have hopen : request.status ≠ .finalized := by
      rw [hstatus]
      decide
    have hfollow : MarketsFollow w.registry r :=
      RegistryOp.exec_follow (show (RegistryOp.markDisputed request.marketId).exec called
        w.registry = .ok r from hmark)
    exact Rewrites.keeps ⟨⟨request, hrequest, hopen⟩, rfl,
      (hw.requests requestId request hrequest).1, hfollow, Or.inl rfl⟩ hw
  | finalizeUndisputed requestId =>
    obtain ⟨outcome, h⟩ := world_ok.mp h
    obtain ⟨request, market, called, r, w1, hrequest, hstatus, _, _, _, hset, hpay, rfl⟩ :=
      Oracle.finalizeUndisputed_steps h
    have hbonds := Oracle.BondsOnly.payBond hpay
    obtain ⟨pool, hcouncil⟩ := hbonds.council
    have hopen : request.status ≠ .finalized := by
      rw [hstatus]
      decide
    have hfollow : MarketsFollow w.registry r :=
      RegistryOp.exec_follow (show (RegistryOp.setFinalOutcome request.marketId outcome).exec called
        w.registry = .ok r from hset)
    have hcases : Council.CasesFollow w.council w1.council := by
      rw [hcouncil]
      exact Or.inl rfl
    have hregistry : MarketsFollow w.registry w1.registry := by
      rw [hbonds.registry]
      exact hfollow
    rw [hbonds.oracle]
    exact Rewrites.keeps ⟨⟨request, hrequest, hopen⟩, rfl,
      (hw.requests requestId request hrequest).1, hregistry, hcases⟩ hw
  | escalateToCouncil requestId =>
    obtain ⟨request, market, called, caseId, c, r, hrequest, hstatus, _, hopen', hmark, rfl⟩ :=
      Oracle.escalateToCouncil_steps h
    have hopen : request.status ≠ .finalized := by
      rw [hstatus]
      decide
    have hfollow : MarketsFollow w.registry r :=
      RegistryOp.exec_follow (show (RegistryOp.markCouncilVoting request.marketId).exec called
        w.registry = .ok r from hmark)
    exact Rewrites.keeps ⟨⟨request, hrequest, hopen⟩, rfl,
      (hw.requests requestId request hrequest).1, hfollow, Council.openCase_follow hopen'⟩ hw
  | reportCouncilOutcome requestId outcome =>
    obtain ⟨⟨request, hrewrites⟩, _⟩ := reportCouncilOutcome_rewrites hw h
    exact hrewrites.keeps hw

/-- A tally that is reported decides its case, its request and its market at once. -/
theorem finalizeAndReportCase_reported (hw : ResolutionInvariant w)
    (hreported : FinalizedReported w)
    {caseId : ℕ} {outcome : Outcome}
    (h : Council.finalizeAndReportCase ctx w caseId = .ok (outcome, w')) :
    ResolutionInvariant w' ∧ FinalizedReported w' := by
  unfold Council.finalizeAndReportCase at h
  obtain ⟨⟨outcome', c⟩, hfinal, h⟩ := bind_ok.mp h
  obtain ⟨case, hcase, h⟩ := bind_ok.mp h
  obtain ⟨oracle, _, h⟩ := bind_ok.mp h
  obtain ⟨called, _, h⟩ := bind_ok.mp h
  obtain ⟨w1, hreport, h⟩ := bind_ok.mp h
  obtain ⟨rfl, rfl⟩ := Prod.mk.inj (pure_ok.mp h)
  obtain ⟨before, hbefore, hopen, _, rfl, rfl⟩ := Council.finalizeCase_ok.mp hfinal
  have hw1 : ResolutionInvariant
      { w with council := Council.writeCase w.council (Council.finalized before) } :=
    ⟨hw.requests, hw.markets⟩
  obtain ⟨⟨request, hrewrites⟩, hcases, m, hrequest, hmarket⟩ :=
    reportCouncilOutcome_rewrites hw1 hreport
  obtain ⟨hw', hkeeps⟩ := hrewrites.keeps hw1
  refine ⟨hw', ?_⟩
  intro k stored hk hhas
  rw [hcases] at hk
  unfold Council.writeCase at hk
  dsimp only at hk
  rw [Store.set_get] at hk
  split at hk
  · obtain rfl := Option.some.inj hk
    rw [Council.readCase_finalized hbefore hcase] at hrequest
    exact ⟨m, hrequest, hmarket⟩
  · obtain ⟨m', hr, hm⟩ := hreported k stored hk hhas
    exact ⟨m', hkeeps.requests _ _ _ hr, hkeeps.markets _ _ hm⟩

end Steps

/-- Steps in which a tally does not go unreported. -/
def ResolutionStep.Reports : ResolutionStep → Prop
  | .council _ (.finalizeCase _) => False
  | _ => True

/-- Every step that reports its tally keeps every final case reported. -/
theorem step_reported {w w' : World} {i : ResolutionStep} (hi : i.Reports)
    (hw : ResolutionInvariant w ∧ FinalizedReported w) (h : resolutionSystem.step w i = .ok w') :
    ResolutionInvariant w' ∧ FinalizedReported w' := by
  obtain ⟨hinv, hreported⟩ := hw
  cases i with
  | council ctx op =>
    by_cases hreport : ∃ caseId, op = .finalizeAndReportCase caseId
    · obtain ⟨caseId, rfl⟩ := hreport
      obtain ⟨outcome, h⟩ := world_ok.mp h
      exact finalizeAndReportCase_reported hinv hreported h
    · have hop : ∀ caseId, op ≠ .finalizeCase caseId ∧ op ≠ .finalizeAndReportCase caseId := by
        intro caseId
        refine ⟨?_, fun hk => hreport ⟨caseId, hk⟩⟩
        rintro rfl
        exact hi
      obtain ⟨ho, hr, hkeeps⟩ := council_keeps h hop
      refine ⟨⟨?_, ?_⟩, hkeeps.reported hreported⟩
      · rw [ho]
        exact hinv.requests
      · rw [hr]
        exact hinv.markets
  | oracle ctx op =>
    obtain ⟨hinv', hkeeps⟩ := oracle_keeps hinv h
    exact ⟨hinv', hkeeps.reported hreported⟩
  | registry ctx op =>
    obtain ⟨r, hr, h⟩ := bind_ok.mp h
    obtain rfl := pure_ok.mp h
    have hfollow := RegistryOp.exec_follow hr
    have hkeeps : Keeps w { w with registry := r } :=
      ⟨cases_of_eq rfl, fun _ _ _ hk => hk, fun m outcome hm => hm.follow hinv.markets hfollow⟩
    exact ⟨⟨hinv.requests, hfollow.ordered hinv.markets⟩, hkeeps.reported hreported⟩
  | outside other =>
    obtain rfl := ok_ok.mp h
    exact ⟨⟨hinv.requests, hinv.markets⟩, hreported⟩

/-- In a run that never tallies a case without reporting it, every final case
is reported. -/
theorem finalizedReported_of_reports {w : World}
    (h : resolutionSystem.Guarded (fun _ step => step.Reports) w) : FinalizedReported w := by
  refine (h.invariant (I := fun w => ResolutionInvariant w ∧ FinalizedReported w) ?_ ?_).2
  · rintro w ⟨l, rfl⟩
    refine ⟨⟨?_, ?_, ?_⟩, ?_⟩
    · intro r request hr
      cases hr
    · intro m market hm
      cases hm
    · intro m market hm
      cases hm
    · intro k case hk
      cases hk
  · intro w i w' hw hi hs
    exact step_reported hi hw hs

/-- Every sample run starts from a deployment. -/
theorem sample_init : resolutionSystem.Init (deploy sampleLaunch) := ⟨sampleLaunch, rfl⟩

/-- Alice's outcome for market 1 is disputed by bob and goes to the council, each
with this bond. -/
def escalate (bond : ℤ) : List ResolutionStep :=
  [.registry byFactory (.registerMarket { sampleConfig with bondAmount := bond } 2 3 1),
    .registry byFactory (.activateMarket 1),
    .oracle ⟨1000, [], []⟩ (.requestResolution 1 0 "rules" 1000 bond 100),
    .oracle ⟨1000, [alice], []⟩ (.proposeOutcome alice 1 .yes "yes"),
    .oracle ⟨1000, [bob], []⟩ (.disputeOutcome bob 1 .no "no"),
    .oracle ⟨1000, [], []⟩ (.escalateToCouncil 1)]

/-- Nobody votes, and the tally is reported. -/
def reportedTally : List ResolutionStep :=
  escalate 10 ++ [.council ⟨1201, [], []⟩ (.finalizeAndReportCase 1)]

/-- The reported tally decides case, request and market. -/
theorem finalizedReported_after_report : ∃ w,
    resolutionSystem.runs (deploy sampleLaunch) reportedTally = .ok w ∧
      (∃ case, w.council.caseData 1 = some case ∧ case.hasFinalOutcome = true) ∧
      FinalizedReported w := by
  have hreports : ∀ step ∈ reportedTally, step.Reports := by
    simp [reportedTally, escalate, ResolutionStep.Reports]
  obtain ⟨w, hw, hcase⟩ := System.runs_of_decide (S := resolutionSystem) (deploy sampleLaunch)
    reportedTally
    (fun w => (w.council.caseData 1).map CouncilCase.hasFinalOutcome = some true)
    (by decide +kernel)
  obtain ⟨case, hk, hhas⟩ := Option.map_eq_some_iff.mp (of_decide_eq_true hcase)
  have hrun := System.Guarded.runs (.init sample_init) reportedTally hreports hw
  exact ⟨w, hw, ⟨case, hk, hhas⟩, finalizedReported_of_reports hrun⟩

/-- Nobody votes, and anyone invokes the tally alone. -/
def bareTally : List ResolutionStep :=
  escalate 10 ++ [.council ⟨1201, [], []⟩ (.finalizeCase 1)]

/-- After the bare tally the case is final and its request still escalated. -/
theorem not_always_finalizedReported :
    ¬∀ w, resolutionSystem.Reachable w → FinalizedReported w := by
  intro hall
  obtain ⟨w, hw, hstate⟩ := System.runs_of_decide (S := resolutionSystem) (deploy sampleLaunch)
    bareTally
    (fun w => (w.council.caseData 1).map (fun case => (case.hasFinalOutcome, case.requestId)) =
        some (true, 1) ∧
      (w.oracle.request 1).map ResolutionRequest.status = some .escalated) (by decide +kernel)
  obtain ⟨hcase, hrequest⟩ := of_decide_eq_true hstate
  obtain ⟨case, hk, hpair⟩ := Option.map_eq_some_iff.mp hcase
  obtain ⟨hhas, hid⟩ := Prod.mk.inj hpair
  have hreach := System.Reachable.runs (.init sample_init) bareTally hw
  obtain ⟨m, ⟨request, hr, _, hstatus, _⟩, _⟩ := hall w hreach 1 case hk hhas
  rw [hid] at hr
  rw [hr, Option.map_some, hstatus] at hrequest
  cases hrequest

end DikeProtocol.Resolution
