import DikeProtocol.Resolution.Standing
import DikeProtocol.Resolution.Votes

/-!
# Where a final outcome comes from

A market's final outcome is a proposal that nobody disputed in its window, or
the tally of the one case that the council opened for the dispute, with the two
sides as they stood. Whoever invokes the contracts, and in whatever order, no
outcome comes from anywhere else.
-/

namespace DikeProtocol.Council

open Lib

/-- What a case is about, without its votes and its outcome. -/
def matter (case : CouncilCase) : CouncilCase :=
  { case with
    status := .commitPhase
    hasFinalOutcome := false
    finalOutcome := Outcome.unset
    yesVotes := 0
    noVotes := 0
    invalidVotes := 0
    totalValidVotes := 0 }

/-- Cases go on: no case appears or is about something else, final ones stay, and
those that become final are tallied after their reveal window. -/
structure CasesGoOn (now : ℕ) (c c' : CouncilState) : Prop where
  requestCase : c'.requestCase = c.requestCase
  next : c'.nextCaseId = c.nextCaseId
  kept : ∀ k case, c.caseData k = some case → ∃ case', c'.caseData k = some case' ∧
    matter case' = matter case ∧ (case.hasFinalOutcome = true → case' = case) ∧
    (case'.hasFinalOutcome = true → case' = case ∨
      (case'.revealEnd < now ∧ case'.finalOutcome = tally case'))
  back : ∀ k, c.caseData k = none → c'.caseData k = none

/-- The same cases. -/
theorem CasesGoOn.same {now : ℕ} {c c' : CouncilState} (hcases : c'.caseData = c.caseData)
    (hrequest : c'.requestCase = c.requestCase) (hnext : c'.nextCaseId = c.nextCaseId) :
    CasesGoOn now c c' := by
  refine ⟨hrequest, hnext, ?_, ?_⟩
  · intro k case hk
    rw [hcases]
    exact ⟨case, hk, rfl, fun _ => rfl, fun _ => Or.inl rfl⟩
  · intro k hk
    rw [hcases]
    exact hk

/-- One case is written, under its own identifier and about the same. -/
theorem CasesGoOn.write {now : ℕ} {c c' : CouncilState} {k : ℕ} {case case' : CouncilCase}
    (hk : c.caseData k = some case) (hid : case'.id = k) (hmatter : matter case' = matter case)
    (hopen : case.hasFinalOutcome = false)
    (hfinal : case'.hasFinalOutcome = true →
      case'.revealEnd < now ∧ case'.finalOutcome = tally case')
    (hcases : c'.caseData = c.caseData.set k (some case'))
    (hrequest : c'.requestCase = c.requestCase) (hnext : c'.nextCaseId = c.nextCaseId) :
    CasesGoOn now c c' := by
  refine ⟨hrequest, hnext, ?_, ?_⟩
  · intro k' stored hk'
    rw [hcases, Store.set_get]
    split
    · next heq =>
      subst heq
      rw [hk] at hk'
      obtain rfl := Option.some.inj hk'
      refine ⟨case', rfl, hmatter, fun hf => ?_, fun hf => Or.inr (hfinal hf)⟩
      rw [hopen] at hf
      cases hf
    · exact ⟨stored, hk', rfl, fun _ => rfl, fun _ => Or.inl rfl⟩
  · intro k' hk'
    have hne : k' ≠ k := by
      rintro rfl
      rw [hk] at hk'
      cases hk'
    rw [hcases, Store.set_get_of_ne _ _ hne]
    exact hk'

/-- It has the same identifier and request. -/
theorem matter_id {case case' : CouncilCase} (h : matter case' = matter case) :
    case'.id = case.id ∧ case'.requestId = case.requestId := by
  have hid := congrArg CouncilCase.id h
  have hrequest := congrArg CouncilCase.requestId h
  exact ⟨hid, hrequest⟩

/-- A counted vote leaves what the case is about. -/
theorem withVote_matter {case case' : CouncilCase} {outcome : Outcome}
    (h : withVote case outcome = .ok case') : matter case' = matter case := by
  obtain ⟨counted, hcounted, h⟩ := bind_ok.mp h
  obtain ⟨_, _, h⟩ := bind_ok.mp h
  obtain rfl := pure_ok.mp h
  cases outcome with
  | yes | no | invalid =>
    obtain ⟨_, _, hcounted⟩ := bind_ok.mp hcounted
    obtain rfl := pure_ok.mp hcounted
    rfl

/-- A revealed vote lets the cases go on: the case is not final yet. -/
theorem revealVote_goOn {ctx : Ctx} {host : Host} {c c' : CouncilState} {voter : Address} {k : ℕ}
    {outcome : Outcome} {salt : Hash} (hids : ∀ k case, c.caseData k = some case → case.id = k)
    (hlate : ∀ k case, c.caseData k = some case → case.hasFinalOutcome = true →
      case.revealEnd < ctx.now)
    (h : revealVote ctx host c voter k outcome salt = .ok c') : CasesGoOn ctx.now c c' := by
  obtain ⟨_, _, h⟩ := bind_ok.mp h
  obtain ⟨_, _, h⟩ := bind_ok.mp h
  obtain ⟨case, hcase, h⟩ := bind_ok.mp h
  obtain ⟨_, hwindow, h⟩ := bind_ok.mp h
  obtain ⟨_, _, h⟩ := bind_ok.mp h
  obtain ⟨_, _, h⟩ := bind_ok.mp h
  obtain ⟨_, _, h⟩ := bind_ok.mp h
  obtain ⟨case', hvote, h⟩ := bind_ok.mp h
  obtain rfl := pure_ok.mp h
  have hk := orFault_ok.mp hcase
  obtain ⟨hid, _, hhas, _⟩ := withVote_ok hvote
  have hopen : case.hasFinalOutcome = false := by
    by_contra hf
    exact (refuse_ok.mp hwindow) (Or.inr (hlate k case hk (Bool.not_eq_false _ ▸ hf)))
  have hcid := hid.trans (hids k case hk)
  refine .write hk hcid (withVote_matter hvote) hopen (fun hf => ?_) ?_ rfl rfl
  · rw [hhas, hopen] at hf
    cases hf
  · rw [← hcid]
    rfl

/-- A tally lets the cases go on. -/
theorem finalizeCase_goOn {ctx : Ctx} {c c' : CouncilState} {k : ℕ} {outcome : Outcome}
    (hids : ∀ k case, c.caseData k = some case → case.id = k)
    (h : finalizeCase ctx c k = .ok (outcome, c')) : CasesGoOn ctx.now c c' := by
  obtain ⟨case, hk, hopen, hlate, _, rfl⟩ := finalizeCase_ok.mp h
  have hid : (finalized case).id = k := hids k case hk
  refine .write hk hid rfl hopen (fun _ => ⟨hlate, rfl⟩) ?_ rfl rfl
  rw [← hid]
  rfl

/-- The operation opens a case. -/
def CouncilOp.Opens : CouncilOp → Prop
  | openCase .. => True
  | _ => False

/-- What the council does on its own lets the cases go on. -/
theorem CouncilOp.exec_goOn {ctx : Ctx} {w w' : World} {op : CouncilOp}
    (hids : ∀ k case, w.council.caseData k = some case → case.id = k)
    (hlate : ∀ k case, w.council.caseData k = some case → case.hasFinalOutcome = true →
      case.revealEnd < ctx.now)
    (hop : ∀ caseId, op ≠ .finalizeAndReportCase caseId) (hopen : ¬op.Opens)
    (h : op.exec ctx w = .ok w') : CasesGoOn ctx.now w.council w'.council := by
  have hsetting : op.isSetting = true → CasesGoOn ctx.now w.council w'.council := by
    intro hset
    obtain ⟨admin, roles, member, paused, rfl⟩ := CouncilOp.exec_setting hset h
    exact .same rfl rfl rfl
  have hmoves := CouncilOp.exec_moves h
  cases op with
  | setAdmin | upgrade | setRole | setMember | pause => exact hsetting rfl
  | openCase => exact absurd trivial hopen
  | finalizeAndReportCase caseId => exact absurd rfl (hop caseId)
  | revealVote =>
    obtain ⟨c, hc, h⟩ := bind_ok.mp h
    obtain rfl := pure_ok.mp h
    exact revealVote_goOn hids hlate hc
  | finalizeCase =>
    obtain ⟨c, hc, h⟩ := bind_ok.mp h
    obtain ⟨⟨outcome, c1⟩, hfinal, hc⟩ := bind_ok.mp hc
    obtain rfl := pure_ok.mp h
    obtain rfl := pure_ok.mp hc
    exact finalizeCase_goOn hids hfinal
  | recordCaseReward | commitVote | claimReward | sweepCaseReward =>
    generalize he : eventOf ctx w _ = e at hmoves
    cases hmoves with
    | commits | records | claims | sweeps => exact .same rfl rfl rfl
    | settings | opens | reveals | decides => cases he

end DikeProtocol.Council

namespace DikeProtocol.Resolution

open Lib
open Council (CouncilOp CasesGoOn matter newCase)
open Oracle (OracleOp caseConfig)
open Registry (RegistryOp MarketsFollow Ordered)

/-- A case is about this request: the market, the two sides, the bonds and the windows. -/
def Hears (case : CouncilCase) (request : ResolutionRequest) : Prop :=
  ∃ now market, matter case = newCase now case.id request.id request.marketId request.proposer
    request.proposedOutcome request.proposalEvidenceUri request.disputer request.disputedOutcome
    request.disputeEvidenceUri (caseConfig request market)

/-- A proposal was final once its window had passed without a dispute. -/
structure DecidedByProposal (now : ℕ) (request : ResolutionRequest) : Prop where
  proposed : request.hasProposal = true
  undisputed : request.hasDispute = false
  passed : request.proposedAt + request.disputeWindow < now
  outcome : request.finalOutcome = request.proposedOutcome

/-- The council decided on a dispute. -/
structure DecidedByCouncil (now : ℕ) (c : CouncilState) (request : ResolutionRequest) (k : ℕ)
    (case : CouncilCase) : Prop where
  proposed : request.hasProposal = true
  disputed : request.hasDispute = true
  opened : c.requestCase request.id = some k
  stored : c.caseData k = some case
  hears : Hears case request
  passed : case.revealEnd < now
  decided : case.hasFinalOutcome = true
  tallied : case.finalOutcome = Council.tally case
  outcome : request.finalOutcome = case.finalOutcome

/-- What every case and every final request rests on. -/
structure Heard (now : ℕ) (w : World) : Prop where
  cases : ∀ k case, w.council.caseData k = some case → case.id = k ∧ k < w.council.nextCaseId ∧
    w.council.requestCase case.requestId = some k ∧
    ∃ request, w.oracle.request case.requestId = some request ∧ request.hasDispute = true ∧
      (request.status = .escalated ∨ request.status = .finalized) ∧ Hears case request
  concluded : ∀ k case, w.council.caseData k = some case → case.hasFinalOutcome = true →
    case.revealEnd < now ∧ case.finalOutcome = Council.tally case
  proposed : ∀ r request, w.oracle.request r = some request → request.status ≠ .requested →
    request.hasProposal = true
  disputed : ∀ r request, w.oracle.request r = some request → request.status = .disputed →
    request.hasDispute = true
  final : ∀ r request, w.oracle.request r = some request → request.status = .finalized →
    DecidedByProposal now request ∨ ∃ k case, DecidedByCouncil now w.council request k case

section Heard

variable {now now' : ℕ} {ctx : Ctx} {w w' : World}

/-- A case that goes on is about the same request. -/
theorem Hears.of_matter {case case' : CouncilCase} {request : ResolutionRequest}
    (h : Hears case request) (hmatter : matter case' = matter case) : Hears case' request := by
  obtain ⟨t, market, hears⟩ := h
  exact ⟨t, market, by rw [hmatter, (Council.matter_id hmatter).1, hears]⟩

/-- What the council decided stays decided. -/
theorem DecidedByCouncil.goOn {c c' : CouncilState} {request : ResolutionRequest} {k : ℕ}
    {case : CouncilCase} (h : DecidedByCouncil now c request k case) (hgo : CasesGoOn now' c c')
    (hnow : now ≤ now') : DecidedByCouncil now' c' request k case := by
  obtain ⟨case', hk, _, hsame, _⟩ := hgo.kept k case h.stored
  obtain rfl := hsame h.decided
  refine { h with opened := ?_, stored := hk, passed := h.passed.trans_le hnow }
  rw [hgo.requestCase]
  exact h.opened

/-- The council goes on; requests stay. -/
theorem Heard.goOn (h : Heard now w) (hnow : now ≤ now')
    (hgo : CasesGoOn now' w.council w'.council) (hrequest : w'.oracle.request = w.oracle.request) :
    Heard now' w' where
  cases := by
    intro k case' hk'
    cases hk : w.council.caseData k with
    | none =>
      rw [hgo.back k hk] at hk'
      cases hk'
    | some case =>
      obtain ⟨next, hnext, hmatter, _⟩ := hgo.kept k case hk
      rw [hk'] at hnext
      obtain rfl := Option.some.inj hnext
      obtain ⟨hid, hreq⟩ := Council.matter_id hmatter
      obtain ⟨hcid, hlt, hopened, request, hr, hdispute, hstatus, hears⟩ := h.cases k case hk
      rw [hid, hreq, hgo.next, hgo.requestCase, hrequest]
      exact ⟨hcid, hlt, hopened, request, hr, hdispute, hstatus, hears.of_matter hmatter⟩
  concluded := by
    intro k case' hk' hfinal
    cases hk : w.council.caseData k with
    | none =>
      rw [hgo.back k hk] at hk'
      cases hk'
    | some case =>
      obtain ⟨next, hnext, _, _, hlate⟩ := hgo.kept k case hk
      rw [hk'] at hnext
      obtain rfl := Option.some.inj hnext
      rcases hlate hfinal with rfl | hlate
      · obtain ⟨hpast, htally⟩ := h.concluded k case' hk hfinal
        exact ⟨hpast.trans_le hnow, htally⟩
      · exact hlate
  proposed := by
    rw [hrequest]
    exact h.proposed
  disputed := by
    rw [hrequest]
    exact h.disputed
  final := by
    intro r request hr hstatus
    rw [hrequest] at hr
    rcases h.final r request hr hstatus with hproposal | ⟨k, case, hcouncil⟩
    · exact Or.inl { hproposal with passed := hproposal.passed.trans_le hnow }
    · exact Or.inr ⟨k, case, hcouncil.goOn hgo hnow⟩

/-- A request that no case is about is written; the council stays. -/
theorem Heard.rewrite (h : Heard now w) (hnow : now ≤ now') {k : ℕ}
    {before after : ResolutionRequest} (hk : w.oracle.request k = some before)
    (hopen : before.status ≠ .escalated ∧ before.status ≠ .finalized)
    (hwritten : w'.oracle = Oracle.writeRequest w.oracle after) (hid : after.id = k)
    (hcouncil : w'.council = w.council)
    (hproposed : after.status ≠ .requested → after.hasProposal = true)
    (hdisputed : after.status = .disputed → after.hasDispute = true)
    (hfinal : after.status = .finalized → DecidedByProposal now' after) : Heard now' w' := by
  have hrequest : w'.oracle.request = w.oracle.request.set k (some after) := by
    rw [hwritten, ← hid]
    rfl
  refine ⟨?_, ?_, ?_, ?_, ?_⟩
  · intro i case hi
    rw [hcouncil] at hi ⊢
    obtain ⟨hcid, hlt, hopened, request, hr, hdispute, hstatus, hears⟩ := h.cases i case hi
    have hne : case.requestId ≠ k := by
      rintro heq
      rw [heq, hk] at hr
      obtain rfl := Option.some.inj hr
      exact hstatus.elim hopen.1 hopen.2
    rw [hrequest, Store.set_get_of_ne _ _ hne]
    exact ⟨hcid, hlt, hopened, request, hr, hdispute, hstatus, hears⟩
  · intro i case hi hfin
    rw [hcouncil] at hi
    obtain ⟨hpast, htally⟩ := h.concluded i case hi hfin
    exact ⟨hpast.trans_le hnow, htally⟩
  · intro r request hr
    rw [hrequest, Store.set_get] at hr
    split at hr
    · obtain rfl := Option.some.inj hr
      exact hproposed
    · exact h.proposed r request hr
  · intro r request hr
    rw [hrequest, Store.set_get] at hr
    split at hr
    · obtain rfl := Option.some.inj hr
      exact hdisputed
    · exact h.disputed r request hr
  · intro r request hr hstatus
    rw [hrequest, Store.set_get] at hr
    split at hr
    · obtain rfl := Option.some.inj hr
      exact Or.inl (hfinal hstatus)
    · rcases h.final r request hr hstatus with hproposal | ⟨i, case, hdecided⟩
      · exact Or.inl { hproposal with passed := hproposal.passed.trans_le hnow }
      · rw [hcouncil]
        exact Or.inr ⟨i, case, { hdecided with passed := hdecided.passed.trans_le hnow }⟩

/-- A new request is stored. -/
theorem Heard.start (h : Heard now w) (hnow : now ≤ now') (ho : RequestsOrdered w.oracle)
    {request : ResolutionRequest} (hstatus : request.status = .requested)
    (hrequest : w'.oracle.request = w.oracle.request.set w.oracle.nextRequestId (some request))
    (hcouncil : w'.council = w.council) : Heard now' w' where
  cases := by
    intro i case hi
    rw [hcouncil] at hi ⊢
    obtain ⟨hcid, hlt, hopened, stored, hr, hdispute, hstored, hears⟩ := h.cases i case hi
    have hne : case.requestId ≠ w.oracle.nextRequestId := Nat.ne_of_lt (ho _ stored hr).2
    rw [hrequest, Store.set_get_of_ne _ _ hne]
    exact ⟨hcid, hlt, hopened, stored, hr, hdispute, hstored, hears⟩
  concluded := by
    intro i case hi hfin
    rw [hcouncil] at hi
    obtain ⟨hpast, htally⟩ := h.concluded i case hi hfin
    exact ⟨hpast.trans_le hnow, htally⟩
  proposed := by
    intro r stored hr
    rw [hrequest, Store.set_get] at hr
    split at hr
    · obtain rfl := Option.some.inj hr
      exact fun hk => absurd hstatus hk
    · exact h.proposed r stored hr
  disputed := by
    intro r stored hr
    rw [hrequest, Store.set_get] at hr
    split at hr
    · obtain rfl := Option.some.inj hr
      exact fun hk => absurd (hstatus.symm.trans hk) (by decide)
    · exact h.disputed r stored hr
  final := by
    intro r stored hr hfin
    rw [hrequest, Store.set_get] at hr
    split at hr
    · obtain rfl := Option.some.inj hr
      exact absurd (hstatus.symm.trans hfin) (by decide)
    · rcases h.final r stored hr hfin with hproposal | ⟨i, case, hdecided⟩
      · exact Or.inl { hproposal with passed := hproposal.passed.trans_le hnow }
      · rw [hcouncil]
        exact Or.inr ⟨i, case, { hdecided with passed := hdecided.passed.trans_le hnow }⟩

/-- An escalation opens the case of the dispute. -/
theorem Heard.escalate (h : Heard now w) (hnow : now ≤ ctx.now) (ho : RequestsOrdered w.oracle)
    {k : ℕ} (hexec : Oracle.escalateToCouncil ctx w k = .ok w') : Heard ctx.now w' := by
  obtain ⟨request, market, called, caseId, c, r, hk, hstatus, _, hopen, _, rfl⟩ :=
    Oracle.escalateToCouncil_steps hexec
  obtain ⟨_, _, _, hfresh, _, _, _, rfl⟩ := Council.openCase_ok.mp hopen
  have hid := (ho k request hk).1
  subst hid
  have hother : ∀ i case, w.council.caseData i = some case → case.requestId ≠ request.id := by
    intro i case hi heq
    obtain ⟨_, _, hopened, _⟩ := h.cases i case hi
    rw [heq, hfresh] at hopened
    cases hopened
  have hget : ∀ i case, (w.council.caseData.set w.council.nextCaseId (some (newCase ctx.now
      w.council.nextCaseId request.id request.marketId request.proposer request.proposedOutcome
      request.proposalEvidenceUri request.disputer request.disputedOutcome
      request.disputeEvidenceUri (caseConfig request market)))) i = some case →
      (i = w.council.nextCaseId ∧ case = newCase ctx.now w.council.nextCaseId request.id
        request.marketId request.proposer request.proposedOutcome request.proposalEvidenceUri
        request.disputer request.disputedOutcome request.disputeEvidenceUri
        (caseConfig request market)) ∨ w.council.caseData i = some case := by
    intro i case hi
    rw [Store.set_get] at hi
    split at hi
    · next heq => exact Or.inl ⟨heq, (Option.some.inj hi).symm⟩
    · exact Or.inr hi
  refine ⟨?_, ?_, ?_, ?_, ?_⟩
  · intro i case hi
    rcases hget i case hi with ⟨rfl, rfl⟩ | hold
    · refine ⟨rfl, Nat.lt_succ_self _, Store.set_get_self _ _ _, _, Store.set_get_self _ _ _,
        h.disputed request.id request hk hstatus, Or.inl rfl, ctx.now, market, rfl⟩
    · obtain ⟨hcid, hlt, hopened, stored, hr, hdispute, hstored, hears⟩ := h.cases i case hold
      have hne := hother i case hold
      refine ⟨hcid, Nat.lt_succ_of_lt hlt, ?_, stored, ?_, hdispute, hstored, hears⟩
      · dsimp only
        rw [Store.set_get_of_ne _ _ hne]
        exact hopened
      · dsimp only [Oracle.writeRequest]
        rw [Store.set_get_of_ne _ _ hne]
        exact hr
  · intro i case hi hfin
    rcases hget i case hi with ⟨rfl, rfl⟩ | hold
    · cases hfin
    · obtain ⟨hpast, htally⟩ := h.concluded i case hold hfin
      exact ⟨hpast.trans_le hnow, htally⟩
  · intro i stored hi
    dsimp only [Oracle.writeRequest] at hi
    rw [Store.set_get] at hi
    split at hi
    · obtain rfl := Option.some.inj hi
      refine fun _ => h.proposed request.id request hk ?_
      rw [hstatus]
      decide
    · exact h.proposed i stored hi
  · intro i stored hi
    dsimp only [Oracle.writeRequest] at hi
    rw [Store.set_get] at hi
    split at hi
    · obtain rfl := Option.some.inj hi
      exact fun hk => nomatch hk
    · exact h.disputed i stored hi
  · intro i stored hi hfin
    dsimp only [Oracle.writeRequest] at hi
    rw [Store.set_get] at hi
    split at hi
    · obtain rfl := Option.some.inj hi
      cases hfin
    · next hne =>
      have hsid := (ho i stored hi).1
      rcases h.final i stored hi hfin with hproposal | ⟨j, case, hdecided⟩
      · exact Or.inl { hproposal with passed := hproposal.passed.trans_le hnow }
      · refine Or.inr ⟨j, case, { hdecided with
          opened := ?_, stored := ?_, passed := hdecided.passed.trans_le hnow }⟩
        · dsimp only
          rw [hsid, Store.set_get_of_ne _ _ hne, ← hsid]
          exact hdecided.opened
        · have hlt := (h.cases j case hdecided.stored).2.1
          dsimp only [Council.writeCase, newCase]
          rw [Store.set_get_of_ne _ _ (Nat.ne_of_lt hlt)]
          exact hdecided.stored

/-- A reported tally finalizes the request its case is about. -/
theorem Heard.report (h : Heard now w) (ho : RequestsOrdered w.oracle) {k : ℕ}
    {case : CouncilCase} {outcome : Outcome} (hcase : w.council.caseData k = some case)
    (hdecided : case.hasFinalOutcome = true) (houtcome : case.finalOutcome = outcome)
    (hexec : Oracle.reportCouncilOutcome ctx w case.requestId outcome = .ok w') :
    Heard now w' := by
  obtain ⟨request, market, w1, called, r, hk, hstatus, _, hdivide, _, rfl⟩ :=
    Oracle.reportCouncilOutcome_steps hexec
  obtain ⟨pool, hcouncil⟩ := (Oracle.BondsOnly.divideBonds hdivide).council
  have hid := (ho _ request hk).1
  have hcases : w1.council.caseData = w.council.caseData := by rw [hcouncil]
  have hopened : w1.council.requestCase = w.council.requestCase := by rw [hcouncil]
  have hnext : w1.council.nextCaseId = w.council.nextCaseId := by rw [hcouncil]
  obtain ⟨_, _, hown, heard, hr, hdispute, _, hears⟩ := h.cases k case hcase
  rw [hk] at hr
  obtain rfl := Option.some.inj hr
  obtain ⟨hpast, htally⟩ := h.concluded k case hcase hdecided
  have hproposed := h.proposed _ request hk (by rw [hstatus]; decide)
  have hkept : ∀ stored i j, DecidedByCouncil now w.council stored i j →
      DecidedByCouncil now w1.council stored i j := by
    intro stored i j hdone
    refine { hdone with opened := ?_, stored := ?_ }
    · rw [hopened]
      exact hdone.opened
    · rw [hcases]
      exact hdone.stored
  refine ⟨?_, ?_, ?_, ?_, ?_⟩
  · intro i other hi
    dsimp only [Oracle.writeRequest, Oracle.finalized] at hi ⊢
    rw [hcases] at hi
    rw [hnext, hopened, Store.set_get]
    obtain ⟨hcid, hlt, hother, stored, hr, hdisputed, hstored, hhears⟩ := h.cases i other hi
    refine ⟨hcid, hlt, hother, ?_⟩
    split
    · next heq =>
      rw [heq, hid, hk] at hr
      obtain rfl := Option.some.inj hr
      exact ⟨_, rfl, hdisputed, Or.inr rfl, hhears⟩
    · exact ⟨stored, hr, hdisputed, hstored, hhears⟩
  · intro i other hi
    dsimp only at hi
    rw [hcases] at hi
    exact h.concluded i other hi
  · intro r stored hr
    dsimp only [Oracle.writeRequest, Oracle.finalized] at hr
    rw [Store.set_get] at hr
    split at hr
    · obtain rfl := Option.some.inj hr
      exact fun _ => hproposed
    · exact h.proposed r stored hr
  · intro r stored hr
    dsimp only [Oracle.writeRequest, Oracle.finalized] at hr
    rw [Store.set_get] at hr
    split at hr
    · obtain rfl := Option.some.inj hr
      exact fun hk => nomatch hk
    · exact h.disputed r stored hr
  · intro r stored hr hfin
    dsimp only [Oracle.writeRequest, Oracle.finalized] at hr
    rw [Store.set_get] at hr
    split at hr
    · obtain rfl := Option.some.inj hr
      refine Or.inr ⟨k, case, hkept _ _ _ ⟨hproposed, hdispute, ?_, hcase, hears, hpast, hdecided,
        htally, houtcome.symm⟩⟩
      dsimp only
      rw [hid]
      exact hown
    · rcases h.final r stored hr hfin with hproposal | ⟨i, other, hdone⟩
      · exact Or.inl hproposal
      · exact Or.inr ⟨i, other, hkept stored i other hdone⟩

/-- An invocation of the oracle from outside the council. -/
theorem oracle_heard (h : Heard now w) (hnow : now ≤ ctx.now) (hlock : Lockstep w)
    (hctx : Vault.Outside .council ctx)
    (hcouncil : w.oracle.roles .council = some (.contract .council)) {op : OracleOp}
    (hexec : op.exec ctx w = .ok w') : Heard ctx.now w' := by
  have hsame : CasesGoOn ctx.now w.council w.council := .same rfl rfl rfl
  have ho := hlock.requests
  have hsetting : op.isSetting = true → Heard ctx.now w' := by
    intro hset
    obtain ⟨admin, roles, paused, rfl⟩ := OracleOp.exec_setting hset hexec
    exact h.goOn hnow hsame rfl
  cases op with
  | setAdmin | upgrade | setRole | pause => exact hsetting rfl
  | requestResolution m questionHash rulesUri expiry bondAmount disputeWindow =>
    obtain ⟨requestId, hexec⟩ := world_ok.mp hexec
    obtain ⟨r1, r2, called, _, _, rfl, _, _, _, rfl⟩ := Oracle.requestResolution_steps hexec
    exact h.start hnow ho rfl rfl rfl
  | proposeOutcome proposer k outcome uri =>
    obtain ⟨request, market, w1, called, r, hk, hstatus, _, _, _, hlocked, _, rfl⟩ :=
      Oracle.proposeOutcome_steps hexec
    obtain ⟨_, _, b, _, _, rfl⟩ := Vault.lockBond_ok hlocked
    have hopen : request.status ≠ .escalated ∧ request.status ≠ .finalized := by
      rw [hstatus]
      decide
    refine h.rewrite hnow hk hopen rfl (ho k request hk).1 rfl ?_ ?_ ?_
    · exact fun _ => rfl
    · exact fun hk => nomatch hk
    · exact fun hk => nomatch hk
  | disputeOutcome disputer k outcome uri =>
    obtain ⟨request, market, w1, called, r, hk, hstatus, _, _, _, _, hlocked, _, rfl⟩ :=
      Oracle.disputeOutcome_steps hexec
    obtain ⟨_, _, b, _, _, rfl⟩ := Vault.lockBond_ok hlocked
    have hopen : request.status ≠ .escalated ∧ request.status ≠ .finalized := by
      rw [hstatus]
      decide
    have hproposed := h.proposed k request hk (by rw [hstatus]; decide)
    refine h.rewrite hnow hk hopen rfl (ho k request hk).1 rfl ?_ ?_ ?_
    · exact fun _ => hproposed
    · exact fun _ => rfl
    · exact fun hk => nomatch hk
  | finalizeUndisputed k =>
    obtain ⟨outcome, hexec⟩ := world_ok.mp hexec
    obtain ⟨request, market, called, r, w1, hk, hstatus, rfl, hpassed, _, _, hpay, rfl⟩ :=
      Oracle.finalizeUndisputed_steps hexec
    obtain ⟨_, _, p, left, b, _, _, _, _, _, rfl⟩ := Vault.payBond_ok.mp hpay
    obtain ⟨_, _, hpaired⟩ := hlock.paired k request hk
    have hanswered : ¬Answered request := by
      unfold Answered
      rw [hstatus]
      decide
    have hopen : request.status ≠ .escalated ∧ request.status ≠ .finalized := by
      rw [hstatus]
      decide
    have hproposed := h.proposed k request hk (by rw [hstatus]; decide)
    refine h.rewrite hnow hk hopen rfl (ho k request hk).1 rfl ?_ ?_ ?_
    · exact fun _ => hproposed
    · exact fun hk => nomatch hk
    · exact fun _ => ⟨hproposed, hpaired.undisputed hanswered, hpassed, rfl⟩
  | escalateToCouncil k => exact h.escalate hnow ho hexec
  | reportCouncilOutcome k outcome =>
    obtain ⟨_, hauth, _⟩ := bind_ok.mp hexec
    exact absurd hauth (Trading.requireRole_outside hctx hcouncil)

/-- Every move of a run that moves early markets only and rewires nothing. -/
theorem CourtMove.heard (h : Heard now w) (hnow : now ≤ ctx.now) (hctx : Apart ctx)
    (hw : Standing w) {op : CourtOp} (hmove : CourtMove ctx w op w') : Heard ctx.now w' := by
  have hids : ∀ k case, w.council.caseData k = some case → case.id = k :=
    fun k case hk => (h.cases k case hk).1
  have hlate : ∀ k case, w.council.caseData k = some case → case.hasFinalOutcome = true →
      case.revealEnd < ctx.now :=
    fun k case hk hfin => (h.concluded k case hk hfin).1.trans_le hnow
  cases hmove with
  | @council op w' hop horacle _ _ hexec =>
    by_cases hopen : op.Opens
    · cases op with
      | openCase =>
        obtain ⟨c, hc, _⟩ := bind_ok.mp hexec
        obtain ⟨_, hc, _⟩ := bind_ok.mp hc
        obtain ⟨_, hauth, _⟩ := bind_ok.mp hc
        exact absurd hauth (Trading.requireRole_outside hctx.2.1 hw.ready.wired.councilOracle)
      | _ => exact hopen.elim
    · exact h.goOn hnow (CouncilOp.exec_goOn hids hlate hop hopen hexec) (by rw [horacle])
  | @tally caseId c case outcome _ hfinal hcase hreport =>
    have hgo := Council.finalizeCase_goOn hids hfinal
    have hheard : Heard ctx.now { w with council := c } := h.goOn hnow hgo rfl
    obtain ⟨before, hbefore, _, _, rfl, rfl⟩ := Council.finalizeCase_ok.mp hfinal
    have htallied : (Council.writeCase w.council (Council.finalized before)).caseData caseId =
        some (Council.finalized before) := by
      rw [← hids caseId before hbefore]
      exact Store.set_get_self _ _ _
    have hsame : Council.finalized before = case := Option.some.inj (htallied.symm.trans hcase)
    refine hheard.report hw.lockstep.requests hcase ?_ ?_ hreport
    · rw [← hsame]
      rfl
    · rw [← hsame]
      rfl
  | oracle hexec => exact oracle_heard h hnow hw.lockstep hctx.1 hw.ready.wired.oracleCouncil hexec
  | registry hexec => exact h.goOn hnow (.same rfl rfl rfl) rfl
  | vault horacle _ hcouncil _ =>
    exact h.goOn hnow (.same (by rw [hcouncil]) (by rw [hcouncil]) (by rw [hcouncil]))
      (by rw [horacle])

/-- A deployment has neither cases nor requests. -/
theorem Heard.deployed (l : Launch) (now : ℕ) : Heard now (deploy l) := by
  have hcases : ∀ k, (deploy l).council.caseData k = none := fun _ => rfl
  have hrequests : ∀ r, (deploy l).oracle.request r = none := fun _ => rfl
  refine ⟨?_, ?_, ?_, ?_, ?_⟩
  · intro k case hk
    rw [hcases] at hk
    cases hk
  · intro k case hk
    rw [hcases] at hk
    cases hk
  · intro r request hr
    rw [hrequests] at hr
    cases hr
  · intro r request hr
    rw [hrequests] at hr
    cases hr
  · intro r request hr
    rw [hrequests] at hr
    cases hr

end Heard

/-- Where the outcome of a resolved market comes from. -/
structure Justified (now : ℕ) (w : World) (m : MarketId) (market : MarketData)
    (request : ResolutionRequest) : Prop where
  final : market.hasFinalOutcome = true
  asked : w.oracle.request market.requestId = some request
  owner : request.marketId = m
  outcome : market.finalOutcome = request.finalOutcome
  source : DecidedByProposal now request ∨ ∃ k case, DecidedByCouncil now w.council request k case

/-- In every run that moves early markets only and rewires nothing, a resolved
market has the outcome that was proposed and left undisputed until the window
had passed, or the tally of the case the council opened for its dispute. -/
theorem resolved_justified {s : World × ℕ} (h : court.Guarded
    (fun s step => step.GovernsEarly s.1 ∧ step.KeepsWires) s) {m : MarketId}
    {market : MarketData} (hm : s.1.registry.market m = some market)
    (hresolved : market.status = .resolved) : ∃ request, Justified s.2 s.1 m market request := by
  have hheard : Heard s.2 s.1 := by
    refine h.invariant_with (J := fun s => Standing s.1) (I := fun s => Heard s.2 s.1)
      (fun s hs => (standing_runs hs).1) ?_ ?_
    · rintro ⟨w, now⟩ ⟨l, rfl⟩
      exact .deployed l now
    · intro s step s' hs hheard _ hstep
      rcases court_step hstep with ⟨ctx, op, rfl, hapart, hnow, _, htime, hmove⟩ | ⟨_, rfl, rfl⟩
      · rw [htime]
        exact hmove.heard hheard hnow hapart hs
      · exact hheard.goOn le_rfl (.same rfl rfl rfl) rfl
  have hlock := (standing_runs h).1.lockstep
  rcases hlock.asked m market hm with hunasked | ⟨request, hr, rfl⟩
  · have hearly := hunasked.early
    rw [hresolved] at hearly
    simp at hearly
  · obtain ⟨market', hm', hpaired⟩ := hlock.paired _ request hr
    rw [hm] at hm'
    obtain rfl := Option.some.inj hm'
    have hfinal : request.status = .finalized := by
      have hstatus := hpaired.status
      rw [hresolved] at hstatus
      cases hs : request.status <;> rw [hs] at hstatus <;> first | rfl | cases hstatus
    obtain ⟨_, hhas, hsame⟩ := hpaired.outcome hfinal
    exact ⟨request, hhas, hr, rfl, hsame, hheard.final _ request hr hfinal⟩

/-- A dispute nobody votes on. -/
def unvotedDispute : List CourtStep :=
  [.call byFactory (.registry (.registerMarket sampleConfig 2 3 1)),
    .call byFactory (.registry (.activateMarket 1)),
    .call ⟨1000, [], []⟩ (.oracle (.requestResolution 1 0 "rules" 1000 10 100)),
    .call ⟨1000, [alice], []⟩ (.oracle (.proposeOutcome alice 1 .yes "yes")),
    .call ⟨1000, [bob], []⟩ (.oracle (.disputeOutcome bob 1 .no "no")),
    .call ⟨1000, [], []⟩ (.oracle (.escalateToCouncil 1)),
    .call ⟨1201, [], []⟩ (.council (.finalizeAndReportCase 1))]

/-- Its market is resolved as the council tallied. -/
theorem resolved_justified_after_dispute : ∃ s market request,
    court.runs (deploy sampleLaunch, 0) unvotedDispute = .ok s ∧
      market.finalOutcome = .invalid ∧ Justified s.2 s.1 1 market request := by
  have hguard : ∀ step ∈ unvotedDispute, (∀ w, step.GovernsEarly w) ∧ step.KeepsWires := by
    simp [unvotedDispute, CourtStep.GovernsEarly, GovernsEarly, CourtStep.KeepsWires]
  obtain ⟨s, hs, hcheck⟩ := System.runs_of_decide (S := court) (deploy sampleLaunch, 0)
    unvotedDispute
    (fun s => (s.1.registry.market 1).map (fun market => (market.status, market.finalOutcome)) =
      some (.resolved, .invalid))
    (by decide +kernel)
  obtain ⟨market, hm, hpair⟩ := Option.map_eq_some_iff.mp (of_decide_eq_true hcheck)
  obtain ⟨hresolved, hinvalid⟩ := Prod.mk.inj hpair
  have hrun : court.Guarded (fun _ step => (∀ w, step.GovernsEarly w) ∧ step.KeepsWires) s :=
    System.Guarded.runs (.init ⟨sampleLaunch, rfl⟩) unvotedDispute hguard hs
  obtain ⟨request, hjustified⟩ :=
    resolved_justified (hrun.mono (fun s _ hok => ⟨hok.1 s.1, hok.2⟩)) hm hresolved
  exact ⟨s, market, request, hs, hinvalid, hjustified⟩

end DikeProtocol.Resolution
