import DikeProtocol.FeeManager

/-!
# Council

Members commit to a vote on a disputed request, reveal it in a second window,
and the case is tallied once that window is over. The share of the lost bond
that the oracle hands over rewards the members who voted with the outcome.
-/

namespace DikeProtocol.Council

open Lib

/-- Read a case that must exist. -/
def readCase (c : CouncilState) (caseId : ℕ) : Res CouncilCase :=
  orFault (c.caseData caseId) (.error .caseNotFound)

/-- Store a case under its own identifier. -/
def writeCase (c : CouncilState) (case : CouncilCase) : CouncilState :=
  { c with caseData := c.caseData.set case.id (some case) }

/-- A voter must be an approved member and authorize the invocation. -/
def requireMember (ctx : Ctx) (c : CouncilState) (voter : Address) : Res Unit := do
  refuse (c.member voter = false) (.error .unauthorized)
  requireAuth ctx voter

/-- New votes are refused while the council is paused. -/
def ensureNotPaused (c : CouncilState) : Res Unit :=
  refuse (c.paused = true) (.error .invalidStatus)

/-- The administrator hands over to another address. -/
def setAdmin (ctx : Ctx) (c : CouncilState) (admin : Address) : Res CouncilState := do
  requireAuth ctx c.admin
  return { c with admin := admin }

/-- The administrator stores the module of a role. -/
def setRole (ctx : Ctx) (c : CouncilState) (role : Role) (module : Address) :
    Res CouncilState := do
  requireAuth ctx c.admin
  return { c with roles := c.roles.set role (some module) }

/-- Governance approves or removes a member. -/
def setMember (ctx : Ctx) (c : CouncilState) (member : Address) (approved : Bool) :
    Res CouncilState := do
  requireRole ctx c.roles .gov
  return { c with member := c.member.set member approved }

/-- Governance stops or resumes voting. -/
def pause (ctx : Ctx) (c : CouncilState) (paused : Bool) : Res CouncilState := do
  requireRole ctx c.roles .gov
  return { c with paused := paused }

/-- The oracle adds to the reward pool of a case. -/
def recordCaseReward (ctx : Ctx) (c : CouncilState) (caseId : ℕ) (amount : ℤ) :
    Res CouncilState := do
  requireRole ctx c.roles .oracle
  refuse (amount ≤ 0) (.error .invalidAmount)
  let next ← checkedAdd (c.caseRewardPool caseId) amount
  return { c with caseRewardPool := c.caseRewardPool.set caseId next }

/-- The oracle opens the case of a request, once, with a commit and a reveal window. -/
def openCase (ctx : Ctx) (c : CouncilState) (requestId : ℕ) (marketId : MarketId)
    (proposer : Address) (proposerOutcome : Outcome) (proposerEvidenceUri : String)
    (disputer : Address) (disputerOutcome : Outcome) (disputerEvidenceUri : String)
    (config : OpenCaseConfig) : Res (ℕ × CouncilState) := do
  requireRole ctx c.roles .oracle
  refuse (proposerEvidenceUri = "" ∨ disputerEvidenceUri = "") (.error .evidenceRequired)
  refuse (proposerOutcome = disputerOutcome ∨ config.proposalBond ≤ 0 ∨ config.disputeBond ≤ 0 ∨
    config.commitDuration = 0 ∨ config.revealDuration = 0) (.error .invalidInput)
  refuse (c.requestCase requestId ≠ none) (.error .invalidStatus)
  let caseId := c.nextCaseId
  let commitEnd ← checkedAddU64 ctx.now config.commitDuration
  let revealEnd ← checkedAddU64 commitEnd config.revealDuration
  let case : CouncilCase := {
    id := caseId
    requestId := requestId
    marketId := marketId
    proposer := proposer
    proposerOutcome := proposerOutcome
    proposerEvidenceUri := proposerEvidenceUri
    disputer := disputer
    disputerOutcome := disputerOutcome
    disputerEvidenceUri := disputerEvidenceUri
    proposalBond := config.proposalBond
    disputeBond := config.disputeBond
    votingStart := ctx.now
    commitEnd := commitEnd
    revealEnd := revealEnd
    status := .commitPhase
    hasFinalOutcome := false
    finalOutcome := Outcome.unset
    yesVotes := 0
    noVotes := 0
    invalidVotes := 0
    totalValidVotes := 0 }
  let nextCaseId ← checkedAddU64 caseId 1
  let c := writeCase c case
  return (caseId, { c with
    requestCase := c.requestCase.set requestId (some caseId)
    caseToken := c.caseToken.set caseId (some config.token)
    nextCaseId := nextCaseId })

/-- A member commits to a vote, once, in the commit window. -/
def commitVote (ctx : Ctx) (c : CouncilState) (voter : Address) (caseId : ℕ) (commitment : Hash) :
    Res CouncilState := do
  ensureNotPaused c
  requireMember ctx c voter
  let case ← readCase c caseId
  refuse (case.status ≠ .commitPhase ∨ ctx.now > case.commitEnd) (.error .invalidStatus)
  refuse (c.commit (caseId, voter) ≠ none) (.error .voteAlreadyCommitted)
  return { c with commit := c.commit.set (caseId, voter) (some commitment) }

/-- One vote more; a counter of 32 bits that is full stops the invocation. -/
def countVote (votes : ℕ) : Res ℕ := do
  refuse ((votes + 1 : ℤ) > u32Max) .trap
  return votes + 1

/-- The case with one vote more for an outcome. -/
def withVote (case : CouncilCase) (outcome : Outcome) : Res CouncilCase := do
  let case ← (match outcome with
    | .yes => do
      let votes ← countVote case.yesVotes
      return { case with yesVotes := votes }
    | .no => do
      let votes ← countVote case.noVotes
      return { case with noVotes := votes }
    | .invalid => do
      let votes ← countVote case.invalidVotes
      return { case with invalidVotes := votes })
  let total ← countVote case.totalValidVotes
  return { case with totalValidVotes := total }

/-- A member reveals the committed vote, once, in the reveal window. -/
def revealVote (ctx : Ctx) (host : Host) (c : CouncilState) (voter : Address) (caseId : ℕ)
    (outcome : Outcome) (salt : Hash) : Res CouncilState := do
  ensureNotPaused c
  requireMember ctx c voter
  let case ← readCase c caseId
  refuse (ctx.now ≤ case.commitEnd ∨ ctx.now > case.revealEnd) (.error .invalidStatus)
  let stored ← orFault (c.commit (caseId, voter)) (.error .voteNotCommitted)
  refuse (stored ≠ host.voteCommitmentHash caseId voter outcome salt) (.error .invalidReveal)
  refuse (c.reveal (caseId, voter) ≠ none) (.error .invalidReveal)
  let case ← withVote case outcome
  return writeCase { c with reveal := c.reveal.set (caseId, voter) (some outcome) } case

/-- The outcome of a tally: a strict majority for yes or for no, invalid otherwise. -/
def tally (case : CouncilCase) : Outcome :=
  if case.yesVotes > case.noVotes ∧ case.yesVotes > case.invalidVotes then .yes
  else if case.noVotes > case.yesVotes ∧ case.noVotes > case.invalidVotes then .no
  else .invalid

/-- The case with its outcome set. -/
def finalized (case : CouncilCase) : CouncilCase :=
  { case with hasFinalOutcome := true, finalOutcome := tally case, status := .finalized }

/-- Anyone tallies a case, once, after its reveal window. -/
def finalizeCase (ctx : Ctx) (c : CouncilState) (caseId : ℕ) : Res (Outcome × CouncilState) := do
  let case ← readCase c caseId
  refuse (case.hasFinalOutcome = true) (.error .alreadyResolved)
  refuse (ctx.now ≤ case.revealEnd) (.error .tooEarly)
  return (tally case, writeCase c (finalized case))

/-- Votes a case counted for an outcome. -/
def votesFor (case : CouncilCase) : Outcome → ℕ
  | .yes => case.yesVotes
  | .no => case.noVotes
  | .invalid => case.invalidVotes

/-- Reward of one member who voted with the outcome. -/
def rewardShare (rewardPool : ℤ) (correctVotes : ℕ) : ℤ :=
  if rewardPool > 0 ∧ correctVotes > 0 then rewardPool.tdiv correctVotes else 0

/-- Pay a reward out of what the council holds. -/
def payReward (ctx : Ctx) (w : World) (voter : Address) (caseId : ℕ) (payout : ℤ) : Res World :=
  if payout > 0 then do
    let token ← orFault (w.council.caseToken caseId) (.error .notInitialized)
    transferToken ctx .council w token (.contract .council) voter payout
  else .ok w

/-- A member who revealed a vote claims the reward of a final case, once. -/
def claimReward (ctx : Ctx) (w : World) (voter : Address) (caseId : ℕ) :
    Res ((Bool × ℤ) × World) := do
  requireAuth ctx voter
  let case ← readCase w.council caseId
  refuse (case.hasFinalOutcome = false) (.error .invalidStatus)
  let revealed ← orFault (w.council.reveal (caseId, voter)) (.error .voteNotCommitted)
  refuse (w.council.claimed (caseId, voter) ≠ none) (.error .actionConsumed)
  let correct := decide (revealed = case.finalOutcome)
  let w := { w with council := { w.council with
    claimed := w.council.claimed.set (caseId, voter) (some correct) } }
  let payout := if correct = true then
      rewardShare (w.council.caseRewardPool caseId) (votesFor case case.finalOutcome)
    else 0
  let w ← payReward ctx w voter caseId payout
  return ((correct, payout), w)

/-- Governance sweeps the reward pool of a case nobody voted right on. -/
def sweepCaseReward (ctx : Ctx) (w : World) (caseId : ℕ) (recipient : Address) :
    Res (ℤ × World) := do
  requireRole ctx w.council.roles .gov
  let case ← readCase w.council caseId
  refuse (case.hasFinalOutcome = false) (.error .invalidStatus)
  refuse (votesFor case case.finalOutcome > 0) (.error .invalidStatus)
  let rewardPool := w.council.caseRewardPool caseId
  refuse (rewardPool ≤ 0) (.error .invalidAmount)
  let token ← orFault (w.council.caseToken caseId) (.error .notInitialized)
  let w ← transferToken ctx .council w token (.contract .council) recipient rewardPool
  return (rewardPool, { w with council := { w.council with
    caseRewardPool := w.council.caseRewardPool.set caseId 0 } })

/-- Read the case of a request. -/
def caseForRequest (c : CouncilState) (requestId : ℕ) : Res ℕ :=
  orFault (c.requestCase requestId) (.error .caseNotFound)

/-- What an invocation can do to the stored cases: nothing, open the next case
undecided, or count a vote in one of them. -/
def CasesFollow (c c' : CouncilState) : Prop :=
  c'.caseData = c.caseData ∨
    (∃ k, ∃ case : CouncilCase, case.hasFinalOutcome = false ∧
      c'.caseData = c.caseData.set k (some case)) ∨
    ∃ k, ∃ case case' : CouncilCase, c.caseData k = some case ∧ case'.id = case.id ∧
      case'.requestId = case.requestId ∧ case'.hasFinalOutcome = case.hasFinalOutcome ∧
      case'.finalOutcome = case.finalOutcome ∧ c'.caseData = c.caseData.set case.id (some case')

/-- A case as it is first stored. -/
def newCase (now caseId requestId : ℕ) (marketId : MarketId) (proposer : Address)
    (proposerOutcome : Outcome) (proposerEvidenceUri : String) (disputer : Address)
    (disputerOutcome : Outcome) (disputerEvidenceUri : String) (config : OpenCaseConfig) :
    CouncilCase where
  id := caseId
  requestId := requestId
  marketId := marketId
  proposer := proposer
  proposerOutcome := proposerOutcome
  proposerEvidenceUri := proposerEvidenceUri
  disputer := disputer
  disputerOutcome := disputerOutcome
  disputerEvidenceUri := disputerEvidenceUri
  proposalBond := config.proposalBond
  disputeBond := config.disputeBond
  votingStart := now
  commitEnd := now + config.commitDuration
  revealEnd := now + config.commitDuration + config.revealDuration
  status := .commitPhase
  hasFinalOutcome := false
  finalOutcome := Outcome.unset
  yesVotes := 0
  noVotes := 0
  invalidVotes := 0
  totalValidVotes := 0

/-- A case is opened exactly by the oracle, for two sides with evidence that
disagree, once for a request, while both windows and the number fit. -/
theorem openCase_ok {ctx : Ctx} {c c' : CouncilState} {requestId id : ℕ} {marketId : MarketId}
    {proposer disputer : Address} {proposerOutcome disputerOutcome : Outcome}
    {proposerUri disputerUri : String} {config : OpenCaseConfig} :
    openCase ctx c requestId marketId proposer proposerOutcome proposerUri disputer
      disputerOutcome disputerUri config = .ok (id, c') ↔
    (∃ u, requireRole ctx c.roles .oracle = .ok u) ∧
      ¬(proposerUri = "" ∨ disputerUri = "") ∧
      ¬(proposerOutcome = disputerOutcome ∨ config.proposalBond ≤ 0 ∨ config.disputeBond ≤ 0 ∨
        config.commitDuration = 0 ∨ config.revealDuration = 0) ∧
      c.requestCase requestId = none ∧
      ctx.now + config.commitDuration + config.revealDuration ≤ u64Max ∧
      c.nextCaseId + 1 ≤ u64Max ∧ id = c.nextCaseId ∧
      c' = { writeCase c (newCase ctx.now c.nextCaseId requestId marketId proposer proposerOutcome
          proposerUri disputer disputerOutcome disputerUri config) with
        requestCase := c.requestCase.set requestId (some c.nextCaseId)
        caseToken := c.caseToken.set c.nextCaseId (some config.token)
        nextCaseId := c.nextCaseId + 1 } := by
  unfold openCase
  constructor
  · intro h
    obtain ⟨u, hrole, h⟩ := bind_ok.mp h
    obtain ⟨_, hevidence, h⟩ := bind_ok.mp h
    obtain ⟨_, hinput, h⟩ := bind_ok.mp h
    obtain ⟨_, hfresh, h⟩ := bind_ok.mp h
    obtain ⟨commitEnd, hcommit, h⟩ := bind_ok.mp h
    obtain ⟨revealEnd, hreveal, h⟩ := bind_ok.mp h
    obtain ⟨next, hnext, h⟩ := bind_ok.mp h
    obtain ⟨rfl, rfl⟩ := Prod.mk.inj (pure_ok.mp h)
    obtain ⟨rfl, _⟩ := checkedAddU64_ok.mp hcommit
    obtain ⟨rfl, hfits⟩ := checkedAddU64_ok.mp hreveal
    obtain ⟨rfl, hnumber⟩ := checkedAddU64_ok.mp hnext
    exact ⟨⟨u, hrole⟩, refuse_ok.mp hevidence, refuse_ok.mp hinput,
      not_not.mp (refuse_ok.mp hfresh), hfits, hnumber, rfl, rfl⟩
  · rintro ⟨⟨u, hrole⟩, hevidence, hinput, hfresh, hfits, hnumber, rfl, rfl⟩
    have hcommit : ctx.now + config.commitDuration ≤ u64Max := by omega
    rw [bind_of_ok hrole, bind_of_ok (refuse_ok (u := ()).mpr hevidence),
      bind_of_ok (refuse_ok (u := ()).mpr hinput),
      bind_of_ok (refuse_ok (u := ()).mpr (not_not.mpr hfresh)),
      bind_of_ok (checkedAddU64_ok.mpr ⟨rfl, hcommit⟩),
      bind_of_ok (checkedAddU64_ok.mpr ⟨rfl, hfits⟩),
      bind_of_ok (checkedAddU64_ok.mpr ⟨rfl, hnumber⟩)]
    rfl

/-- A new case is undecided and stored under the next identifier. -/
theorem openCase_follow {ctx : Ctx} {c c' : CouncilState} {requestId id : ℕ} {marketId : MarketId}
    {proposer disputer : Address} {proposerOutcome disputerOutcome : Outcome}
    {proposerUri disputerUri : String} {config : OpenCaseConfig}
    (h : openCase ctx c requestId marketId proposer proposerOutcome proposerUri disputer
      disputerOutcome disputerUri config = .ok (id, c')) : CasesFollow c c' := by
  obtain ⟨_, _, _, _, _, _, _, rfl⟩ := openCase_ok.mp h
  exact Or.inr (Or.inl ⟨_, _, rfl, rfl⟩)

/-- A vote changes counters only. -/
theorem withVote_ok {case case' : CouncilCase} {outcome : Outcome}
    (h : withVote case outcome = .ok case') :
    case'.id = case.id ∧ case'.requestId = case.requestId ∧
      case'.hasFinalOutcome = case.hasFinalOutcome ∧ case'.finalOutcome = case.finalOutcome := by
  unfold withVote at h
  obtain ⟨counted, hcounted, h⟩ := bind_ok.mp h
  obtain ⟨_, _, h⟩ := bind_ok.mp h
  rw [← pure_ok.mp h]
  cases outcome with
  | yes =>
    obtain ⟨_, _, hcounted⟩ := bind_ok.mp hcounted
    rw [← pure_ok.mp hcounted]
    exact ⟨rfl, rfl, rfl, rfl⟩
  | no =>
    obtain ⟨_, _, hcounted⟩ := bind_ok.mp hcounted
    rw [← pure_ok.mp hcounted]
    exact ⟨rfl, rfl, rfl, rfl⟩
  | invalid =>
    obtain ⟨_, _, hcounted⟩ := bind_ok.mp hcounted
    rw [← pure_ok.mp hcounted]
    exact ⟨rfl, rfl, rfl, rfl⟩

/-- A reveal counts one vote in its case. -/
theorem revealVote_follow {ctx : Ctx} {host : Host} {c c' : CouncilState} {voter : Address}
    {caseId : ℕ} {outcome : Outcome} {salt : Hash}
    (h : revealVote ctx host c voter caseId outcome salt = .ok c') : CasesFollow c c' := by
  unfold revealVote at h
  obtain ⟨_, _, h⟩ := bind_ok.mp h
  obtain ⟨_, _, h⟩ := bind_ok.mp h
  obtain ⟨case, hcase, h⟩ := bind_ok.mp h
  obtain ⟨_, _, h⟩ := bind_ok.mp h
  obtain ⟨stored, _, h⟩ := bind_ok.mp h
  obtain ⟨_, _, h⟩ := bind_ok.mp h
  obtain ⟨_, _, h⟩ := bind_ok.mp h
  obtain ⟨case', hvote, h⟩ := bind_ok.mp h
  obtain ⟨hid, hrequest, hhas, hfinal⟩ := withVote_ok hvote
  rw [← pure_ok.mp h]
  refine Or.inr (Or.inr ⟨caseId, case, case', orFault_ok.mp hcase, hid, hrequest, hhas, hfinal, ?_⟩)
  rw [← hid]
  rfl

/-- A tally needs an undecided case whose reveal window is over, and decides it. -/
theorem finalizeCase_ok {ctx : Ctx} {c c' : CouncilState} {caseId : ℕ} {outcome : Outcome} :
    finalizeCase ctx c caseId = .ok (outcome, c') ↔ ∃ case, c.caseData caseId = some case ∧
      case.hasFinalOutcome = false ∧ case.revealEnd < ctx.now ∧ outcome = tally case ∧
      c' = writeCase c (finalized case) := by
  unfold finalizeCase readCase
  simp only [bind_ok, orFault_ok, refuse_ok, pure_ok, exists_const, Prod.mk.injEq, not_le,
    Bool.not_eq_true]
  constructor
  · rintro ⟨case, hcase, hopen, hlate, rfl, rfl⟩
    exact ⟨case, hcase, hopen, hlate, rfl, rfl⟩
  · rintro ⟨case, hcase, hopen, hlate, rfl, rfl⟩
    exact ⟨case, hcase, hopen, hlate, rfl, rfl⟩

/-- The case read after a tally belongs to the request of the tallied one. -/
theorem readCase_finalized {c : CouncilState} {caseId : ℕ} {before case : CouncilCase}
    (hbefore : c.caseData caseId = some before)
    (h : readCase (writeCase c (finalized before)) caseId = .ok case) :
    case.requestId = before.requestId := by
  have hread := orFault_ok.mp h
  unfold writeCase at hread
  dsimp only at hread
  rw [Store.set_get] at hread
  split at hread
  · obtain rfl := Option.some.inj hread
    rfl
  · rw [hbefore] at hread
    obtain rfl := Option.some.inj hread
    rfl

/-- A paid reward changes balances only. -/
theorem payReward_ok {ctx : Ctx} {w w' : World} {voter : Address} {caseId : ℕ} {payout : ℤ}
    (h : payReward ctx w voter caseId payout = .ok w') : ∃ b, w' = { w with bank := b } := by
  unfold payReward at h
  split at h
  · obtain ⟨token, _, h⟩ := bind_ok.mp h
    obtain ⟨_, b, _, rfl⟩ := transferToken_ok.mp h
    exact ⟨b, rfl⟩
  · obtain rfl := ok_ok.mp h
    exact ⟨w.bank, rfl⟩

end DikeProtocol.Council
