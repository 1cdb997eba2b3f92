import DikeProtocol.Resolution.Steps
import DikeProtocol.Lib.Run

/-!
# What the entry points of the council do

Every successful invocation of the council makes one of a few moves. An event
says what it did for a vote or a reward, and runs keep the list of events.
-/

namespace DikeProtocol.Council

open Lib

/-- What an invocation did to a vote or a reward. -/
inductive CouncilEvent where
  /-- Neither. -/
  | quiet
  /-- A voter committed to a vote at this time, being a member or not. -/
  | committed (caseId : ℕ) (voter : Address) (commitment : Hash) (madeAt : ℕ) (member : Bool)
  /-- A reward was recorded for a case. -/
  | recorded (caseId : ℕ) (amount : ℤ)
  /-- A voter claimed and was paid this much. -/
  | claimed (caseId : ℕ) (voter : Address) (payout : ℤ)
  /-- The reward pool of a case was swept. -/
  | swept (caseId : ℕ) (amount : ℤ)
  deriving DecidableEq, Repr

/-- The amount an invocation returned, 0 when it failed. -/
def returned {α : Type} (amount : α → ℤ) (x : Res (α × World)) : ℤ :=
  match x with
  | .ok (a, _) => amount a
  | .error _ => 0

/-- A successful invocation returned its own amount. -/
theorem returned_of_ok {α : Type} {amount : α → ℤ} {x : Res (α × World)} {a : α} {w : World}
    (h : x = .ok (a, w)) : returned amount x = amount a := by
  rw [h]
  rfl

/-- The event of an invocation, amounts as the invocation itself returns them. -/
def eventOf (ctx : Ctx) (w : World) : CouncilOp → CouncilEvent
  | .commitVote voter caseId commitment =>
    .committed caseId voter commitment ctx.now (w.council.member voter)
  | .recordCaseReward caseId amount => .recorded caseId amount
  | .claimReward voter caseId =>
    .claimed caseId voter (returned (fun r => r.2) (claimReward ctx w voter caseId))
  | .sweepCaseReward caseId recipient =>
    .swept caseId (returned id (sweepCaseReward ctx w caseId recipient))
  | _ => .quiet

/-- A world in which the council is the same and holds no less of any token. -/
structure LeavesCouncil (w w' : World) : Prop where
  council : w'.council = w.council
  host : w'.host = w.host
  holds : ∀ token, w.bank.bal token (.contract .council) ≤ w'.bank.bal token (.contract .council)

/-- The balances of the council after it paid a reward. -/
def PaysReward (w : World) (voter : Address) (caseId : ℕ) (payout : ℤ) (b : Bank) : Prop :=
  (payout ≤ 0 ∧ b = w.bank) ∨ (0 < payout ∧ ∃ token, w.council.caseToken caseId = some token ∧
    w.bank.transfer token (.contract .council) voter payout = .ok b)

/-- The reward of a voter who revealed this vote in a final case. -/
def rewardOf (c : CouncilState) (caseId : ℕ) (case : CouncilCase) (revealed : Outcome) : ℤ :=
  if decide (revealed = case.finalOutcome) = true then
    rewardShare (c.caseRewardPool caseId) (votesFor case case.finalOutcome)
  else 0

/-- What a successful invocation of the council did. -/
inductive CouncilMoves (ctx : Ctx) (w : World) : CouncilEvent → World → Prop where
  /-- Administrator, roles, members and the pause are settings of the council. -/
  | settings (admin : Address) (roles : Store Role (Option Address)) (member : Store Address Bool)
      (paused : Bool) : CouncilMoves ctx w .quiet { w with council := { w.council with
        admin := admin
        roles := roles
        member := member
        paused := paused } }
  /-- The next case opens without votes. -/
  | opens {case : CouncilCase} {requestCase : Store ℕ (Option ℕ)} {token : Asset}
      (hid : case.id = w.council.nextCaseId) (hstart : case.votingStart = ctx.now)
      (hcommit : ctx.now ≤ case.commitEnd) (hopen : case.hasFinalOutcome = false)
      (hvotes : ∀ outcome, votesFor case outcome = 0) (htotal : case.totalValidVotes = 0) :
      CouncilMoves ctx w .quiet { w with council := { writeCase w.council case with
        requestCase := requestCase
        caseToken := w.council.caseToken.set w.council.nextCaseId (some token)
        nextCaseId := w.council.nextCaseId + 1 } }
  /-- A member commits to its first vote in the commit window of a case. -/
  | commits {voter : Address} {k : ℕ} {commitment : Hash} {case : CouncilCase}
      (hmember : w.council.member voter = true) (hcase : w.council.caseData k = some case)
      (hwindow : ctx.now ≤ case.commitEnd) (hfirst : w.council.commit (k, voter) = none) :
      CouncilMoves ctx w (.committed k voter commitment ctx.now true) { w with
        council := { w.council with
          commit := w.council.commit.set (k, voter) (some commitment) } }
  /-- A voter reveals what it committed to, for the first time, in the reveal window. -/
  | reveals {voter : Address} {k : ℕ} {outcome : Outcome} {salt : Hash} {case case' : CouncilCase}
      (hcase : w.council.caseData k = some case) (hafter : case.commitEnd < ctx.now)
      (hwindow : ctx.now ≤ case.revealEnd)
      (hstored : w.council.commit (k, voter) =
        some (w.host.voteCommitmentHash k voter outcome salt))
      (hfirst : w.council.reveal (k, voter) = none) (hvote : withVote case outcome = .ok case') :
      CouncilMoves ctx w .quiet { w with council := writeCase { w.council with
        reveal := w.council.reveal.set (k, voter) (some outcome) } case' }
  /-- A case is tallied after its reveal window. -/
  | decides {k : ℕ} {case : CouncilCase} {w' : World} (hcase : w.council.caseData k = some case)
      (hopen : case.hasFinalOutcome = false) (hlate : case.revealEnd < ctx.now)
      (hleaves : LeavesCouncil { w with council := writeCase w.council (finalized case) } w') :
      CouncilMoves ctx w .quiet w'
  /-- A reward is added to the pool of a case. -/
  | records {k : ℕ} {amount : ℤ} (hpos : 0 < amount) :
      CouncilMoves ctx w (.recorded k amount) { w with council := { w.council with
        caseRewardPool := w.council.caseRewardPool.set k
          (w.council.caseRewardPool k + amount) } }
  /-- A voter who revealed claims its reward of a final case, for the first time. -/
  | claims {voter : Address} {k : ℕ} {case : CouncilCase} {revealed : Outcome} {b : Bank}
      (hcase : w.council.caseData k = some case) (hfinal : case.hasFinalOutcome = true)
      (hreveal : w.council.reveal (k, voter) = some revealed)
      (hfirst : w.council.claimed (k, voter) = none)
      (hpay : PaysReward w voter k (rewardOf w.council k case revealed) b) :
      CouncilMoves ctx w (.claimed k voter (rewardOf w.council k case revealed)) { w with
        council := { w.council with
          claimed := w.council.claimed.set (k, voter)
            (some (decide (revealed = case.finalOutcome))) }
        bank := b }
  /-- The pool of a final case nobody voted right on is paid out whole. -/
  | sweeps {k : ℕ} {recipient : Address} {case : CouncilCase} {token : Asset} {b : Bank}
      (hcase : w.council.caseData k = some case) (hfinal : case.hasFinalOutcome = true)
      (hvotes : votesFor case case.finalOutcome = 0) (hpool : 0 < w.council.caseRewardPool k)
      (htoken : w.council.caseToken k = some token)
      (hpay : w.bank.transfer token (.contract .council) recipient
        (w.council.caseRewardPool k) = .ok b) :
      CouncilMoves ctx w (.swept k (w.council.caseRewardPool k)) { w with
        council := { w.council with caseRewardPool := w.council.caseRewardPool.set k 0 }
        bank := b }

namespace LeavesCouncil

variable {ctx : Ctx} {w w' w'' : World}

/-- Doing nothing. -/
theorem refl (w : World) : LeavesCouncil w w := ⟨rfl, rfl, fun _ => le_rfl⟩

/-- One step after another. -/
theorem trans (h : LeavesCouncil w w') (h' : LeavesCouncil w' w'') : LeavesCouncil w w'' :=
  ⟨h'.council.trans h.council, h'.host.trans h.host,
    fun token => (h.holds token).trans (h'.holds token)⟩

/-- A payment out of a bond is made by the vault. -/
theorem payBond {token : Asset} {user recipient : Address} {r : ℕ} {x : ℤ} {d : Bool}
    (h : Vault.payBond ctx w token user r x d recipient = .ok w') : LeavesCouncil w w' := by
  obtain ⟨hx, _, _, _, _, _, _, _, b, hb, rfl⟩ := Vault.payBond_ok.mp h
  refine ⟨rfl, rfl, ?_⟩
  intro t
  have hbal := Bank.transfer_bal hb t (.contract .council)
  have hne : ¬(t = token ∧ Address.contract .council = .contract .vault) :=
    fun hk => nomatch hk.2
  rw [if_neg hne] at hbal
  dsimp only
  split at hbal <;> omega

/-- A division of the bonds under a call of the council books no reward there. -/
theorem divideBonds {token : Asset} {request : ResolutionRequest} {r : ℕ} {outcome : Outcome}
    (hcallers : Address.contract .council ∈ ctx.callers)
    (h : Oracle.divideBonds ctx w token request r outcome = .ok w') : LeavesCouncil w w' :=
  Oracle.divideBonds_keeps (I := fun s => LeavesCouncil w s)
    (fun hpay hs => hs.trans (payBond hpay)) (fun hfree => absurd hcallers hfree) h (refl w)

/-- A report the council itself makes leaves the council as it is. -/
theorem reportCouncilOutcome {requestId : ℕ} {outcome : Outcome}
    (hcallers : Address.contract .council ∈ ctx.callers)
    (h : Oracle.reportCouncilOutcome ctx w requestId outcome = .ok w') : LeavesCouncil w w' := by
  obtain ⟨request, market, w1, called, r, _, _, _, hdivide, _, rfl⟩ :=
    Oracle.reportCouncilOutcome_steps h
  have hbonds := divideBonds hcallers hdivide
  exact ⟨hbonds.council, hbonds.host, hbonds.holds⟩

end LeavesCouncil

section Moves

variable {ctx : Ctx} {w w' : World}

/-- A new case opens under the next identifier. -/
theorem openCase_moves {c : CouncilState} {requestId id : ℕ} {marketId : MarketId}
    {proposer disputer : Address} {proposerOutcome disputerOutcome : Outcome}
    {proposerUri disputerUri : String} {config : OpenCaseConfig}
    (h : openCase ctx w.council requestId marketId proposer proposerOutcome proposerUri disputer
      disputerOutcome disputerUri config = .ok (id, c)) :
    CouncilMoves ctx w .quiet { w with council := c } := by
  unfold openCase at h
  obtain ⟨_, _, h⟩ := bind_ok.mp h
  obtain ⟨_, _, h⟩ := bind_ok.mp h
  obtain ⟨_, _, h⟩ := bind_ok.mp h
  obtain ⟨_, _, h⟩ := bind_ok.mp h
  obtain ⟨commitEnd, hcommit, h⟩ := bind_ok.mp h
  obtain ⟨revealEnd, _, h⟩ := bind_ok.mp h
  obtain ⟨next, hnext, h⟩ := bind_ok.mp h
  obtain ⟨_, rfl⟩ := Prod.mk.inj (pure_ok.mp h)
  obtain ⟨rfl, _⟩ := checkedAddU64_ok.mp hnext
  obtain ⟨rfl, _⟩ := checkedAddU64_ok.mp hcommit
  refine .opens rfl rfl (Nat.le_add_right _ _) rfl ?_ rfl
  intro outcome
  cases outcome <;> rfl

/-- A first commitment of a member. -/
theorem commitVote_moves {c : CouncilState} {voter : Address} {caseId : ℕ} {commitment : Hash}
    (h : commitVote ctx w.council voter caseId commitment = .ok c) :
    CouncilMoves ctx w (.committed caseId voter commitment ctx.now (w.council.member voter))
      { w with council := c } := by
  unfold commitVote at h
  obtain ⟨_, _, h⟩ := bind_ok.mp h
  obtain ⟨_, hmember, h⟩ := bind_ok.mp h
  obtain ⟨case, hcase, h⟩ := bind_ok.mp h
  obtain ⟨_, hwindow, h⟩ := bind_ok.mp h
  obtain ⟨_, hfirst, h⟩ := bind_ok.mp h
  obtain rfl := pure_ok.mp h
  obtain ⟨_, hmember, _⟩ := bind_ok.mp hmember
  have happroved : w.council.member voter = true := Bool.not_eq_false _ ▸ refuse_ok.mp hmember
  rw [happroved]
  exact .commits happroved (orFault_ok.mp hcase)
    (not_lt.mp (not_or.mp (refuse_ok.mp hwindow)).2) (not_not.mp (refuse_ok.mp hfirst))

/-- A first reveal of what was committed to. -/
theorem revealVote_moves {c : CouncilState} {voter : Address} {caseId : ℕ} {outcome : Outcome}
    {salt : Hash} (h : revealVote ctx w.host w.council voter caseId outcome salt = .ok c) :
    CouncilMoves ctx w .quiet { w with council := c } := by
  unfold revealVote at h
  obtain ⟨_, _, h⟩ := bind_ok.mp h
  obtain ⟨_, _, h⟩ := bind_ok.mp h
  obtain ⟨case, hcase, h⟩ := bind_ok.mp h
  obtain ⟨_, hwindow, h⟩ := bind_ok.mp h
  obtain ⟨stored, hstored, h⟩ := bind_ok.mp h
  obtain ⟨_, hsame, h⟩ := bind_ok.mp h
  obtain ⟨_, hfirst, h⟩ := bind_ok.mp h
  obtain ⟨case', hvote, h⟩ := bind_ok.mp h
  obtain rfl := pure_ok.mp h
  obtain rfl := not_not.mp (refuse_ok.mp hsame)
  obtain ⟨hafter, hbefore⟩ := not_or.mp (refuse_ok.mp hwindow)
  exact .reveals (orFault_ok.mp hcase) (not_le.mp hafter) (not_lt.mp hbefore)
    (orFault_ok.mp hstored) (not_not.mp (refuse_ok.mp hfirst)) hvote

/-- A tally, with or without its report. -/
theorem finalizeAndReportCase_moves {caseId : ℕ} {outcome : Outcome}
    (h : finalizeAndReportCase ctx w caseId = .ok (outcome, w')) :
    CouncilMoves ctx w .quiet w' := by
  unfold finalizeAndReportCase at h
  obtain ⟨⟨tallied, c⟩, htally, h⟩ := bind_ok.mp h
  obtain ⟨case', _, h⟩ := bind_ok.mp h
  obtain ⟨oracle, _, h⟩ := bind_ok.mp h
  obtain ⟨called, hcall, h⟩ := bind_ok.mp h
  obtain ⟨w1, hreport, h⟩ := bind_ok.mp h
  obtain ⟨_, rfl⟩ := Prod.mk.inj (pure_ok.mp h)
  obtain ⟨case, hcase, hopen, hlate, rfl, rfl⟩ := finalizeCase_ok.mp htally
  obtain ⟨_, _, rfl⟩ := Ctx.call_ok.mp hcall
  exact .decides hcase hopen hlate (.reportCouncilOutcome List.mem_cons_self hreport)

/-- A paid reward is paid by the council in the token of the case. -/
theorem payReward_pays {voter : Address} {caseId : ℕ} {payout : ℤ}
    (h : payReward ctx w voter caseId payout = .ok w') :
    ∃ b, PaysReward w voter caseId payout b ∧ w' = { w with bank := b } := by
  unfold payReward at h
  split at h
  · next hpos =>
    obtain ⟨token, htoken, h⟩ := bind_ok.mp h
    obtain ⟨_, b, hb, rfl⟩ := transferToken_ok.mp h
    exact ⟨b, Or.inr ⟨hpos, token, orFault_ok.mp htoken, hb⟩, rfl⟩
  · next hpos =>
    obtain rfl := ok_ok.mp h
    exact ⟨w.bank, Or.inl ⟨not_lt.mp hpos, rfl⟩, rfl⟩

/-- A first claim in a final case. -/
theorem claimReward_moves {voter : Address} {caseId : ℕ} {r : Bool × ℤ}
    (h : claimReward ctx w voter caseId = .ok (r, w')) :
    CouncilMoves ctx w (.claimed caseId voter r.2) w' := by
  unfold claimReward at h
  obtain ⟨_, _, h⟩ := bind_ok.mp h
  obtain ⟨case, hcase, h⟩ := bind_ok.mp h
  obtain ⟨_, hfinal, h⟩ := bind_ok.mp h
  obtain ⟨revealed, hreveal, h⟩ := bind_ok.mp h
  obtain ⟨_, hfirst, h⟩ := bind_ok.mp h
  obtain ⟨w1, hpay, h⟩ := bind_ok.mp h
  obtain ⟨rfl, rfl⟩ := Prod.mk.inj (pure_ok.mp h)
  obtain ⟨b, hpays, rfl⟩ := payReward_pays hpay
  have hdecided : case.hasFinalOutcome = true := Bool.not_eq_false _ ▸ refuse_ok.mp hfinal
  exact .claims (orFault_ok.mp hcase) hdecided (orFault_ok.mp hreveal)
    (not_not.mp (refuse_ok.mp hfirst)) hpays

/-- A sweep of the pool of a case without a right vote. -/
theorem sweepCaseReward_moves {caseId : ℕ} {recipient : Address} {pool : ℤ}
    (h : sweepCaseReward ctx w caseId recipient = .ok (pool, w')) :
    CouncilMoves ctx w (.swept caseId pool) w' := by
  unfold sweepCaseReward at h
  obtain ⟨_, _, h⟩ := bind_ok.mp h
  obtain ⟨case, hcase, h⟩ := bind_ok.mp h
  obtain ⟨_, hfinal, h⟩ := bind_ok.mp h
  obtain ⟨_, hvotes, h⟩ := bind_ok.mp h
  obtain ⟨_, hpool, h⟩ := bind_ok.mp h
  obtain ⟨token, htoken, h⟩ := bind_ok.mp h
  obtain ⟨w1, hpay, h⟩ := bind_ok.mp h
  obtain ⟨rfl, rfl⟩ := Prod.mk.inj (pure_ok.mp h)
  obtain ⟨_, b, hb, rfl⟩ := transferToken_ok.mp hpay
  have hdecided : case.hasFinalOutcome = true := Bool.not_eq_false _ ▸ refuse_ok.mp hfinal
  exact .sweeps (orFault_ok.mp hcase) hdecided
    (Nat.eq_zero_of_not_pos (refuse_ok.mp hvotes)) (not_le.mp (refuse_ok.mp hpool))
    (orFault_ok.mp htoken) hb

/-- A recorded reward is positive and goes to the pool of its case. -/
theorem recordCaseReward_moves {c : CouncilState} {caseId : ℕ} {amount : ℤ}
    (h : recordCaseReward ctx w.council caseId amount = .ok c) :
    CouncilMoves ctx w (.recorded caseId amount) { w with council := c } := by
  unfold recordCaseReward at h
  obtain ⟨_, _, h⟩ := bind_ok.mp h
  obtain ⟨_, hpos, h⟩ := bind_ok.mp h
  obtain ⟨next, hnext, h⟩ := bind_ok.mp h
  obtain rfl := pure_ok.mp h
  obtain ⟨rfl, _⟩ := checkedAdd_ok.mp hnext
  exact .records (not_le.mp (refuse_ok.mp hpos))

/-- Every successful invocation of the council makes its move. -/
theorem CouncilOp.exec_moves {op : CouncilOp} (h : op.exec ctx w = .ok w') :
    CouncilMoves ctx w (eventOf ctx w op) w' := by
  have hsetting : op.isSetting = true → CouncilMoves ctx w .quiet w' := by
    intro hop
    obtain ⟨admin, roles, member, paused, rfl⟩ := CouncilOp.exec_setting hop h
    exact .settings admin roles member paused
  cases op with
  | setAdmin admin => exact hsetting rfl
  | upgrade wasmHash => exact hsetting rfl
  | setRole role module => exact hsetting rfl
  | setMember member approved => exact hsetting rfl
  | pause paused => exact hsetting rfl
  | recordCaseReward caseId amount =>
    obtain ⟨c, hc, h⟩ := bind_ok.mp h
    rw [← pure_ok.mp h]
    exact recordCaseReward_moves hc
  | openCase requestId marketId proposer proposerOutcome proposerUri disputer disputerOutcome
      disputerUri config =>
    obtain ⟨c, hc, h⟩ := bind_ok.mp h
    obtain ⟨⟨id, c'⟩, hopen, hc⟩ := bind_ok.mp hc
    obtain rfl := pure_ok.mp hc
    rw [← pure_ok.mp h]
    exact openCase_moves hopen
  | commitVote voter caseId commitment =>
    obtain ⟨c, hc, h⟩ := bind_ok.mp h
    rw [← pure_ok.mp h]
    exact commitVote_moves hc
  | revealVote voter caseId outcome salt =>
    obtain ⟨c, hc, h⟩ := bind_ok.mp h
    rw [← pure_ok.mp h]
    exact revealVote_moves hc
  | finalizeCase caseId =>
    obtain ⟨c, hc, h⟩ := bind_ok.mp h
    obtain ⟨⟨outcome, c'⟩, htally, hc⟩ := bind_ok.mp hc
    obtain rfl := pure_ok.mp hc
    rw [← pure_ok.mp h]
    obtain ⟨case, hcase, hopen, hlate, _, rfl⟩ := finalizeCase_ok.mp htally
    exact .decides hcase hopen hlate (.refl _)
  | finalizeAndReportCase caseId =>
    obtain ⟨outcome, h⟩ := world_ok.mp h
    exact finalizeAndReportCase_moves h
  | claimReward voter caseId =>
    obtain ⟨r, h⟩ := world_ok.mp h
    rw [eventOf, returned_of_ok h]
    exact claimReward_moves h
  | sweepCaseReward caseId recipient =>
    obtain ⟨pool, h⟩ := world_ok.mp h
    rw [eventOf, returned_of_ok h]
    exact sweepCaseReward_moves h

end Moves

/-- One step of a run of the council. -/
inductive CouncilStep where
  /-- An invocation of the council. -/
  | call (ctx : Ctx) (op : CouncilOp)
  /-- The oracle records a reward for a case after this payer transferred it to
  the council in the token of the case. -/
  | reward (ctx : Ctx) (payer : Address) (caseId : ℕ) (amount : ℤ)
  /-- Anything else changes: balances and the other contracts. -/
  | outside (w : World)

/-- A reward is transferred to the council by somebody else and recorded. -/
def payAndRecord (ctx : Ctx) (w : World) (payer : Address) (caseId : ℕ) (amount : ℤ) :
    Res World := do
  refuse (payer = .contract .council) .trap
  let token ← orFault (w.council.caseToken caseId) .trap
  let bank ← w.bank.transfer token payer (.contract .council) amount
  CouncilOp.exec ctx { w with bank := bank } (.recordCaseReward caseId amount)

/-- Runs of the council from a deployment; the time of an invocation is never
before that of an earlier one. -/
def councilSystem : System (World × ℕ) CouncilStep Fault where
  Init := fun s => ∃ l : Launch, s.1 = deploy l
  step := fun s step =>
    match step with
    | .call ctx op => do
      refuse (ctx.now < s.2) .trap
      let w ← op.exec ctx s.1
      return (w, ctx.now)
    | .reward ctx payer caseId amount => do
      refuse (ctx.now < s.2) .trap
      let w ← payAndRecord ctx s.1 payer caseId amount
      return (w, ctx.now)
    | .outside w' => .ok ({ w' with council := s.1.council, host := s.1.host }, s.2)

/-- The event of a step. -/
def stepEvent (s : World × ℕ) : CouncilStep → CouncilEvent
  | .call ctx op => eventOf ctx s.1 op
  | .reward _ _ caseId amount => .recorded caseId amount
  | .outside _ => .quiet

/-- Runs of the council with the list of events, the latest first. -/
def chronicle : System ((World × ℕ) × List CouncilEvent) CouncilStep Fault :=
  councilSystem.recorded [] (fun events s step => stepEvent s step :: events)

/-- What a step of the council did: a move at a time not before the clock, on
top of balances somebody else changed. -/
theorem chronicle_step {s s' : (World × ℕ) × List CouncilEvent} {step : CouncilStep}
    (h : chronicle.step s step = .ok s') :
    s'.2 = stepEvent s.1 step :: s.2 ∧ s.1.2 ≤ s'.1.2 ∧
      ((∃ ctx b, ctx.now = s'.1.2 ∧
          CouncilMoves ctx { s.1.1 with bank := b } (stepEvent s.1 step) s'.1.1) ∨
        (stepEvent s.1 step = .quiet ∧ s'.1.1.council = s.1.1.council ∧
          s'.1.1.host = s.1.1.host)) := by
  obtain ⟨hs, hnote⟩ := System.recorded_step.mp h
  refine ⟨hnote, ?_⟩
  cases step with
  | call ctx op =>
    obtain ⟨_, hclock, hs⟩ := bind_ok.mp hs
    obtain ⟨w, hw, hs⟩ := bind_ok.mp hs
    obtain ⟨hs1, hs2⟩ := Prod.mk.inj (pure_ok.mp hs)
    rw [← hs1, ← hs2]
    exact ⟨not_lt.mp (refuse_ok.mp hclock),
      Or.inl ⟨ctx, s.1.1.bank, rfl, CouncilOp.exec_moves hw⟩⟩
  | reward ctx payer caseId amount =>
    obtain ⟨_, hclock, hs⟩ := bind_ok.mp hs
    obtain ⟨w, hw, hs⟩ := bind_ok.mp hs
    obtain ⟨hs1, hs2⟩ := Prod.mk.inj (pure_ok.mp hs)
    rw [← hs1, ← hs2]
    obtain ⟨_, _, hw⟩ := bind_ok.mp hw
    obtain ⟨token, _, hw⟩ := bind_ok.mp hw
    obtain ⟨b, _, hw⟩ := bind_ok.mp hw
    exact ⟨not_lt.mp (refuse_ok.mp hclock), Or.inl ⟨ctx, b, rfl, CouncilOp.exec_moves hw⟩⟩
  | outside w' =>
    obtain ⟨hs1, hs2⟩ := Prod.mk.inj (ok_ok.mp hs)
    rw [← hs1, ← hs2]
    exact ⟨le_rfl, Or.inr ⟨rfl, rfl, rfl⟩⟩

end DikeProtocol.Council
