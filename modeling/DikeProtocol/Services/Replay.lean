import DikeProtocol.Services.Sponsorship

/-!
# One envelope for each inner transaction

The lock of an inner transaction belongs to one call at a time, and a call that
submitted stores a result before it frees the lock. What breaks the rule is a
call that read no result, and takes the lock after another call has stored one.
-/

namespace DikeProtocol.Services.Sponsorship

open Lib

namespace CallPhase

/-- Phases in which a call has its transaction's lock. -/
def holds : CallPhase → Bool
  | terminal => false
  | acquire => false
  | ended _ => false
  | _ => true

/-- Phases after the submission of an envelope. -/
def submitted : CallPhase → Bool
  | submit => true
  | completeGet _ => true
  | completeSet _ => true
  | completeDel _ => true
  | ended (.finished _) => true
  | ended .lost => true
  | _ => false

/-- Phases after a terminal result was stored. -/
def storesResult : CallPhase → Bool
  | completeDel _ => true
  | ended (.finished _) => true
  | _ => false

/-- Phases before a reservation. -/
def unreserved : CallPhase → Bool
  | terminal => true
  | acquire => true
  | reserve => true
  | _ => false

/-- Phases of a call that failed between taking the lock and submitting. -/
def turnedAway : CallPhase → Bool
  | releaseBudget _ => true
  | releaseGet _ => true
  | releaseDel _ => true
  | ended (.refused _) => true
  | _ => false

/-- Phases after a reservation may have been released. -/
def mayBeReleased : CallPhase → Bool
  | releaseGet _ => true
  | releaseDel _ => true
  | ended (.refused _) => true
  | _ => false

end CallPhase

/-- What holds of a call by itself. -/
structure CallOk (options : ServiceOptions) (call : Call) : Prop where
  started : call.submissionStarted = call.phase.submitted
  silent : call.phase.submitted = false → call.envelopes = []
  sent : call.phase.submitted = true →
    ∃ reservation, call.reservation = some reservation ∧ call.envelopes = [reservation.amount]
  unreserved : call.phase.unreserved = true → call.reservation = none
  building : call.phase = .build → ∃ reservation, call.reservation = some reservation
  kept : call.phase.mayBeReleased = false → call.released = false
  amount : ∀ reservation, call.reservation = some reservation →
    0 < reservation.amount ∧ (reservation.amount : ℤ) = call.outerFee
  quoted : (∀ code, call.phase ≠ .ended (.invalid code)) → ∃ quote,
    quoteSponsoredFee call.parsed options.feePolicy = .ok quote ∧ quote.outerFee = call.outerFee
  away : call.turnedAway = call.phase.turnedAway

section Calls

variable {options : ServiceOptions} {redis redis' : RedisState} {id : ℕ} {call call' : Call}

/-- A call whose transaction is not accepted is as it should be. -/
theorem invalidCall_ok (parsed : ParsedTransaction) (ip : String) (code : SponsorshipCode) :
    CallOk options
      ⟨parsed, ip, 0, .ended (.invalid code), none, false, [], false, false, false⟩ where
  started := rfl
  silent := fun _ => rfl
  sent := fun h => absurd h Bool.false_ne_true
  unreserved := fun _ => rfl
  building := fun h => by cases h
  kept := fun _ => rfl
  amount := fun _ h => by cases h
  quoted := fun h => absurd rfl (h code)
  away := rfl

/-- A new call is as it should be. -/
theorem newCall_ok (parsed : Except SponsorshipCode ParsedTransaction) (ip : String) :
    CallOk options (newCall options parsed ip) := by
  unfold newCall
  dsimp only
  split
  · exact invalidCall_ok _ _ _
  · split
    · exact invalidCall_ok _ _ _
    · split
      · exact invalidCall_ok _ _ _
      · next quote hquote =>
        exact {
          started := rfl
          silent := fun _ => rfl
          sent := fun h => absurd h Bool.false_ne_true
          unreserved := fun _ => rfl
          building := fun h => by cases h
          kept := fun _ => rfl
          amount := fun _ h => by cases h
          quoted := fun _ => ⟨quote, hquote, rfl⟩
          away := rfl }

/-- An accepted reservation is of the amount asked for. -/
theorem reserve_ok {source ip : String} {amount : ℤ} {nowMs : ℕ} {reservation : BudgetReservation}
    (h : reserve options redis source ip amount nowMs = (redis', .ok reservation)) :
    0 < amount ∧ reservation = ⟨nowMs / 60000, nowMs / 86400000, amount.toNat⟩ ∧
      reserveScript options.quota redis (options.keyPart source, nowMs / 60000)
        (options.keyPart ip, nowMs / 60000) (nowMs / 86400000) amount.toNat = (redis', .ok ()) := by
  unfold reserve at h
  split at h
  · cases h
  · next hpos =>
    dsimp only at h
    split at h
    · cases h
    · next heq =>
      cases h
      exact ⟨by omega, rfl, heq⟩

/-- A built envelope has the quoted fee. -/
theorem buildAndSignFeeBump_ok {parsed : ParsedTransaction} {policy : FeePolicy}
    {transaction : Except SponsorshipCode ℕ} {fee : ℕ}
    (h : buildAndSignFeeBump parsed policy transaction = .ok fee) :
    ∃ quote, quoteSponsoredFee parsed policy = .ok quote ∧ (fee : ℤ) = quote.outerFee := by
  unfold buildAndSignFeeBump at h
  split at h
  · cases h
  · cases h
  · next quote fee' hquote =>
    split at h
    · cases h
    · next hfee =>
      cases h
      exact ⟨quote, hquote, not_not.mp hfee⟩

/-- A call that only moves on within its part of the procedure stays as it should be. -/
theorem CallOk.move (h : CallOk options call) {phase : CallPhase} {late : Bool}
    (hsubmitted : phase.submitted = call.phase.submitted)
    (hunreserved : phase.unreserved = true → call.phase.unreserved = true)
    (hbuild : phase ≠ .build) (hkept : phase.mayBeReleased = false → call.released = false)
    (haway : phase.turnedAway = call.phase.turnedAway)
    (hvalid : ∀ code, call.phase ≠ .ended (.invalid code)) :
    CallOk options { call with phase, late } where
  started := h.started.trans hsubmitted.symm
  silent := fun hsilent => h.silent (hsubmitted ▸ hsilent)
  sent := fun hsent => h.sent (hsubmitted ▸ hsent)
  unreserved := fun hbefore => h.unreserved (hunreserved hbefore)
  building := fun heq => absurd heq hbuild
  kept := hkept
  amount := h.amount
  quoted := fun _ => h.quoted hvalid
  away := h.away.trans haway.symm

/-- A call that moves on from one phase to another of the same part. -/
theorem CallOk.pass (h : CallOk options call) {before phase : CallPhase}
    (hphase : call.phase = before) (late : Bool) (hsubmitted : phase.submitted = before.submitted)
    (hunreserved : phase.unreserved = true → before.unreserved = true) (hbuild : phase ≠ .build)
    (hkept : phase.mayBeReleased = false → before.mayBeReleased = false)
    (haway : phase.turnedAway = before.turnedAway)
    (hvalid : ∀ code, before ≠ .ended (.invalid code)) :
    CallOk options { call with phase, late } := by
  subst hphase
  exact h.move hsubmitted hunreserved hbuild (fun hnot => h.kept (hkept hnot)) haway hvalid

/-- A call that fails before it reserved frees its lock next. -/
theorem CallOk.failUnreserved (h : CallOk options call) (hphase : call.phase = .reserve)
    (code : SponsorshipCode) :
    call.fail code = { call with phase := .releaseGet code, turnedAway := true } ∧
      CallOk options (call.fail code) := by
  have hstarted : call.submissionStarted = false := by rw [h.started, hphase]; rfl
  have hnone : call.reservation = none := h.unreserved (by rw [hphase]; rfl)
  have hfail : call.fail code = { call with phase := .releaseGet code, turnedAway := true } := by
    unfold Call.fail
    rw [hstarted, hnone]
    rfl
  refine ⟨hfail, ?_⟩
  rw [hfail]
  exact {
    started := hstarted
    silent := fun _ => h.silent (by rw [hphase]; rfl)
    sent := fun hsent => absurd hsent Bool.false_ne_true
    unreserved := fun hbefore => absurd hbefore Bool.false_ne_true
    building := fun heq => by cases heq
    kept := fun hkept => by cases hkept
    amount := h.amount
    quoted := fun _ => h.quoted (fun code hcode => by rw [hphase] at hcode; cases hcode)
    away := rfl }

/-- A call that fails after it reserved releases its budget next. -/
theorem CallOk.failReserved (h : CallOk options call) (hphase : call.phase = .build)
    (code : SponsorshipCode) :
    call.fail code = { call with phase := .releaseBudget code, turnedAway := true } ∧
      CallOk options (call.fail code) := by
  have hstarted : call.submissionStarted = false := by rw [h.started, hphase]; rfl
  obtain ⟨reservation, hsome⟩ := h.building hphase
  have hfail : call.fail code = { call with phase := .releaseBudget code, turnedAway := true } := by
    unfold Call.fail
    rw [hstarted, hsome]
    rfl
  refine ⟨hfail, ?_⟩
  rw [hfail]
  exact {
    started := hstarted
    silent := fun _ => h.silent (by rw [hphase]; rfl)
    sent := fun hsent => absurd hsent Bool.false_ne_true
    unreserved := fun hbefore => absurd hbefore Bool.false_ne_true
    building := fun heq => by cases heq
    kept := fun _ => h.kept (by rw [hphase]; rfl)
    amount := h.amount
    quoted := fun _ => h.quoted (fun code hcode => by rw [hphase] at hcode; cases hcode)
    away := rfl }

/-- A call that fails after it submitted stores the failure next. -/
theorem CallOk.failSubmitted (h : CallOk options call) (hphase : call.phase.submitted = true)
    (hvalid : ∀ code, call.phase ≠ .ended (.invalid code))
    (haway : call.phase.turnedAway = false) (hkept : call.phase.mayBeReleased = false)
    (code : SponsorshipCode) :
    call.fail code = { call with phase := .completeGet (.failure code) } ∧
      CallOk options (call.fail code) := by
  have hfail : call.fail code = { call with phase := .completeGet (.failure code) } := by
    unfold Call.fail
    rw [h.started, hphase]
    rfl
  refine ⟨hfail, ?_⟩
  rw [hfail]
  exact h.move hphase.symm (fun hbefore => by cases hbefore) (fun heq => by cases heq)
    (fun _ => h.kept hkept) haway.symm hvalid

/-- Every command of a call keeps it as it should be. -/
theorem CallOk.command (h : CallOk options call)
    (hstep : runCommand redis id call = some (redis', call')) : CallOk options call' := by
  unfold runCommand at hstep
  dsimp only at hstep
  split at hstep
  · next hphase =>
    split at hstep <;> cases hstep
    · exact h.pass hphase call.late rfl (fun _ => rfl) (fun heq => by cases heq) (fun _ => rfl) rfl
        (fun code hcode => by cases hcode)
    · exact h.pass hphase call.late rfl (fun _ => rfl) (fun heq => by cases heq) (fun _ => rfl) rfl
        (fun code hcode => by cases hcode)
  · next hphase =>
    split at hstep <;> cases hstep
    · exact h.pass hphase call.late rfl (fun _ => rfl) (fun heq => by cases heq) (fun _ => rfl) rfl
        (fun code hcode => by cases hcode)
    · exact h.pass hphase _ rfl (fun _ => rfl) (fun heq => by cases heq) (fun _ => rfl) rfl
        (fun code hcode => by cases hcode)
  · next record hphase =>
    split at hstep
    · cases hstep
      exact h.pass hphase call.late rfl (fun hbefore => by cases hbefore)
        (fun heq => by cases heq) (fun _ => rfl) rfl (fun code hcode => by cases hcode)
    · split at hstep <;> cases hstep
      · exact (h.failSubmitted (by rw [hphase]; rfl)
          (fun code hcode => by rw [hphase] at hcode; cases hcode) (by rw [hphase]; rfl)
          (by rw [hphase]; rfl) _).2
      · exact h.pass hphase call.late rfl (fun hbefore => by cases hbefore)
          (fun heq => by cases heq) (fun _ => rfl) rfl (fun code hcode => by cases hcode)
  · next record hphase =>
    cases hstep
    exact h.pass hphase call.late rfl (fun hbefore => by cases hbefore)
      (fun heq => by cases heq) (fun _ => rfl) rfl (fun code hcode => by cases hcode)
  · next record hphase =>
    cases hstep
    exact h.pass hphase call.late rfl (fun hbefore => by cases hbefore)
      (fun heq => by cases heq) (fun _ => rfl) rfl (fun code hcode => by cases hcode)
  · next code hphase =>
    split at hstep <;> cases hstep
    · exact h.pass hphase call.late rfl (fun hbefore => by cases hbefore)
        (fun heq => by cases heq) (fun hkept => by cases hkept) rfl
        (fun code hcode => by cases hcode)
    · exact {
        started := h.started.trans (by rw [hphase]; rfl)
        silent := fun _ => h.silent (by rw [hphase]; rfl)
        sent := fun hsent => absurd hsent Bool.false_ne_true
        unreserved := fun hbefore => absurd hbefore Bool.false_ne_true
        building := fun heq => by cases heq
        kept := fun hkept => by cases hkept
        amount := h.amount
        quoted := fun _ => h.quoted (fun code hcode => by rw [hphase] at hcode; cases hcode)
        away := h.away.trans (by rw [hphase]; rfl) }
  · next code hphase =>
    split at hstep <;> cases hstep
    · exact h.pass hphase call.late rfl (fun hbefore => by cases hbefore)
        (fun heq => by cases heq) (fun hkept => by cases hkept) rfl
        (fun code hcode => by cases hcode)
    · exact h.pass hphase call.late rfl (fun hbefore => by cases hbefore)
        (fun heq => by cases heq) (fun hkept => by cases hkept) rfl
        (fun code hcode => by cases hcode)
  · next code hphase =>
    cases hstep
    exact h.pass hphase call.late rfl (fun hbefore => by cases hbefore)
      (fun heq => by cases heq) (fun hkept => by cases hkept) rfl
        (fun code hcode => by cases hcode)
  · cases hstep

/-- Every step of a call keeps it as it should be. -/
theorem CallOk.step (h : CallOk options call) {step : ServiceStep}
    (hstep : stepCall options redis id call step = some (redis', call')) :
    CallOk options call' := by
  cases step with
  | sponsor => cases hstep
  | command => exact h.command hstep
  | reserve _ nowMs =>
    dsimp only [stepCall] at hstep
    split at hstep
    · next hphase =>
      have hvalid : ∀ code, call.phase ≠ .ended (.invalid code) :=
        fun code hcode => by rw [hphase] at hcode; cases hcode
      split at hstep <;> cases hstep
      · next reservation hreserve =>
        obtain ⟨hpos, hreservation, _⟩ := reserve_ok hreserve
        exact {
          started := h.started.trans (by rw [hphase]; rfl)
          silent := fun _ => h.silent (by rw [hphase]; rfl)
          sent := fun hsent => absurd hsent Bool.false_ne_true
          unreserved := fun hbefore => absurd hbefore Bool.false_ne_true
          building := fun _ => ⟨reservation, rfl⟩
          kept := fun _ => h.kept (by rw [hphase]; rfl)
          amount := fun reservation' hsome => by
            obtain rfl := Option.some.inj hsome
            rw [hreservation]
            dsimp only
            omega
          quoted := fun _ => h.quoted hvalid
          away := h.away.trans (by rw [hphase]; rfl) }
      · exact (h.failUnreserved hphase _).2
    · cases hstep
  | build _ transaction =>
    dsimp only [stepCall] at hstep
    split at hstep
    · next hphase =>
      have hvalid : ∀ code, call.phase ≠ .ended (.invalid code) :=
        fun code hcode => by rw [hphase] at hcode; cases hcode
      split at hstep <;> cases hstep
      · next fee hbuilt =>
        obtain ⟨quote, hquote, hfee⟩ := buildAndSignFeeBump_ok hbuilt
        obtain ⟨quote', hquote', houter⟩ := h.quoted hvalid
        obtain ⟨reservation, hsome⟩ := h.building hphase
        have hamount := (h.amount reservation hsome).2
        obtain rfl : quote = quote' := by
          rw [hquote] at hquote'
          exact Except.ok.inj hquote'
        have hsame : fee = reservation.amount := by
          have hcast : (fee : ℤ) = reservation.amount := by rw [hfee, houter, hamount]
          exact_mod_cast hcast
        exact {
          started := rfl
          silent := fun hsilent => by cases hsilent
          sent := fun _ => ⟨reservation, hsome, by
            dsimp only
            rw [h.silent (by rw [hphase]; rfl), hsame]
            rfl⟩
          unreserved := fun hbefore => absurd hbefore Bool.false_ne_true
          building := fun heq => by cases heq
          kept := fun _ => h.kept (by rw [hphase]; rfl)
          amount := h.amount
          quoted := fun _ => h.quoted hvalid
          away := h.away.trans (by rw [hphase]; rfl) }
      · exact (h.failReserved hphase _).2
    · cases hstep
  | submitted _ result =>
    dsimp only [stepCall] at hstep
    split at hstep
    · next hphase =>
      split at hstep <;> cases hstep
      · exact h.pass hphase call.late rfl (fun hbefore => by cases hbefore)
          (fun heq => by cases heq) (fun _ => rfl) rfl (fun code hcode => by cases hcode)
      · exact (h.failSubmitted (by rw [hphase]; rfl)
          (fun code hcode => by rw [hphase] at hcode; cases hcode) (by rw [hphase]; rfl)
          (by rw [hphase]; rfl) _).2
    · cases hstep

/-- What a step of a call does to its lock, its result and its submission. -/
inductive LockEffect (redis redis' : RedisState) (id : ℕ) (call call' : Call) : Prop where
  /-- Nothing. -/
  | quiet (locks : redis'.locks = redis.locks) (results : redis'.results = redis.results)
      (holds : call'.phase.holds = call.phase.holds)
      (submitted : call'.phase.submitted = call.phase.submitted)
      (stores : call'.phase.storesResult = call.phase.storesResult) (late : call'.late = call.late)
  /-- It takes the lock, late if a result is stored. -/
  | take (free : redis.locks call.parsed.hash = none)
      (locks : redis'.locks = redis.locks.set call.parsed.hash (some id))
      (results : redis'.results = redis.results) (holds : call'.phase.holds = true)
      (submitted : call'.phase.submitted = false) (before : call.phase.submitted = false)
      (stores : call'.phase.storesResult = false)
      (late : call'.late = (redis.results call.parsed.hash).isSome)
  /-- It submits. -/
  | submit (locks : redis'.locks = redis.locks) (results : redis'.results = redis.results)
      (held : call.phase.holds = true) (holds : call'.phase.holds = true)
      (before : call.phase.submitted = false) (submitted : call'.phase.submitted = true)
      (stores : call'.phase.storesResult = false) (late : call'.late = call.late)
  /-- It stores its result. -/
  | store (record : ReplayRecord) (locks : redis'.locks = redis.locks)
      (results : redis'.results = redis.results.set call.parsed.hash (some record))
      (held : call.phase.holds = true) (holds : call'.phase.holds = true)
      (before : call.phase.submitted = true) (submitted : call'.phase.submitted = true)
      (stores : call'.phase.storesResult = true) (late : call'.late = call.late)
  /-- It frees its lock; if it submitted, its result is stored. -/
  | free (locks : redis'.locks = redis.locks.set call.parsed.hash none)
      (results : redis'.results = redis.results) (held : call.phase.holds = true)
      (holds : call'.phase.holds = false)
      (submitted : call'.phase.submitted = call.phase.submitted)
      (stored : call.phase.storesResult = call.phase.submitted)
      (stores : call'.phase.storesResult = call.phase.storesResult) (late : call'.late = call.late)

/-- The reservation script touches neither locks nor results. -/
theorem reserveScript_frame (redis : RedisState) (policy : QuotaPolicy)
    (sourceKey ipKey : String × ℕ) (dailyKey amount : ℕ) :
    (reserveScript policy redis sourceKey ipKey dailyKey amount).1.locks = redis.locks ∧
    (reserveScript policy redis sourceKey ipKey dailyKey amount).1.results = redis.results := by
  unfold reserveScript
  split
  · exact ⟨rfl, rfl⟩
  · split
    · exact ⟨rfl, rfl⟩
    · split
      · exact ⟨rfl, rfl⟩
      · split
        · exact ⟨rfl, rfl⟩
        · split
          · exact ⟨rfl, rfl⟩
          · split <;> exact ⟨rfl, rfl⟩

/-- Nor does a reservation. -/
theorem reserve_frame {source ip : String} {amount : ℤ} {nowMs : ℕ}
    {result : Except SponsorshipCode BudgetReservation}
    (h : reserve options redis source ip amount nowMs = (redis', result)) :
    redis'.locks = redis.locks ∧ redis'.results = redis.results := by
  unfold reserve at h
  dsimp only at h
  split at h
  · cases h
    exact ⟨rfl, rfl⟩
  · split at h
    · next heq =>
      cases h
      have hframe := reserveScript_frame redis options.quota
        (options.keyPart source, nowMs / 60000) (options.keyPart ip, nowMs / 60000)
        (nowMs / 86400000) amount.toNat
      rw [heq] at hframe
      exact hframe
    · next heq =>
      cases h
      have hframe := reserveScript_frame redis options.quota
        (options.keyPart source, nowMs / 60000) (options.keyPart ip, nowMs / 60000)
        (nowMs / 86400000) amount.toNat
      rw [heq] at hframe
      exact hframe

/-- Nothing happens to a call that moves on within its part. -/
theorem LockEffect.pass {before : CallPhase} (hphase : call.phase = before)
    (hlocks : redis'.locks = redis.locks) (hresults : redis'.results = redis.results)
    (hholds : call'.phase.holds = before.holds)
    (hsubmitted : call'.phase.submitted = before.submitted)
    (hstores : call'.phase.storesResult = before.storesResult) (hlate : call'.late = call.late) :
    LockEffect redis redis' id call call' := by
  subst hphase
  exact .quiet hlocks hresults hholds hsubmitted hstores hlate

/-- The effect of a command. -/
theorem runCommand_effect (howns : call.phase.holds = true → owns redis id call)
    (hstep : runCommand redis id call = some (redis', call')) :
    call'.parsed = call.parsed ∧ LockEffect redis redis' id call call' := by
  unfold runCommand at hstep
  dsimp only at hstep
  split at hstep
  · next hphase =>
    split at hstep <;> cases hstep <;>
      exact ⟨rfl, .pass hphase rfl rfl rfl rfl rfl rfl⟩
  · next hphase =>
    split at hstep
    · cases hstep
      exact ⟨rfl, .pass hphase rfl rfl rfl rfl rfl rfl⟩
    · next hfree =>
      cases hstep
      exact ⟨rfl, .take hfree rfl rfl rfl rfl (by rw [hphase]; rfl) rfl rfl⟩
  · next record hphase =>
    rw [if_pos (howns (by rw [hphase]; rfl))] at hstep
    cases hstep
    exact ⟨rfl, .pass hphase rfl rfl rfl rfl rfl rfl⟩
  · next record hphase =>
    cases hstep
    exact ⟨rfl, .store record rfl rfl (by rw [hphase]; rfl) rfl (by rw [hphase]; rfl) rfl rfl rfl⟩
  · next record hphase =>
    cases hstep
    exact ⟨rfl, .free rfl rfl (by rw [hphase]; rfl) rfl (by rw [hphase]; rfl) (by rw [hphase]; rfl)
      (by rw [hphase]; rfl) rfl⟩
  · next code hphase =>
    split at hstep <;> cases hstep <;>
      exact ⟨rfl, .pass hphase rfl rfl rfl rfl rfl rfl⟩
  · next code hphase =>
    rw [if_pos (howns (by rw [hphase]; rfl))] at hstep
    cases hstep
    exact ⟨rfl, .pass hphase rfl rfl rfl rfl rfl rfl⟩
  · next code hphase =>
    cases hstep
    exact ⟨rfl, .free rfl rfl (by rw [hphase]; rfl) rfl (by rw [hphase]; rfl) (by rw [hphase]; rfl)
      (by rw [hphase]; rfl) rfl⟩
  · cases hstep

/-- The effect of a step. -/
theorem stepCall_effect (howns : call.phase.holds = true → owns redis id call)
    (hok : CallOk options call) {step : ServiceStep}
    (hstep : stepCall options redis id call step = some (redis', call')) :
    call'.parsed = call.parsed ∧ LockEffect redis redis' id call call' := by
  cases step with
  | sponsor => cases hstep
  | command => exact runCommand_effect howns hstep
  | reserve _ nowMs =>
    dsimp only [stepCall] at hstep
    split at hstep
    · next hphase =>
      split at hstep <;> cases hstep
      · next hreserve =>
        obtain ⟨hlocks, hresults⟩ := reserve_frame hreserve
        exact ⟨rfl, .quiet hlocks hresults (by rw [hphase]; rfl) (by rw [hphase]; rfl)
          (by rw [hphase]; rfl) rfl⟩
      · next code hreserve =>
        obtain ⟨hlocks, hresults⟩ := reserve_frame hreserve
        rw [(hok.failUnreserved hphase code).1]
        exact ⟨rfl, .quiet hlocks hresults (by rw [hphase]; rfl) (by rw [hphase]; rfl)
          (by rw [hphase]; rfl) rfl⟩
    · cases hstep
  | build _ transaction =>
    dsimp only [stepCall] at hstep
    split at hstep
    · next hphase =>
      split at hstep <;> cases hstep
      · exact ⟨rfl, .submit rfl rfl (by rw [hphase]; rfl) rfl (by rw [hphase]; rfl) rfl rfl rfl⟩
      · next code _ =>
        rw [(hok.failReserved hphase code).1]
        exact ⟨rfl, .pass hphase rfl rfl rfl rfl rfl rfl⟩
    · cases hstep
  | submitted _ result =>
    dsimp only [stepCall] at hstep
    split at hstep
    · next hphase =>
      split at hstep <;> cases hstep
      · exact ⟨rfl, .pass hphase rfl rfl rfl rfl rfl rfl⟩
      · next code =>
        have hfail := (hok.failSubmitted (by rw [hphase]; rfl)
          (fun code hcode => by rw [hphase] at hcode; cases hcode) (by rw [hphase]; rfl)
          (by rw [hphase]; rfl) code).1
        rw [hfail]
        exact ⟨rfl, .pass hphase rfl rfl rfl rfl rfl rfl⟩
    · cases hstep

end Calls

namespace LockEffect

variable {redis redis' : RedisState} {id : ℕ} {call call' : Call}

/-- A submission is not undone. -/
theorem submitted_mono (h : LockEffect redis redis' id call call')
    (hsub : call.phase.submitted = true) : call'.phase.submitted = true := by
  cases h with
  | quiet _ _ _ hsubmitted _ _ => exact hsubmitted.trans hsub
  | take _ _ _ _ _ hbefore _ _ =>
    rw [hbefore] at hsub
    cases hsub
  | submit _ _ _ _ _ hsubmitted _ _ => exact hsubmitted
  | store _ _ _ _ _ _ hsubmitted _ _ => exact hsubmitted
  | free _ _ _ _ hsubmitted _ _ _ => exact hsubmitted.trans hsub

/-- Whether a call was late is decided before it submits. -/
theorem late_eq (h : LockEffect redis redis' id call call') (hsub : call'.phase.submitted = true) :
    call'.late = call.late := by
  cases h with
  | quiet _ _ _ _ _ hlate => exact hlate
  | take _ _ _ _ hsubmitted _ _ _ =>
    rw [hsubmitted] at hsub
    cases hsub
  | submit _ _ _ _ _ _ _ hlate => exact hlate
  | store _ _ _ _ _ _ _ _ hlate => exact hlate
  | free _ _ _ _ _ _ _ hlate => exact hlate

/-- Only a call with the lock submits. -/
theorem holds_of_submits (h : LockEffect redis redis' id call call')
    (hbefore : call.phase.submitted = false) (hsub : call'.phase.submitted = true) :
    call.phase.holds = true := by
  cases h with
  | quiet _ _ _ hsubmitted _ _ =>
    rw [hsubmitted, hbefore] at hsub
    cases hsub
  | take _ _ _ _ hsubmitted _ _ _ =>
    rw [hsubmitted] at hsub
    cases hsub
  | submit _ _ hheld _ _ _ _ _ => exact hheld
  | store _ _ _ hheld _ _ _ _ _ => exact hheld
  | free _ _ hheld _ _ _ _ _ => exact hheld

/-- A result stays stored. -/
theorem results_mono (h : LockEffect redis redis' id call call') {hash : String}
    (hsome : redis.results hash ≠ none) : redis'.results hash ≠ none := by
  cases h with
  | quiet _ hresults _ _ _ _ => rwa [hresults]
  | take _ _ hresults _ _ _ _ _ => rwa [hresults]
  | submit _ hresults _ _ _ _ _ _ => rwa [hresults]
  | store record _ hresults _ _ _ _ _ _ =>
    rw [hresults, Store.set_get]
    split
    · exact Option.some_ne_none record
    · exact hsome
  | free _ hresults _ _ _ _ _ _ => rwa [hresults]

/-- A new result is stored by a call that submitted and has the lock. -/
theorem results_new (h : LockEffect redis redis' id call call') {hash : String}
    (hsome : redis'.results hash ≠ none) : redis.results hash ≠ none ∨
      (hash = call.parsed.hash ∧ call.phase.holds = true ∧ call.phase.submitted = true) := by
  cases h with
  | quiet _ hresults _ _ _ _ => exact Or.inl (by rwa [hresults] at hsome)
  | take _ _ hresults _ _ _ _ _ => exact Or.inl (by rwa [hresults] at hsome)
  | submit _ hresults _ _ _ _ _ _ => exact Or.inl (by rwa [hresults] at hsome)
  | store _ _ hresults hheld _ hbefore _ _ _ =>
    rw [hresults, Store.set_get] at hsome
    split at hsome
    · next heq => exact Or.inr ⟨heq, hheld, hbefore⟩
    · exact Or.inl hsome
  | free _ hresults _ _ _ _ _ _ => exact Or.inl (by rwa [hresults] at hsome)

/-- The locks of other calls stay theirs. -/
theorem locks_other (h : LockEffect redis redis' id call call')
    (howns : call.phase.holds = true → owns redis id call) {hash : String} {other : ℕ}
    (hother : other ≠ id) (hlock : redis.locks hash = some other) :
    redis'.locks hash = some other := by
  cases h with
  | quiet hlocks _ _ _ _ _ => rwa [hlocks]
  | take hfree hlocks _ _ _ _ _ _ =>
    rw [hlocks, Store.set_get]
    split
    · next heq =>
      rw [heq, hfree] at hlock
      cases hlock
    · exact hlock
  | submit hlocks _ _ _ _ _ _ _ => rwa [hlocks]
  | store _ hlocks _ _ _ _ _ _ _ => rwa [hlocks]
  | free hlocks _ hheld _ _ _ _ _ =>
    rw [hlocks, Store.set_get]
    split
    · next heq =>
      have hmine : redis.locks call.parsed.hash = some id := howns hheld
      rw [heq, hmine] at hlock
      exact absurd (Option.some.inj hlock).symm hother
    · exact hlock

/-- A call that has the lock afterwards owns it. -/
theorem locks_self (h : LockEffect redis redis' id call call')
    (howns : call.phase.holds = true → owns redis id call) (hholds : call'.phase.holds = true) :
    redis'.locks call.parsed.hash = some id := by
  cases h with
  | quiet hlocks _ hsame _ _ _ =>
    rw [hlocks]
    exact howns (hsame.symm.trans hholds)
  | take _ hlocks _ _ _ _ _ _ =>
    rw [hlocks]
    exact Store.set_get_self _ _ _
  | submit hlocks _ hheld _ _ _ _ _ =>
    rw [hlocks]
    exact howns hheld
  | store _ hlocks _ hheld _ _ _ _ _ =>
    rw [hlocks]
    exact howns hheld
  | free _ _ _ hfreed _ _ _ _ =>
    rw [hfreed] at hholds
    cases hholds

/-- A call that stores a result afterwards finds one. -/
theorem stored_self (h : LockEffect redis redis' id call call')
    (hstored : call.phase.storesResult = true → redis.results call.parsed.hash ≠ none)
    (hstores : call'.phase.storesResult = true) : redis'.results call.parsed.hash ≠ none := by
  cases h with
  | quiet _ hresults _ _ hsame _ =>
    rw [hresults]
    exact hstored (hsame.symm.trans hstores)
  | take _ _ _ _ _ _ hnone _ =>
    rw [hnone] at hstores
    cases hstores
  | submit _ _ _ _ _ _ hnone _ =>
    rw [hnone] at hstores
    cases hstores
  | store record _ hresults _ _ _ _ _ _ =>
    rw [hresults, Store.set_get_self]
    exact Option.some_ne_none record
  | free _ hresults _ _ _ _ hsame _ =>
    rw [hresults]
    exact hstored (hsame.symm.trans hstores)

/-- A call that submitted has the lock or stores its result. -/
theorem pending_self (h : LockEffect redis redis' id call call')
    (hpending : call.phase.submitted = true →
      call.phase.holds = true ∨ call.phase.storesResult = true)
    (hsub : call'.phase.submitted = true) :
    call'.phase.holds = true ∨ call'.phase.storesResult = true := by
  cases h with
  | quiet _ _ hholds hsubmitted hstores _ =>
    rw [hholds, hstores]
    exact hpending (hsubmitted.symm.trans hsub)
  | take _ _ _ hholds _ _ _ _ => exact Or.inl hholds
  | submit _ _ _ hholds _ _ _ _ => exact Or.inl hholds
  | store _ _ _ _ hholds _ _ _ _ => exact Or.inl hholds
  | free _ _ _ _ hsubmitted hstored hstores _ =>
    exact Or.inr ((hstores.trans hstored).trans (hsubmitted.symm.trans hsub))

/-- A call that has the lock in time, and did not submit, finds no result. -/
theorem fresh_self (h : LockEffect redis redis' id call call')
    (hfresh : call.phase.holds = true → call.phase.submitted = false → call.late = false →
      redis.results call.parsed.hash = none)
    (hholds : call'.phase.holds = true) (hsilent : call'.phase.submitted = false)
    (hintime : call'.late = false) : redis'.results call.parsed.hash = none := by
  cases h with
  | quiet _ hresults hsame hsubmitted _ hlate =>
    rw [hresults]
    exact hfresh (hsame.symm.trans hholds) (hsubmitted.symm.trans hsilent)
      (hlate.symm.trans hintime)
  | take _ _ hresults _ _ _ _ hlate =>
    rw [hresults]
    rw [hintime] at hlate
    exact Option.isSome_eq_false_iff.mp hlate.symm |> Option.isNone_iff_eq_none.mp
  | submit _ _ _ _ _ hsubmitted _ _ =>
    rw [hsubmitted] at hsilent
    cases hsilent
  | store _ _ _ _ _ _ hsubmitted _ _ =>
    rw [hsubmitted] at hsilent
    cases hsilent
  | free _ _ _ hfreed _ _ _ _ =>
    rw [hfreed] at hholds
    cases hholds

/-- A late call was late before, or it takes the lock now and a result is stored. -/
theorem late_new (h : LockEffect redis redis' id call call') (hlate : call'.late = true) :
    call.late = true ∨
      (call.phase.submitted = false ∧ redis.results call.parsed.hash ≠ none) := by
  cases h with
  | quiet _ _ _ _ _ hsame => exact Or.inl (hsame.symm.trans hlate)
  | take _ _ _ _ _ hbefore _ hsame =>
    rw [hlate] at hsame
    exact Or.inr ⟨hbefore, fun hnone => by rw [hnone] at hsame; cases hsame⟩
  | submit _ _ _ _ _ _ _ hsame => exact Or.inl (hsame.symm.trans hlate)
  | store _ _ _ _ _ _ _ _ hsame => exact Or.inl (hsame.symm.trans hlate)
  | free _ _ _ _ _ _ _ hsame => exact Or.inl (hsame.symm.trans hlate)

end LockEffect

/-- A call of the service that submitted an envelope for a hash. -/
def Submitted (s : ServiceState) (hash : String) (id : ℕ) : Prop :=
  ∃ call, s.calls id = some call ∧ call.parsed.hash = hash ∧ call.phase.submitted = true

/-- What holds in every run. The lock of a transaction is one call's, a result means that an
envelope was submitted, a call that took the lock in time finds no result until it submits, and a
late one comes after another call's envelope. -/
structure ReplayInvariant (options : ServiceOptions) (s : ServiceState) : Prop where
  ok : ∀ id call, s.calls id = some call → CallOk options call
  owns : ∀ id call, s.calls id = some call → call.phase.holds = true → owns s.redis id call
  results : ∀ hash, s.redis.results hash ≠ none → ∃ id, Submitted s hash id
  stored : ∀ id call, s.calls id = some call → call.phase.storesResult = true →
    s.redis.results call.parsed.hash ≠ none
  pending : ∀ id call, s.calls id = some call → call.phase.submitted = true →
    call.phase.holds = true ∨ call.phase.storesResult = true
  fresh : ∀ id call, s.calls id = some call → call.phase.holds = true →
    call.phase.submitted = false → call.late = false → s.redis.results call.parsed.hash = none
  late : ∀ id call, s.calls id = some call → call.late = true →
    ∃ other, other ≠ id ∧ Submitted s call.parsed.hash other
  single : (∀ id call, s.calls id = some call → call.phase.submitted = true → call.late = false) →
    ∀ hash id other, Submitted s hash id → Submitted s hash other → id = other

section Runs

variable {options : ServiceOptions} {s s' : ServiceState}

/-- A call of the state after one call was written. -/
theorem calls_set {calls : Store ℕ (Option Call)} {id other : ℕ} {written call : Call}
    (h : (calls.set id (some written)) other = some call) :
    (other = id ∧ call = written) ∨ (other ≠ id ∧ calls other = some call) := by
  rw [Store.set_get] at h
  split at h
  · next heq => exact Or.inl ⟨heq, (Option.some.inj h).symm⟩
  · next hne => exact Or.inr ⟨hne, h⟩

/-- Calls that submitted stay so while one call moves on. -/
theorem Submitted.step {hash : String} {id other : ℕ} {call call' : Call} {redis' : RedisState}
    (hcall : s.calls id = some call) (hparsed : call'.parsed = call.parsed)
    (hsubmitted : call.phase.submitted = true → call'.phase.submitted = true)
    (h : Submitted s hash other) : Submitted ⟨redis', s.calls.set id (some call')⟩ hash other := by
  obtain ⟨c, hc, hhash, hsub⟩ := h
  by_cases heq : other = id
  · subst heq
    rw [hcall] at hc
    obtain rfl := Option.some.inj hc
    exact ⟨call', Store.set_get_self _ _ _, by rw [hparsed]; exact hhash, hsubmitted hsub⟩
  · exact ⟨c, (Store.set_get_of_ne _ _ heq).trans hc, hhash, hsub⟩

/-- A call that submitted afterwards did so before, or it is the one that moved. -/
theorem Submitted.before {hash : String} {id other : ℕ} {call call' : Call} {redis' : RedisState}
    (hcall : s.calls id = some call) (hparsed : call'.parsed = call.parsed)
    (h : Submitted ⟨redis', s.calls.set id (some call')⟩ hash other) :
    Submitted s hash other ∨ (other = id ∧ call.parsed.hash = hash ∧
      call'.phase.submitted = true ∧ call.phase.submitted = false) := by
  obtain ⟨c, hc, hhash, hsub⟩ := h
  obtain ⟨rfl, rfl⟩ | ⟨_, hc⟩ := calls_set hc
  · rw [hparsed] at hhash
    by_cases hbefore : call.phase.submitted = true
    · exact Or.inl ⟨call, hcall, hhash, hbefore⟩
    · exact Or.inr ⟨rfl, hhash, hsub, eq_false_of_ne_true hbefore⟩
  · exact Or.inl ⟨c, hc, hhash, hsub⟩

/-- Two calls for one transaction do not both have the lock. -/
theorem ReplayInvariant.holder (h : ReplayInvariant options s) {id other : ℕ} {call c : Call}
    (hcall : s.calls id = some call) (hc : s.calls other = some c)
    (hhash : c.parsed.hash = call.parsed.hash) (hheld : call.phase.holds = true)
    (hholds : c.phase.holds = true) : other = id := by
  have hmine : s.redis.locks call.parsed.hash = some id := h.owns id call hcall hheld
  have htheirs : s.redis.locks c.parsed.hash = some other := h.owns other c hc hholds
  rw [hhash, hmine] at htheirs
  exact (Option.some.inj htheirs).symm

/-- Whoever submits now has the lock and found no result, so nobody submitted before. -/
theorem ReplayInvariant.submits_alone (h : ReplayInvariant options s) {id other : ℕ}
    {call call' : Call} {redis' : RedisState} (hcall : s.calls id = some call)
    (heffect : LockEffect s.redis redis' id call call') (hsub : call'.phase.submitted = true)
    (hbefore : call.phase.submitted = false) (hintime : call'.late = false)
    (hother : Submitted s call.parsed.hash other) : other = id := by
  obtain ⟨c, hc, hhash, hsubmitted⟩ := hother
  have hheld := heffect.holds_of_submits hbefore hsub
  have hlate := (heffect.late_eq hsub).symm.trans hintime
  have hnone := h.fresh id call hcall hheld hbefore hlate
  rcases h.pending other c hc hsubmitted with hholds | hstores
  · exact h.holder hcall hc hhash hheld hholds
  · have hsome := h.stored other c hc hstores
    rw [hhash] at hsome
    exact absurd hnone hsome

/-- A step of one call keeps the invariant. -/
theorem ReplayInvariant.call (h : ReplayInvariant options s) {id : ℕ} {call call' : Call}
    {redis' : RedisState} (hcall : s.calls id = some call) (hok' : CallOk options call')
    (hparsed : call'.parsed = call.parsed)
    (heffect : LockEffect s.redis redis' id call call') :
    ReplayInvariant options ⟨redis', s.calls.set id (some call')⟩ := by
  have howns : call.phase.holds = true → Sponsorship.owns s.redis id call := h.owns id call hcall
  have hstep : ∀ {hash other}, Submitted s hash other →
      Submitted ⟨redis', s.calls.set id (some call')⟩ hash other :=
    fun hother => hother.step hcall hparsed heffect.submitted_mono
  refine ⟨?_, ?_, ?_, ?_, ?_, ?_, ?_, ?_⟩
  · intro other c hc
    obtain ⟨_, rfl⟩ | ⟨_, hc⟩ := calls_set hc
    · exact hok'
    · exact h.ok other c hc
  · intro other c hc hholds
    obtain ⟨rfl, rfl⟩ | ⟨hother, hc⟩ := calls_set hc
    · unfold Sponsorship.owns
      rw [hparsed]
      exact heffect.locks_self howns hholds
    · exact heffect.locks_other howns hother (h.owns other c hc hholds)
  · intro hash hsome
    obtain hbefore | ⟨rfl, _, hsub⟩ := heffect.results_new hsome
    · obtain ⟨other, hother⟩ := h.results hash hbefore
      exact ⟨other, hstep hother⟩
    · exact ⟨id, hstep ⟨call, hcall, rfl, hsub⟩⟩
  · intro other c hc hstores
    obtain ⟨rfl, rfl⟩ | ⟨_, hc⟩ := calls_set hc
    · rw [hparsed]
      exact heffect.stored_self (h.stored _ call hcall) hstores
    · exact heffect.results_mono (h.stored other c hc hstores)
  · intro other c hc hsub
    obtain ⟨rfl, rfl⟩ | ⟨_, hc⟩ := calls_set hc
    · exact heffect.pending_self (h.pending _ call hcall) hsub
    · exact h.pending other c hc hsub
  · intro other c hc hholds hsilent hintime
    obtain ⟨rfl, rfl⟩ | ⟨hother, hc⟩ := calls_set hc
    · rw [hparsed]
      exact heffect.fresh_self (h.fresh _ call hcall) hholds hsilent hintime
    · -- only the owner of the lock stores a result
      by_contra hsome
      obtain hbefore | ⟨hhash, hheld, _⟩ := heffect.results_new hsome
      · exact hbefore (h.fresh other c hc hholds hsilent hintime)
      · exact hother (h.holder hcall hc hhash hheld hholds)
  · intro other c hc hlate
    obtain ⟨rfl, rfl⟩ | ⟨_, hc⟩ := calls_set hc
    · rw [hparsed]
      obtain hbefore | ⟨hsilent, hsome⟩ := heffect.late_new hlate
      · obtain ⟨another, hne, hsub⟩ := h.late other call hcall hbefore
        exact ⟨another, hne, hstep hsub⟩
      · -- a result is stored: another call submitted
        obtain ⟨another, hsub⟩ := h.results call.parsed.hash hsome
        refine ⟨another, ?_, hstep hsub⟩
        rintro rfl
        obtain ⟨c', hc', _, hsub'⟩ := hsub
        rw [hcall] at hc'
        obtain rfl := Option.some.inj hc'
        rw [hsilent] at hsub'
        cases hsub'
    · obtain ⟨another, hne, hsub⟩ := h.late other c hc hlate
      exact ⟨another, hne, hstep hsub⟩
  · intro hintime hash first second hfirst hsecond
    have hself : call'.phase.submitted = true → call'.late = false :=
      hintime id call' (Store.set_get_self _ _ _)
    have hintime' : ∀ other c, s.calls other = some c → c.phase.submitted = true →
        c.late = false := by
      intro other c hc hsub
      by_cases heq : other = id
      · subst heq
        rw [hcall] at hc
        obtain rfl := Option.some.inj hc
        have hsub' := heffect.submitted_mono hsub
        rw [← heffect.late_eq hsub']
        exact hself hsub'
      · exact hintime other c ((Store.set_get_of_ne _ _ heq).trans hc) hsub
    obtain hold | ⟨rfl, rfl, hsub, hbefore⟩ := hfirst.before hcall hparsed
    · obtain hold' | ⟨rfl, rfl, hsub, hbefore⟩ := hsecond.before hcall hparsed
      · exact h.single hintime' hash first second hold hold'
      · exact h.submits_alone hcall heffect hsub hbefore (hself hsub) hold
    · obtain hold' | ⟨rfl, _, _, _⟩ := hsecond.before hcall hparsed
      · exact (h.submits_alone hcall heffect hsub hbefore (hself hsub) hold').symm
      · rfl

/-- A new call has no lock, no envelope and no result. -/
theorem newCall_idle (parsed : Except SponsorshipCode ParsedTransaction) (ip : String) :
    (newCall options parsed ip).phase.holds = false ∧
      (newCall options parsed ip).phase.submitted = false ∧
      (newCall options parsed ip).phase.storesResult = false ∧
      (newCall options parsed ip).late = false := by
  unfold newCall
  dsimp only
  split
  · exact ⟨rfl, rfl, rfl, rfl⟩
  · split
    · exact ⟨rfl, rfl, rfl, rfl⟩
    · split <;> exact ⟨rfl, rfl, rfl, rfl⟩

/-- A call that comes in keeps the invariant. -/
theorem ReplayInvariant.sponsor (h : ReplayInvariant options s) {id : ℕ}
    (hnone : s.calls id = none) (parsed : Except SponsorshipCode ParsedTransaction) (ip : String) :
    ReplayInvariant options
      { s with calls := s.calls.set id (some (newCall options parsed ip)) } := by
  obtain ⟨hholds, hsubmitted, hstores, hlate⟩ := @newCall_idle options parsed ip
  have hstep : ∀ {hash other}, Submitted s hash other →
      Submitted { s with calls := s.calls.set id (some (newCall options parsed ip)) } hash
        other := by
    rintro hash other ⟨c, hc, hsub⟩
    refine ⟨c, ?_, hsub⟩
    rw [← hc]
    apply Store.set_get_of_ne
    rintro rfl
    rw [hnone] at hc
    cases hc
  have hback : ∀ {hash other}, Submitted { s with
      calls := s.calls.set id (some (newCall options parsed ip)) } hash other →
        Submitted s hash other := by
    rintro hash other ⟨c, hc, hhash, hsub⟩
    obtain ⟨_, rfl⟩ | ⟨_, hc⟩ := calls_set hc
    · rw [hsubmitted] at hsub
      cases hsub
    · exact ⟨c, hc, hhash, hsub⟩
  refine ⟨?_, ?_, ?_, ?_, ?_, ?_, ?_, ?_⟩
  · intro other c hc
    obtain ⟨_, rfl⟩ | ⟨_, hc⟩ := calls_set hc
    · exact newCall_ok parsed ip
    · exact h.ok other c hc
  · intro other c hc hheld
    obtain ⟨_, rfl⟩ | ⟨_, hc⟩ := calls_set hc
    · rw [hholds] at hheld
      cases hheld
    · exact h.owns other c hc hheld
  · intro hash hsome
    obtain ⟨other, hother⟩ := h.results hash hsome
    exact ⟨other, hstep hother⟩
  · intro other c hc hstored
    obtain ⟨_, rfl⟩ | ⟨_, hc⟩ := calls_set hc
    · rw [hstores] at hstored
      cases hstored
    · exact h.stored other c hc hstored
  · intro other c hc hsub
    obtain ⟨_, rfl⟩ | ⟨_, hc⟩ := calls_set hc
    · rw [hsubmitted] at hsub
      cases hsub
    · exact h.pending other c hc hsub
  · intro other c hc hheld hsilent hintime
    obtain ⟨_, rfl⟩ | ⟨_, hc⟩ := calls_set hc
    · rw [hholds] at hheld
      cases hheld
    · exact h.fresh other c hc hheld hsilent hintime
  · intro other c hc hl
    obtain ⟨_, rfl⟩ | ⟨_, hc⟩ := calls_set hc
    · rw [hlate] at hl
      cases hl
    · obtain ⟨another, hne, hsub⟩ := h.late other c hc hl
      exact ⟨another, hne, hstep hsub⟩
  · intro hintime hash first second hfirst hsecond
    refine h.single ?_ hash first second (hback hfirst) (hback hsecond)
    intro other c hc hsub
    refine hintime other c ?_ hsub
    rw [← hc]
    apply Store.set_get_of_ne
    rintro rfl
    rw [hnone] at hc
    cases hc

/-- What a step of the service is: a call that comes in, or a step of one that did. -/
theorem serviceSystem_cases {step : ServiceStep}
    (h : (serviceSystem options).step s step = .ok s') :
    (∃ id parsed ip, s.calls id = none ∧
      s' = { s with calls := s.calls.set id (some (newCall options parsed ip)) }) ∨
    ∃ id call redis' call', s.calls id = some call ∧
      stepCall options s.redis id call step = some (redis', call') ∧
      s' = ⟨redis', s.calls.set id (some call')⟩ := by
  unfold serviceSystem at h
  dsimp only at h
  split at h
  · next id parsed ip hnone =>
    cases h
    exact Or.inl ⟨id, parsed, ip, hnone, rfl⟩
  · next call hcall =>
    split at h
    · next redis' call' hstep =>
      cases h
      exact Or.inr ⟨_, call, redis', call', hcall, hstep, rfl⟩
    · cases h
  · cases h

/-- It holds in every run. -/
theorem replayInvariant_of_reachable (h : (serviceSystem options).Reachable s) :
    ReplayInvariant options s := by
  refine h.invariant ?_ ?_
  · rintro s rfl
    refine ⟨?_, ?_, ?_, ?_, ?_, ?_, ?_, ?_⟩
    · exact fun _ _ hc => by cases hc
    · exact fun _ _ hc => by cases hc
    · exact fun _ hsome => absurd rfl hsome
    · exact fun _ _ hc => by cases hc
    · exact fun _ _ hc => by cases hc
    · exact fun _ _ hc => by cases hc
    · exact fun _ _ hc => by cases hc
    · rintro _ _ _ _ ⟨_, hc, _⟩
      cases hc
  · intro s step s' hs _ hstep
    obtain ⟨id, parsed, ip, hnone, rfl⟩ | ⟨id, call, redis', call', hcall, hmove, rfl⟩ :=
      serviceSystem_cases hstep
    · exact hs.sponsor hnone parsed ip
    · obtain ⟨hparsed, heffect⟩ := stepCall_effect (hs.owns id call hcall) (hs.ok id call hcall)
        hmove
      exact hs.call hcall ((hs.ok id call hcall).step hmove) hparsed heffect

/-- The envelopes that the calls on one inner hash submitted. -/
def envelopeTally (hash : String) : Tally ℕ (Option Call) ℕ where
  weight := fun _ call =>
    match call with
    | none => 0
    | some call => if call.parsed.hash = hash then call.envelopes.length else 0
  weight_default := fun _ => rfl

/-- Every call that ended on an accepted transaction without an envelope of its own was rejected
as a replay or answered with the stored result. -/
def OthersReplay (s : ServiceState) : Prop :=
  ∀ id call outcome, s.calls id = some call → call.phase = .ended outcome →
    (∀ code, outcome ≠ .invalid code) → call.envelopes = [] →
    outcome = .replay ∨ ∃ record, outcome = .stored record

/-- At most one envelope for each inner hash, and all other calls are replays. -/
structure OneEnvelope (s : ServiceState) : Prop where
  once : ∀ hash, s.calls.total (envelopeTally hash) ≤ 1
  others : OthersReplay s

/-- No call that submitted took the lock while a terminal result was stored, and none that ended
was turned away by the quota, the budget or the signer. -/
structure Undisturbed (s : ServiceState) : Prop where
  inTime : ∀ id call, s.calls id = some call → call.envelopes ≠ [] → call.late = false
  admitted : ∀ id call outcome, s.calls id = some call → call.phase = .ended outcome →
    call.turnedAway = false

/-- A call has one envelope once it submitted and none before. -/
theorem CallOk.envelopes_length {call : Call} (h : CallOk options call) :
    call.envelopes.length = if call.phase.submitted = true then 1 else 0 := by
  split
  · next hsub =>
    obtain ⟨reservation, _, henvelopes⟩ := h.sent hsub
    rw [henvelopes]
    rfl
  · next hsilent =>
    rw [h.silent (eq_false_of_ne_true hsilent)]
    rfl

/-- The envelopes for a hash are the calls on it that submitted. -/
theorem ReplayInvariant.weight (h : ReplayInvariant options s) (hash : String) (id : ℕ) :
    (envelopeTally hash).weight id (s.calls id) ≤ 1 ∧
      ((envelopeTally hash).weight id (s.calls id) ≠ 0 ↔ Submitted s hash id) := by
  unfold envelopeTally
  dsimp only
  cases hcall : s.calls id with
  | none =>
    refine ⟨Nat.zero_le _, fun hne => absurd rfl hne, ?_⟩
    rintro ⟨c, hc, _⟩
    rw [hcall] at hc
    cases hc
  | some call =>
    have hlength := (h.ok id call hcall).envelopes_length
    dsimp only
    split
    · next hhash =>
      rw [hlength]
      split
      · next hsub => exact ⟨le_rfl, fun _ => ⟨call, hcall, hhash, hsub⟩, fun _ => one_ne_zero⟩
      · next hsilent =>
        refine ⟨Nat.zero_le _, fun hne => absurd rfl hne, ?_⟩
        rintro ⟨c, hc, _, hsub⟩
        rw [hcall] at hc
        obtain rfl := Option.some.inj hc
        exact absurd hsub hsilent
    · next hother =>
      refine ⟨Nat.zero_le _, fun hne => absurd rfl hne, ?_⟩
      rintro ⟨c, hc, hhash, _⟩
      rw [hcall] at hc
      obtain rfl := Option.some.inj hc
      exact absurd hhash hother

/-- A call that submitted is one that has an envelope. -/
theorem CallOk.submitted_iff {call : Call} (h : CallOk options call) :
    call.envelopes ≠ [] ↔ call.phase.submitted = true := by
  have hlength := h.envelopes_length
  rw [← List.length_pos_iff]
  split at hlength
  · next hsub => exact ⟨fun _ => hsub, fun _ => by omega⟩
  · next hsilent => exact ⟨fun hpos => by omega, fun hsub => absurd hsub hsilent⟩

/-- At most one envelope is submitted for each hash exactly when no call that submitted was late. -/
theorem ReplayInvariant.once_iff (h : ReplayInvariant options s) :
    (∀ hash, s.calls.total (envelopeTally hash) ≤ 1) ↔
      ∀ id call, s.calls id = some call → call.envelopes ≠ [] → call.late = false := by
  constructor
  · intro honce id call hcall hsent
    by_contra hlate
    obtain ⟨other, hne, hother⟩ := h.late id call hcall (Bool.eq_true_of_not_eq_false hlate)
    have hmine : Submitted s call.parsed.hash id :=
      ⟨call, hcall, rfl, (h.ok id call hcall).submitted_iff.mp hsent⟩
    have hcount : ∀ i, Submitted s call.parsed.hash i → i ∈ s.calls.written ∧
        1 ≤ (envelopeTally call.parsed.hash).weight i (s.calls i) := by
      intro i hi
      have hweight := (h.weight call.parsed.hash i).2.mpr hi
      refine ⟨?_, Nat.one_le_iff_ne_zero.mpr hweight⟩
      by_contra hunwritten
      rw [s.calls.get_unwritten i hunwritten, Tally.weight_default] at hweight
      exact hweight rfl
    obtain ⟨hwritten, hone⟩ := hcount id hmine
    obtain ⟨hwritten', hone'⟩ := hcount other hother
    have hpair := Finset.sum_le_sum_of_subset
      (f := fun i => (envelopeTally call.parsed.hash).weight i (s.calls i))
      (Finset.insert_subset hwritten' (Finset.singleton_subset_iff.mpr hwritten))
    rw [Finset.sum_pair hne] at hpair
    have htotal := honce call.parsed.hash
    unfold Store.total at htotal
    omega
  · intro hintime hash
    have hsingle := h.single (fun id call hcall hsub =>
      hintime id call hcall ((h.ok id call hcall).submitted_iff.mpr hsub))
    by_cases hsome : ∃ id, Submitted s hash id
    · obtain ⟨id, hid⟩ := hsome
      have hzero : ∀ i ∈ s.calls.written, i ≠ id →
          (envelopeTally hash).weight i (s.calls i) = 0 := by
        intro i _ hne
        by_contra hweight
        exact hne (hsingle hash i id ((h.weight hash i).2.mp hweight) hid)
      unfold Store.total
      rw [Finset.sum_eq_single id hzero]
      · exact (h.weight hash id).1
      · intro hunwritten
        rw [s.calls.get_unwritten id hunwritten, Tally.weight_default]
    · have hzero : s.calls.total (envelopeTally hash) = 0 := by
        apply Finset.sum_eq_zero
        intro i _
        by_contra hweight
        exact hsome ⟨i, (h.weight hash i).2.mp hweight⟩
      rw [hzero]
      exact Nat.zero_le _

/-- The other calls are replays exactly when none was turned away. -/
theorem ReplayInvariant.others_iff (h : ReplayInvariant options s) :
    OthersReplay s ↔ ∀ id call outcome, s.calls id = some call → call.phase = .ended outcome →
      call.turnedAway = false := by
  constructor
  · intro hothers id call outcome hcall hphase
    have hok := h.ok id call hcall
    rw [hok.away, hphase]
    cases outcome with
    | refused code =>
      have hsilent : call.envelopes = [] := hok.silent (by rw [hphase]; rfl)
      obtain hreplay | ⟨_, hstored⟩ := hothers id call _ hcall hphase
        (fun _ heq => by cases heq) hsilent
      · cases hreplay
      · cases hstored
    | invalid | stored | replay | finished | lost => rfl
  · intro hadmitted id call outcome hcall hphase hvalid hsilent
    have hok := h.ok id call hcall
    cases outcome with
    | invalid code => exact absurd rfl (hvalid code)
    | stored record => exact Or.inr ⟨record, rfl⟩
    | replay => exact Or.inl rfl
    | refused code =>
      have haway := hadmitted id call _ hcall hphase
      rw [hok.away, hphase] at haway
      cases haway
    | finished | lost => exact absurd hsilent (hok.submitted_iff.mpr (by rw [hphase]; rfl))

/-- In every run of any number of calls, interleaved in any way: at most one envelope is submitted
for each inner hash and all other calls are replays, if and only if no call that submitted took
the lock while a terminal result was stored, and none was turned away in between. -/
theorem oneEnvelope_iff_undisturbed (h : (serviceSystem options).Reachable s) :
    OneEnvelope s ↔ Undisturbed s := by
  have hinv := replayInvariant_of_reachable h
  constructor
  · rintro ⟨honce, hothers⟩
    exact ⟨hinv.once_iff.mp honce, hinv.others_iff.mp hothers⟩
  · rintro ⟨hintime, hadmitted⟩
    exact ⟨hinv.once_iff.mpr hintime, hinv.others_iff.mpr hadmitted⟩

end Runs

section Sample

/-- A policy that admits the sample transaction. -/
def sampleOptions : ServiceOptions where
  enabled := true
  feePolicy := ⟨100, 1000, 500⟩
  quota := ⟨10, 30, 10000⟩
  keyPart := fun part => part

/-- A transaction with an inclusion fee of 100 and a resource fee of 50. -/
def sampleTransaction : ParsedTransaction := ⟨"inner", "G", 150, 50⟩

/-- Nothing is stored and no call came in. -/
def idleService : ServiceState := ⟨⟨.empty, .empty, .empty, .empty, .empty⟩, .empty⟩

/-- A call from the reading of the terminal result to the lock. -/
def takesLock (id : ℕ) : List ServiceStep :=
  [.command id, .command id]

/-- A call from the reservation to the end, for an envelope of fee 250. -/
def submitsAndEnds (id : ℕ) : List ServiceStep :=
  [.reserve id 0, .build id (.ok 250), .submitted id (.ok "outer"), .command id, .command id,
    .command id]

/-- Two calls on one transaction, one after the other. -/
theorem oneEnvelope_sample : ∃ s, (serviceSystem sampleOptions).runs idleService
    ([.sponsor 0 (.ok sampleTransaction) "ip"] ++ takesLock 0 ++ submitsAndEnds 0 ++
      [.sponsor 1 (.ok sampleTransaction) "ip", .command 1]) = .ok s ∧
    (OneEnvelope s ↔ Undisturbed s) := by
  obtain ⟨s, hs, _⟩ := System.runs_of_decide (S := serviceSystem sampleOptions) idleService
    ([.sponsor 0 (.ok sampleTransaction) "ip"] ++ takesLock 0 ++ submitsAndEnds 0 ++
      [.sponsor 1 (.ok sampleTransaction) "ip", .command 1]) (fun _ => true) (by decide +kernel)
  exact ⟨s, hs, oneEnvelope_iff_undisturbed (System.Reachable.runs (.init rfl) _ hs)⟩

/-- The second call reads no terminal result, the first one submits and ends, and the second then
gets the lock and submits too. -/
theorem not_always_oneEnvelope : ¬∀ (options : ServiceOptions) (s : ServiceState),
    (serviceSystem options).Reachable s → OneEnvelope s := by
  intro hall
  obtain ⟨s, hs, hboth⟩ := System.runs_of_decide (S := serviceSystem sampleOptions) idleService
    ([.sponsor 0 (.ok sampleTransaction) "ip", .sponsor 1 (.ok sampleTransaction) "ip",
      .command 1] ++ takesLock 0 ++ submitsAndEnds 0 ++ [.command 1] ++ submitsAndEnds 1)
    (fun s => s.calls.total (envelopeTally "inner") = 2) (by decide +kernel)
  have honce := (hall sampleOptions s (System.Reachable.runs (.init rfl) _ hs)).once "inner"
  have htwo := of_decide_eq_true hboth
  omega

end Sample

end DikeProtocol.Services.Sponsorship
