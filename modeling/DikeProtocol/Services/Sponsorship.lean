import DikeProtocol.Lib.Double
import DikeProtocol.Lib.Result
import DikeProtocol.Lib.Run
import DikeProtocol.Lib.Store

/-!
# Fee sponsorship

A sponsored call quotes the fee of its inner transaction, looks for a terminal
result, takes the transaction's lock, reserves budget, submits a fee bump and
stores how it ended. Calls run concurrently; what they share is in Redis, one
command or script at a time.
-/

namespace DikeProtocol.Services.Sponsorship

open Lib

/-- How a sponsorship is refused. -/
inductive SponsorshipCode where
  | sponsorshipDisabled
  | malformedXdr
  | unsupportedEnvelope
  | unsupportedSource
  | badSignature
  | expiredTransaction
  | disallowedContract
  | disallowedMethod
  | feeLimitExceeded
  | quotaExceeded
  | budgetExceeded
  | transactionReplay
  | rpcRejected
  | transactionFailed
  | confirmationTimeout
  deriving DecidableEq

/-- What sponsorship reads of a validated inner transaction. -/
structure ParsedTransaction where
  hash : String
  source : String
  innerFee : ℤ
  resourceFee : ℤ
  deriving DecidableEq

/-- The limits on one transaction's fee, in stroops. -/
structure FeePolicy where
  baseFeeStroops : ℕ
  maxTotalFeeStroops : ℕ
  maxResourceFeeStroops : ℕ

/-- A quoted fee. -/
structure FeeQuote where
  innerInclusionFee : ℤ
  outerFee : ℤ
  resourceFee : ℤ
  deriving DecidableEq

/-- The network's least inclusion fee. -/
def baseFee : ℤ := 100

/-- Quote the fee of a sponsored transaction. -/
def quoteSponsoredFee (parsed : ParsedTransaction) (policy : FeePolicy) :
    Except SponsorshipCode FeeQuote :=
  let innerInclusionFee := parsed.innerFee - parsed.resourceFee
  if policy.baseFeeStroops < baseFee ∨ innerInclusionFee < baseFee ∨
      policy.baseFeeStroops < innerInclusionFee then
    .error .feeLimitExceeded
  else if parsed.resourceFee < 0 ∨ policy.maxResourceFeeStroops < parsed.resourceFee then
    .error .feeLimitExceeded
  else
    let outerFee := policy.baseFeeStroops * 2 + parsed.resourceFee
    if outerFee < parsed.innerFee ∨ policy.maxTotalFeeStroops < outerFee then
      .error .feeLimitExceeded
    else .ok { innerInclusionFee, outerFee, resourceFee := parsed.resourceFee }

/-- Check the fee of the envelope that the network's library built and signed. -/
def buildAndSignFeeBump (parsed : ParsedTransaction) (policy : FeePolicy)
    (transaction : Except SponsorshipCode ℕ) : Except SponsorshipCode ℕ :=
  match quoteSponsoredFee parsed policy, transaction with
  | .error code, _ => .error code
  | .ok _, .error code => .error code
  | .ok quote, .ok fee =>
    if (fee : ℤ) ≠ quote.outerFee then .error .feeLimitExceeded else .ok fee

/-- The limits over time. -/
structure QuotaPolicy where
  maxPerMinute : ℕ
  maxPerIpMinute : ℕ
  dailyBudgetStroops : ℕ

/-- The settings of the service. `keyPart` is how a source or an address becomes part of a key. -/
structure ServiceOptions where
  enabled : Bool
  feePolicy : FeePolicy
  quota : QuotaPolicy
  keyPart : String → String

/-- How a submitted envelope ended. -/
inductive ReplayRecord where
  | success (outerHash : String)
  | failure (code : SponsorshipCode)
  deriving DecidableEq

/-- A reservation: its minute, the day whose budget it draws on, and its amount. -/
structure BudgetReservation where
  minute : ℕ
  day : ℕ
  amount : ℕ
  deriving DecidableEq

/-- How a call ended. -/
inductive CallOutcome where
  /-- The transaction was not accepted, before any shared state was read. -/
  | invalid (code : SponsorshipCode)
  /-- A terminal result was stored. -/
  | stored (record : ReplayRecord)
  /-- The lock was taken. -/
  | replay
  /-- It failed between taking the lock and submitting. -/
  | refused (code : SponsorshipCode)
  /-- Its envelope was submitted and ended so. -/
  | finished (record : ReplayRecord)
  /-- The lock was no longer its own when it came to store its result. -/
  | lost
  deriving DecidableEq

/-- Which command a call issues next. -/
inductive CallPhase where
  | terminal
  | acquire
  | reserve
  | build
  | submit
  | completeGet (record : ReplayRecord)
  | completeSet (record : ReplayRecord)
  | completeDel (record : ReplayRecord)
  | releaseBudget (code : SponsorshipCode)
  | releaseGet (code : SponsorshipCode)
  | releaseDel (code : SponsorshipCode)
  | ended (outcome : CallOutcome)
  deriving DecidableEq

/-- A call of `sponsor`. Of its history it also keeps the fees of the envelopes
it submitted, whether its budget was released, whether a terminal result was
stored when it took the lock, and whether it failed before submitting. -/
structure Call where
  parsed : ParsedTransaction
  ip : String
  outerFee : ℤ
  phase : CallPhase
  reservation : Option BudgetReservation
  submissionStarted : Bool
  envelopes : List ℕ
  released : Bool
  late : Bool
  turnedAway : Bool
  deriving DecidableEq

/-- What the calls share: terminal results and locks by inner hash, and the counters. -/
structure RedisState where
  results : Store String (Option ReplayRecord)
  locks : Store String (Option ℕ)
  sources : Store (String × ℕ) ℕ
  ips : Store (String × ℕ) ℕ
  budgets : Store ℕ ℕ

/-- Increase a counter, which overflows at 64 bits with a sign. -/
def incrBy {K : Type*} [DecidableEq K] (counters : Store K ℕ) (key : K) (amount : ℕ) :
    Option (Store K ℕ) :=
  if counters key + amount < 2 ^ 63 then some (counters.set key (counters key + amount)) else none

/-- Decrease a counter. -/
def decrBy {K : Type*} [DecidableEq K] (counters : Store K ℕ) (key : K) (amount : ℕ) :
    Store K ℕ :=
  counters.set key (counters key - amount)

/-- Whether the script finds a count above a limit: both are doubles there. -/
def exceeds (count limit : ℕ) : Bool := toDouble limit < toDouble count

/-- The reservation script. Where an increment overflows it aborts, and what it
did before stays. -/
def reserveScript (policy : QuotaPolicy) (redis : RedisState) (sourceKey ipKey : String × ℕ)
    (dailyKey amount : ℕ) : RedisState × Except SponsorshipCode Unit :=
  match incrBy redis.sources sourceKey 1 with
  | none => (redis, .error .rpcRejected)
  | some sources =>
    if exceeds (sources sourceKey) policy.maxPerMinute then
      ({ redis with sources := decrBy sources sourceKey 1 }, .error .quotaExceeded)
    else
      match incrBy redis.ips ipKey 1 with
      | none => ({ redis with sources }, .error .rpcRejected)
      | some ips =>
        if exceeds (ips ipKey) policy.maxPerIpMinute then
          ({ redis with sources := decrBy sources sourceKey 1, ips := decrBy ips ipKey 1 },
            .error .quotaExceeded)
        else
          match incrBy redis.budgets dailyKey amount with
          | none => ({ redis with sources, ips }, .error .rpcRejected)
          | some budgets =>
            if exceeds (budgets dailyKey) policy.dailyBudgetStroops then
              ({ redis with
                sources := decrBy sources sourceKey 1
                ips := decrBy ips ipKey 1
                budgets := decrBy budgets dailyKey amount }, .error .budgetExceeded)
            else ({ redis with sources, ips, budgets }, .ok ())

/-- Reserve budget for a fee at a time in milliseconds. -/
def reserve (options : ServiceOptions) (redis : RedisState) (source ip : String) (amount : ℤ)
    (nowMs : ℕ) : RedisState × Except SponsorshipCode BudgetReservation :=
  if amount ≤ 0 then (redis, .error .feeLimitExceeded)
  else
    let minute := nowMs / 60000
    let day := nowMs / 86400000
    match reserveScript options.quota redis (options.keyPart source, minute)
        (options.keyPart ip, minute) day amount.toNat with
    | (redis, .error code) => (redis, .error code)
    | (redis, .ok ()) => (redis, .ok { minute, day, amount := amount.toNat })

/-- Give a reservation back; the counter does not go below 0. -/
def releaseBudget (redis : RedisState) (reservation : BudgetReservation) : RedisState :=
  { redis with budgets := decrBy redis.budgets reservation.day reservation.amount }

/-- The calls and what they share. -/
structure ServiceState where
  redis : RedisState
  calls : Store ℕ (Option Call)

/-- What can happen: a call comes in, or a call gets the answer to its next command. -/
inductive ServiceStep where
  | sponsor (call : ℕ) (parsed : Except SponsorshipCode ParsedTransaction) (ip : String)
  /-- The next command of a call that needs nothing from outside. -/
  | command (call : ℕ)
  /-- The reservation script runs, at some time. -/
  | reserve (call : ℕ) (nowMs : ℕ)
  /-- The envelope is built, and submitted if that succeeds. -/
  | build (call : ℕ) (transaction : Except SponsorshipCode ℕ)
  /-- The submission ends. -/
  | submitted (call : ℕ) (result : Except SponsorshipCode String)

/-- A call that came in. -/
def newCall (options : ServiceOptions) (parsed : Except SponsorshipCode ParsedTransaction)
    (ip : String) : Call :=
  let start (parsed : ParsedTransaction) (outerFee : ℤ) (phase : CallPhase) : Call :=
    { parsed, ip, outerFee, phase, reservation := none, submissionStarted := false,
      envelopes := [], released := false, late := false, turnedAway := false }
  let nothing : ParsedTransaction := ⟨"", "", 0, 0⟩
  if !options.enabled then start nothing 0 (.ended (.invalid .sponsorshipDisabled))
  else
    match parsed with
    | .error code => start nothing 0 (.ended (.invalid code))
    | .ok parsed =>
      match quoteSponsoredFee parsed options.feePolicy with
      | .error code => start parsed 0 (.ended (.invalid code))
      | .ok quote => start parsed quote.outerFee .terminal

/-- The handler of an error: the budget is released only before submission; the
lock goes with the failure as terminal result after it, and is freed before it. -/
def Call.fail (call : Call) (code : SponsorshipCode) : Call :=
  if call.submissionStarted then { call with phase := .completeGet (.failure code) }
  else if call.reservation.isSome then
    { call with phase := .releaseBudget code, turnedAway := true }
  else { call with phase := .releaseGet code, turnedAway := true }

/-- Whether a call owns the lock of its transaction. -/
def owns (redis : RedisState) (id : ℕ) (call : Call) : Prop :=
  redis.locks call.parsed.hash = some id

instance (redis : RedisState) (id : ℕ) (call : Call) : Decidable (owns redis id call) :=
  inferInstanceAs (Decidable (_ = _))

/-- The next command of a call, where it needs nothing but Redis. -/
def runCommand (redis : RedisState) (id : ℕ) (call : Call) : Option (RedisState × Call) :=
  let hash := call.parsed.hash
  match call.phase with
  | .terminal =>
    match redis.results hash with
    | some record => some (redis, { call with phase := .ended (.stored record) })
    | none => some (redis, { call with phase := .acquire })
  | .acquire =>
    match redis.locks hash with
    | some _ => some (redis, { call with phase := .ended .replay })
    | none => some ({ redis with locks := redis.locks.set hash (some id) },
        { call with phase := .reserve, late := (redis.results hash).isSome })
  | .completeGet record =>
    if owns redis id call then some (redis, { call with phase := .completeSet record })
    else
      match record with
      | .success _ => some (redis, call.fail .transactionReplay)
      | .failure _ => some (redis, { call with phase := .ended .lost })
  | .completeSet record =>
    some ({ redis with results := redis.results.set hash (some record) },
      { call with phase := .completeDel record })
  | .completeDel record =>
    some ({ redis with locks := redis.locks.set hash none },
      { call with phase := .ended (.finished record) })
  | .releaseBudget code =>
    match call.reservation with
    | none => some (redis, { call with phase := .releaseGet code })
    | some reservation => some (releaseBudget redis reservation,
        { call with phase := .releaseGet code, released := true })
  | .releaseGet code =>
    if owns redis id call then some (redis, { call with phase := .releaseDel code })
    else some (redis, { call with phase := .ended (.refused code) })
  | .releaseDel code =>
    some ({ redis with locks := redis.locks.set hash none },
      { call with phase := .ended (.refused code) })
  | _ => none

/-- The step of one call, from what is shared and what it is. -/
def stepCall (options : ServiceOptions) (redis : RedisState) (id : ℕ) (call : Call) :
    ServiceStep → Option (RedisState × Call)
  | .sponsor _ _ _ => none
  | .command _ => runCommand redis id call
  | .reserve _ nowMs =>
    match call.phase with
    | .reserve =>
      match reserve options redis call.parsed.source call.ip call.outerFee nowMs with
      | (redis, .ok reservation) =>
        some (redis, { call with phase := .build, reservation := some reservation })
      | (redis, .error code) => some (redis, call.fail code)
    | _ => none
  | .build _ transaction =>
    match call.phase with
    | .build =>
      match buildAndSignFeeBump call.parsed options.feePolicy transaction with
      | .ok fee => some (redis, { call with
          phase := .submit
          submissionStarted := true
          envelopes := call.envelopes ++ [fee] })
      | .error code => some (redis, call.fail code)
    | _ => none
  | .submitted _ result =>
    match call.phase with
    | .submit =>
      match result with
      | .ok outerHash => some (redis, { call with phase := .completeGet (.success outerHash) })
      | .error code => some (redis, call.fail code)
    | _ => none

/-- The call that a step is of. -/
def ServiceStep.call : ServiceStep → ℕ
  | .sponsor id _ _ => id
  | .command id => id
  | .reserve id _ => id
  | .build id _ => id
  | .submitted id _ => id

/-- The service, from when nothing is stored. -/
def serviceSystem (options : ServiceOptions) : System ServiceState ServiceStep Unit where
  Init := fun s => s = ⟨⟨.empty, .empty, .empty, .empty, .empty⟩, .empty⟩
  step := fun s step =>
    match step, s.calls step.call with
    | .sponsor id parsed ip, none =>
      .ok { s with calls := s.calls.set id (some (newCall options parsed ip)) }
    | step, some call =>
      match stepCall options s.redis step.call call step with
      | some (redis, call) => .ok { redis, calls := s.calls.set step.call (some call) }
      | none => .error ()
    | _, none => .error ()

end DikeProtocol.Services.Sponsorship
