import DikeProtocol.Services.Replay

/-!
# The sponsor's budget

The counters in Redis are at least what the calls hold: a day's budget counter
is the sum of the reservations that were not released, and a minute's counters
count at least the reservations accepted in it. Whether a count is above a limit
is decided on doubles, which is the same as deciding it on the numbers only where
the limit and its successor are different doubles.
-/

namespace DikeProtocol.Services.Sponsorship

open Lib

/-- A limit that differs from its successor as a double. -/
def SharpLimit (limit : ℕ) : Prop := toDouble limit < toDouble (limit + 1)

/-- Limits of at most 53 bits are. -/
theorem sharpLimit_of_lt {limit : ℕ} (h : limit < 2 ^ 53) : SharpLimit limit := by
  unfold SharpLimit
  rw [toDouble_of_le h.le, toDouble_of_le h]
  exact Nat.lt_succ_self limit

/-- The script decides exactly whether counts are above a limit if and only if the limit is one. -/
theorem exceeds_exact_iff {limit : ℕ} :
    (∀ count, exceeds count limit = true ↔ limit < count) ↔ SharpLimit limit := by
  unfold exceeds SharpLimit
  constructor
  · intro hexact
    exact of_decide_eq_true ((hexact (limit + 1)).mpr (Nat.lt_succ_self limit))
  · intro hsharp count
    rw [decide_eq_true_eq]
    constructor
    · intro hlt
      by_contra hle
      exact absurd (toDouble_mono (not_lt.mp hle)) (not_le.mpr hlt)
    · intro hlt
      exact hsharp.trans_le (toDouble_mono hlt)

section Counters

variable {K : Type*} [DecidableEq K]

/-- An increment that does not overflow. -/
theorem incrBy_ok {counters counters' : Store K ℕ} {key : K} {amount : ℕ}
    (h : incrBy counters key amount = some counters') :
    counters' = counters.set key (counters key + amount) := by
  unfold incrBy at h
  split at h
  · exact (Option.some.inj h).symm
  · cases h

/-- Taking an increment back restores every counter. -/
theorem decrBy_incrBy {counters counters' : Store K ℕ} {key : K} {amount : ℕ}
    (h : incrBy counters key amount = some counters') (k : K) :
    decrBy counters' key amount k = counters k := by
  rw [incrBy_ok h, decrBy, Store.set_get, Store.set_get_self]
  split
  · next heq => rw [heq, Nat.add_sub_cancel]
  · next hne => exact Store.set_get_of_ne _ _ hne

/-- An increment lowers no counter. -/
theorem le_incrBy {counters counters' : Store K ℕ} {key : K} {amount : ℕ}
    (h : incrBy counters key amount = some counters') (k : K) : counters k ≤ counters' k := by
  rw [incrBy_ok h, Store.set_get]
  split
  · next heq =>
    rw [heq]
    exact Nat.le_add_right _ _
  · exact le_rfl

end Counters

section Script

variable {policy : QuotaPolicy} {redis redis' : RedisState} {sourceKey ipKey : String × ℕ}
  {dailyKey amount : ℕ}

/-- An accepted reservation raises the three counters, none beyond its limit. -/
theorem reserveScript_ok
    (h : reserveScript policy redis sourceKey ipKey dailyKey amount = (redis', .ok ())) :
    redis'.sources = redis.sources.set sourceKey (redis.sources sourceKey + 1) ∧
      redis'.ips = redis.ips.set ipKey (redis.ips ipKey + 1) ∧
      redis'.budgets = redis.budgets.set dailyKey (redis.budgets dailyKey + amount) ∧
      exceeds (redis.sources sourceKey + 1) policy.maxPerMinute = false ∧
      exceeds (redis.ips ipKey + 1) policy.maxPerIpMinute = false ∧
      exceeds (redis.budgets dailyKey + amount) policy.dailyBudgetStroops = false := by
  unfold reserveScript at h
  split at h
  · cases h
  · next sources hsources =>
    split at h
    · cases h
    · next hsource =>
      split at h
      · cases h
      · next ips hips =>
        split at h
        · cases h
        · next hip =>
          split at h
          · cases h
          · next budgets hbudgets =>
            split at h
            · cases h
            · next hbudget =>
              cases h
              rw [incrBy_ok hsources, Store.set_get_self, Bool.not_eq_true] at hsource
              rw [incrBy_ok hips, Store.set_get_self, Bool.not_eq_true] at hip
              rw [incrBy_ok hbudgets, Store.set_get_self, Bool.not_eq_true] at hbudget
              exact ⟨incrBy_ok hsources, incrBy_ok hips, incrBy_ok hbudgets, hsource, hip, hbudget⟩

/-- A refused reservation leaves the budgets as they were and lowers no other counter. -/
theorem reserveScript_error {code : SponsorshipCode}
    (h : reserveScript policy redis sourceKey ipKey dailyKey amount = (redis', .error code)) :
    (∀ day, redis'.budgets day = redis.budgets day) ∧
      (∀ key, redis.sources key ≤ redis'.sources key) ∧
      ∀ key, redis.ips key ≤ redis'.ips key := by
  unfold reserveScript at h
  split at h
  · cases h
    exact ⟨fun _ => rfl, fun _ => le_rfl, fun _ => le_rfl⟩
  · next sources hsources =>
    split at h
    · cases h
      exact ⟨fun _ => rfl, fun key => (decrBy_incrBy hsources key).ge, fun _ => le_rfl⟩
    · split at h
      · cases h
        exact ⟨fun _ => rfl, le_incrBy hsources, fun _ => le_rfl⟩
      · next ips hips =>
        split at h
        · cases h
          exact ⟨fun _ => rfl, fun key => (decrBy_incrBy hsources key).ge,
            fun key => (decrBy_incrBy hips key).ge⟩
        · split at h
          · cases h
            exact ⟨fun _ => rfl, le_incrBy hsources, le_incrBy hips⟩
          · next budgets hbudgets =>
            split at h
            · cases h
              exact ⟨decrBy_incrBy hbudgets, fun key => (decrBy_incrBy hsources key).ge,
                fun key => (decrBy_incrBy hips key).ge⟩
            · cases h

end Script

/-- What a step of a call does to the counters and to its reservation. -/
inductive QuotaEffect (options : ServiceOptions) (redis redis' : RedisState)
    (call call' : Call) : Prop where
  /-- Budgets and reservations stay, no other counter falls. -/
  | quiet (budgets : ∀ day, redis'.budgets day = redis.budgets day)
      (sources : ∀ key, redis.sources key ≤ redis'.sources key)
      (ips : ∀ key, redis.ips key ≤ redis'.ips key)
      (reservation : call'.reservation = call.reservation)
      (released : call'.released = call.released)
  /-- A reservation is accepted within all limits. -/
  | accept (reservation : BudgetReservation) (before : call.reservation = none)
      (unreleased : call'.released = false) (after : call'.reservation = some reservation)
      (budgets : redis'.budgets = redis.budgets.set reservation.day
        (redis.budgets reservation.day + reservation.amount))
      (sources : redis'.sources = redis.sources.set (options.keyPart call.parsed.source,
        reservation.minute) (redis.sources (options.keyPart call.parsed.source,
          reservation.minute) + 1))
      (ips : redis'.ips = redis.ips.set (options.keyPart call.ip, reservation.minute)
        (redis.ips (options.keyPart call.ip, reservation.minute) + 1))
      (sourceLimit : exceeds (redis.sources (options.keyPart call.parsed.source,
        reservation.minute) + 1) options.quota.maxPerMinute = false)
      (ipLimit : exceeds (redis.ips (options.keyPart call.ip, reservation.minute) + 1)
        options.quota.maxPerIpMinute = false)
      (budgetLimit : exceeds (redis.budgets reservation.day + reservation.amount)
        options.quota.dailyBudgetStroops = false)
  /-- A reservation is given back. -/
  | release (reservation : BudgetReservation) (before : call.reservation = some reservation)
      (after : call'.reservation = some reservation) (unreleased : call.released = false)
      (released : call'.released = true)
      (budgets : redis'.budgets = redis.budgets.set reservation.day
        (redis.budgets reservation.day - reservation.amount))
      (sources : redis'.sources = redis.sources) (ips : redis'.ips = redis.ips)

section Steps

variable {options : ServiceOptions} {redis redis' : RedisState} {id : ℕ} {call call' : Call}

/-- The effect of a command on the counters. -/
theorem runCommand_quota (hok : CallOk options call)
    (hstep : runCommand redis id call = some (redis', call')) :
    call'.ip = call.ip ∧ QuotaEffect options redis redis' call call' := by
  have hquiet : ∀ {redis1 : RedisState} {call1 : Call}, redis1.budgets = redis.budgets →
      redis1.sources = redis.sources → redis1.ips = redis.ips → call1.ip = call.ip →
      call1.reservation = call.reservation → call1.released = call.released →
      call1.ip = call.ip ∧ QuotaEffect options redis redis1 call call1 :=
    fun hbudgets hsources hips hip hreservation hreleased =>
      ⟨hip, .quiet (fun _ => by rw [hbudgets]) (fun _ => by rw [hsources]) (fun _ => by rw [hips])
        hreservation hreleased⟩
  unfold runCommand at hstep
  dsimp only at hstep
  split at hstep
  · split at hstep <;> cases hstep <;> exact hquiet rfl rfl rfl rfl rfl rfl
  · split at hstep <;> cases hstep <;> exact hquiet rfl rfl rfl rfl rfl rfl
  · next record hphase =>
    split at hstep
    · cases hstep
      exact hquiet rfl rfl rfl rfl rfl rfl
    · split at hstep <;> cases hstep
      · next hash =>
        rw [(hok.failSubmitted (by rw [hphase]; rfl)
          (fun code hcode => by rw [hphase] at hcode; cases hcode) (by rw [hphase]; rfl)
          (by rw [hphase]; rfl) _).1]
        exact hquiet rfl rfl rfl rfl rfl rfl
      · exact hquiet rfl rfl rfl rfl rfl rfl
  · cases hstep
    exact hquiet rfl rfl rfl rfl rfl rfl
  · cases hstep
    exact hquiet rfl rfl rfl rfl rfl rfl
  · next code hphase =>
    split at hstep
    · cases hstep
      exact hquiet rfl rfl rfl rfl rfl rfl
    · next reservation hsome =>
      cases hstep
      exact ⟨rfl, .release reservation hsome hsome (hok.kept (by rw [hphase]; rfl)) rfl rfl rfl
        rfl⟩
  · split at hstep <;> cases hstep <;> exact hquiet rfl rfl rfl rfl rfl rfl
  · cases hstep
    exact hquiet rfl rfl rfl rfl rfl rfl
  · cases hstep

/-- The effect of a step on the counters. -/
theorem stepCall_quota (hok : CallOk options call) {step : ServiceStep}
    (hstep : stepCall options redis id call step = some (redis', call')) :
    call'.ip = call.ip ∧ QuotaEffect options redis redis' call call' := by
  cases step with
  | sponsor => cases hstep
  | command => exact runCommand_quota hok hstep
  | reserve _ nowMs =>
    dsimp only [stepCall] at hstep
    split at hstep
    · next hphase =>
      split at hstep <;> cases hstep
      · next reservation hreserve =>
        obtain ⟨_, rfl, hscript⟩ := reserve_ok hreserve
        obtain ⟨hsources, hips, hbudgets, hsource, hip, hbudget⟩ := reserveScript_ok hscript
        exact ⟨rfl, .accept _ (hok.unreserved (by rw [hphase]; rfl))
          (hok.kept (by rw [hphase]; rfl)) rfl hbudgets hsources hips hsource hip hbudget⟩
      · next code hreserve =>
        rw [(hok.failUnreserved hphase code).1]
        have hcounters : (∀ day, redis'.budgets day = redis.budgets day) ∧
            (∀ key, redis.sources key ≤ redis'.sources key) ∧
            ∀ key, redis.ips key ≤ redis'.ips key := by
          unfold reserve at hreserve
          dsimp only at hreserve
          split at hreserve
          · cases hreserve
            exact ⟨fun _ => rfl, fun _ => le_rfl, fun _ => le_rfl⟩
          · split at hreserve
            · next hscript =>
              cases hreserve
              exact reserveScript_error hscript
            · cases hreserve
        exact ⟨rfl, .quiet hcounters.1 hcounters.2.1 hcounters.2.2 rfl rfl⟩
    · cases hstep
  | build _ transaction =>
    dsimp only [stepCall] at hstep
    split at hstep
    · next hphase =>
      split at hstep <;> cases hstep
      · exact ⟨rfl, .quiet (fun _ => rfl) (fun _ => le_rfl) (fun _ => le_rfl) rfl rfl⟩
      · next code _ =>
        rw [(hok.failReserved hphase code).1]
        exact ⟨rfl, .quiet (fun _ => rfl) (fun _ => le_rfl) (fun _ => le_rfl) rfl rfl⟩
    · cases hstep
  | submitted _ result =>
    dsimp only [stepCall] at hstep
    split at hstep
    · next hphase =>
      split at hstep <;> cases hstep
      · exact ⟨rfl, .quiet (fun _ => rfl) (fun _ => le_rfl) (fun _ => le_rfl) rfl rfl⟩
      · next code =>
        have hfail := (hok.failSubmitted (by rw [hphase]; rfl)
          (fun code hcode => by rw [hphase] at hcode; cases hcode) (by rw [hphase]; rfl)
          (by rw [hphase]; rfl) code).1
        rw [hfail]
        exact ⟨rfl, .quiet (fun _ => rfl) (fun _ => le_rfl) (fun _ => le_rfl) rfl rfl⟩
    · cases hstep

end Steps

/-- A tally of the calls that came in. -/
def callTally (weight : Call → ℤ) : Tally ℕ (Option Call) ℤ where
  weight := fun _ call =>
    match call with
    | none => 0
    | some call => weight call
  weight_default := fun _ => rfl

/-- What a call holds of a day's budget. -/
def Call.held (day : ℕ) (call : Call) : ℤ :=
  match call.reservation with
  | none => 0
  | some reservation =>
    if reservation.day = day ∧ call.released = false then reservation.amount else 0

/-- The fees of a call's envelopes if its budget was reserved on a day. -/
def Call.fees (day : ℕ) (call : Call) : ℤ :=
  match call.reservation with
  | none => 0
  | some reservation => if reservation.day = day then call.envelopes.sum else 0

/-- Whether a call with a key had a reservation accepted in a minute. -/
def Call.accepted (key : Call → String) (part : String) (minute : ℕ) (call : Call) : ℤ :=
  match call.reservation with
  | none => 0
  | some reservation => if key call = part ∧ reservation.minute = minute then 1 else 0

section Totals

variable {s : ServiceState} {id : ℕ} {call call' : Call}

/-- A total after one call moved on. -/
theorem total_callTally_set (weight : Call → ℤ) (hcall : s.calls id = some call) :
    (s.calls.set id (some call')).total (callTally weight) =
      s.calls.total (callTally weight) - weight call + weight call' := by
  rw [Store.total_set, hcall]
  rfl

/-- A total after a call came in. -/
theorem total_callTally_new (weight : Call → ℤ) (hnone : s.calls id = none) :
    (s.calls.set id (some call')).total (callTally weight) =
      s.calls.total (callTally weight) + weight call' := by
  rw [Store.total_set, hnone]
  change _ - 0 + weight call' = _
  rw [sub_zero]

/-- No call holds a negative amount. -/
theorem Call.held_nonneg (day : ℕ) (call : Call) : 0 ≤ call.held day := by
  unfold Call.held
  split
  · exact le_rfl
  · split
    · exact Int.natCast_nonneg _
    · exact le_rfl

/-- A call that did not release its reservation holds its amount that day. -/
theorem Call.held_reserved {reservation : BudgetReservation} {call : Call}
    (hsome : call.reservation = some reservation) (hkept : call.released = false) (day : ℕ) :
    call.held day = if reservation.day = day then (reservation.amount : ℤ) else 0 := by
  unfold Call.held
  rw [hsome, hkept]
  simp only [and_true]

/-- A call that released its reservation holds nothing. -/
theorem Call.held_released {reservation : BudgetReservation} {call : Call}
    (hsome : call.reservation = some reservation) (hreleased : call.released = true) (day : ℕ) :
    call.held day = 0 := by
  unfold Call.held
  rw [hsome]
  exact if_neg (fun hand => by rw [hreleased] at hand; cases hand.2)

/-- A call holds no more than all calls together. -/
theorem held_le_total (day : ℕ) (hcall : s.calls id = some call) :
    call.held day ≤ s.calls.total (callTally (Call.held day)) := by
  have hle := s.calls.weight_le_total (callTally (Call.held day)) (fun k => by
    unfold callTally
    dsimp only
    split
    · exact le_rfl
    · exact Call.held_nonneg day _) id
  rw [hcall] at hle
  exact hle

end Totals

/-- What holds of the counters in every run. -/
structure QuotaInvariant (options : ServiceOptions) (s : ServiceState) : Prop where
  budgets : ∀ day, (s.redis.budgets day : ℤ) = s.calls.total (callTally (Call.held day))
  budgetLimit : ∀ day, s.redis.budgets day ≤ options.quota.dailyBudgetStroops
  sources : ∀ part minute, s.calls.total (callTally (Call.accepted
    (fun call => options.keyPart call.parsed.source) part minute)) ≤ s.redis.sources (part, minute)
  sourceLimit : ∀ part minute, s.calls.total (callTally (Call.accepted
    (fun call => options.keyPart call.parsed.source) part minute)) ≤ options.quota.maxPerMinute
  ips : ∀ part minute, s.calls.total (callTally (Call.accepted
    (fun call => options.keyPart call.ip) part minute)) ≤ s.redis.ips (part, minute)
  ipLimit : ∀ part minute, s.calls.total (callTally (Call.accepted
    (fun call => options.keyPart call.ip) part minute)) ≤ options.quota.maxPerIpMinute

/-- Limits that the script decides exactly. -/
structure SharpQuota (quota : QuotaPolicy) : Prop where
  perMinute : SharpLimit quota.maxPerMinute
  perIpMinute : SharpLimit quota.maxPerIpMinute
  dailyBudget : SharpLimit quota.dailyBudgetStroops

section Counted

variable {options : ServiceOptions} {redis redis' : RedisState} {call call' : Call}

/-- Accepting one more reservation counts once, for its own key and minute. -/
theorem accepted_count (key : Call → String) {counters : Store (String × ℕ) ℕ} {limit : ℕ}
    {total : String → ℕ → ℤ} {reservation : BudgetReservation}
    (hle : ∀ part minute, total part minute ≤ counters (part, minute))
    (hlimit : ∀ part minute, total part minute ≤ limit)
    (hkey : key call' = key call) (hbefore : call.reservation = none)
    (hafter : call'.reservation = some reservation) (hsharp : SharpLimit limit)
    (hwithin : exceeds (counters (key call, reservation.minute) + 1) limit = false)
    (part : String) (minute : ℕ) :
    total part minute - call.accepted key part minute + call'.accepted key part minute ≤
        (counters.set (key call, reservation.minute)
          (counters (key call, reservation.minute) + 1)) (part, minute) ∧
      total part minute - call.accepted key part minute + call'.accepted key part minute ≤
        limit := by
  have hmine : call.accepted key part minute = 0 := by
    unfold Call.accepted
    rw [hbefore]
  have hexact := (exceeds_exact_iff.mpr hsharp (counters (key call, reservation.minute) + 1)).not
  rw [Bool.not_eq_true] at hexact
  have hcount := not_lt.mp (hexact.mp hwithin)
  have hcounter := hle part minute
  have hunder := hlimit part minute
  have hmine' : call'.accepted key part minute =
      if key call = part ∧ reservation.minute = minute then 1 else 0 := by
    unfold Call.accepted
    rw [hafter, hkey]
  rw [hmine, hmine', Store.set_get]
  by_cases heq : key call = part ∧ reservation.minute = minute
  · rw [if_pos heq]
    obtain ⟨rfl, rfl⟩ := heq
    rw [if_pos rfl]
    push_cast
    omega
  · rw [if_neg heq, if_neg (fun hpair => heq ⟨(Prod.mk.inj hpair).1.symm,
      (Prod.mk.inj hpair).2.symm⟩)]
    omega

/-- A step that accepts no reservation counts what was counted. -/
theorem accepted_quiet {key : Call → String} (hkey : key call' = key call)
    (hreservation : call'.reservation = call.reservation) (part : String) (minute : ℕ) :
    call'.accepted key part minute = call.accepted key part minute := by
  unfold Call.accepted
  rw [hreservation, hkey]

/-- A call without a reservation holds and counts nothing. -/
theorem unreserved_counts (hnone : call.reservation = none) :
    (∀ day, call.held day = 0) ∧ ∀ key part minute, call.accepted key part minute = 0 := by
  unfold Call.held Call.accepted
  rw [hnone]
  exact ⟨fun _ => rfl, fun _ _ _ => rfl⟩

end Counted

section Runs

variable {options : ServiceOptions} {s : ServiceState}

/-- A new call reserved nothing. -/
theorem newCall_unreserved (parsed : Except SponsorshipCode ParsedTransaction) (ip : String) :
    (newCall options parsed ip).reservation = none := by
  unfold newCall
  dsimp only
  split
  · rfl
  · split
    · rfl
    · split <;> rfl

/-- A call that comes in keeps the invariant. -/
theorem QuotaInvariant.sponsor (h : QuotaInvariant options s) {id : ℕ} (hnone : s.calls id = none)
    (parsed : Except SponsorshipCode ParsedTransaction) (ip : String) :
    QuotaInvariant options
      { s with calls := s.calls.set id (some (newCall options parsed ip)) } := by
  obtain ⟨hheld, haccepted⟩ := unreserved_counts (@newCall_unreserved options parsed ip)
  have haccepts : ∀ key part minute, (s.calls.set id (some (newCall options parsed ip))).total
      (callTally (Call.accepted key part minute)) =
        s.calls.total (callTally (Call.accepted key part minute)) := by
    intro key part minute
    rw [total_callTally_new _ hnone, haccepted, add_zero]
  constructor
  · intro day
    rw [total_callTally_new _ hnone, hheld, add_zero]
    exact h.budgets day
  · exact h.budgetLimit
  · intro part minute
    rw [haccepts]
    exact h.sources part minute
  · intro part minute
    rw [haccepts]
    exact h.sourceLimit part minute
  · intro part minute
    rw [haccepts]
    exact h.ips part minute
  · intro part minute
    rw [haccepts]
    exact h.ipLimit part minute

/-- A step that accepts no reservation leaves the counts below the counters. -/
theorem QuotaInvariant.counts (h : QuotaInvariant options s) {id : ℕ} {call call' : Call}
    {redis' : RedisState} (hcall : s.calls id = some call)
    (hsource : options.keyPart call'.parsed.source = options.keyPart call.parsed.source)
    (hpart : options.keyPart call'.ip = options.keyPart call.ip)
    (hsame : call'.reservation = call.reservation)
    (hsources : ∀ key, s.redis.sources key ≤ redis'.sources key)
    (hips : ∀ key, s.redis.ips key ≤ redis'.ips key)
    (hbudgets : ∀ day, (redis'.budgets day : ℤ) =
      (s.calls.set id (some call')).total (callTally (Call.held day)))
    (hbudget : ∀ day, redis'.budgets day ≤ s.redis.budgets day) :
    QuotaInvariant options ⟨redis', s.calls.set id (some call')⟩ := by
  have htotal := fun weight => @total_callTally_set s id call call' weight hcall
  refine ⟨hbudgets, fun day => (hbudget day).trans (h.budgetLimit day), ?_, ?_, ?_, ?_⟩
  · intro part minute
    rw [htotal, accepted_quiet hsource hsame, sub_add_cancel]
    exact (h.sources part minute).trans (by exact_mod_cast hsources _)
  · intro part minute
    rw [htotal, accepted_quiet hsource hsame, sub_add_cancel]
    exact h.sourceLimit part minute
  · intro part minute
    rw [htotal, accepted_quiet hpart hsame, sub_add_cancel]
    exact (h.ips part minute).trans (by exact_mod_cast hips _)
  · intro part minute
    rw [htotal, accepted_quiet hpart hsame, sub_add_cancel]
    exact h.ipLimit part minute

/-- A step of a call keeps the invariant. -/
theorem QuotaInvariant.call (h : QuotaInvariant options s) (hsharp : SharpQuota options.quota)
    {id : ℕ} {call call' : Call} {redis' : RedisState} (hcall : s.calls id = some call)
    (hparsed : call'.parsed = call.parsed) (hip : call'.ip = call.ip)
    (heffect : QuotaEffect options s.redis redis' call call') :
    QuotaInvariant options ⟨redis', s.calls.set id (some call')⟩ := by
  have hsource : options.keyPart call'.parsed.source = options.keyPart call.parsed.source := by
    rw [hparsed]
  have hpart : options.keyPart call'.ip = options.keyPart call.ip := by rw [hip]
  have htotal := fun weight => @total_callTally_set s id call call' weight hcall
  have hcounts := @QuotaInvariant.counts options s h id call call' redis' hcall hsource hpart
  cases heffect with
  | quiet budgets sources ips reservation released =>
    refine hcounts reservation sources ips ?_ (fun day => (budgets day).le)
    intro day
    have hheld : call'.held day = call.held day := by
      unfold Call.held
      rw [reservation, released]
    rw [htotal, hheld, sub_add_cancel, budgets]
    exact h.budgets day
  | release reservation before after unreleased released budgets sources ips =>
    have hnothing := Call.held_released after released
    have hheld := Call.held_reserved before unreleased
    refine hcounts (after.trans before.symm) (fun _ => by rw [sources]) (fun _ => by rw [ips])
      ?_ ?_
    · intro day
      have hle := held_le_total day hcall
      have hbudget := h.budgets day
      rw [htotal, hnothing, budgets, Store.set_get]
      rw [hheld] at hle ⊢
      by_cases heq : day = reservation.day
      · subst heq
        rw [if_pos rfl] at hle ⊢
        rw [if_pos rfl]
        omega
      · rw [if_neg heq, if_neg (Ne.symm heq)]
        omega
    · intro day
      rw [budgets, Store.set_get]
      split
      · next heq =>
        rw [heq]
        exact Nat.sub_le _ _
      · exact le_rfl
  | accept reservation before unreleased after budgets sources ips sourceLimit ipLimit
      budgetLimit =>
    have hnothing := (unreserved_counts before).1
    have hheld := Call.held_reserved after unreleased
    have hbudget := (exceeds_exact_iff.mpr hsharp.dailyBudget
      (s.redis.budgets reservation.day + reservation.amount)).not
    rw [Bool.not_eq_true] at hbudget
    have hsourceCount := accepted_count (fun call => options.keyPart call.parsed.source)
      h.sources h.sourceLimit hsource before after hsharp.perMinute sourceLimit
    have hipCount := accepted_count (fun call => options.keyPart call.ip)
      h.ips h.ipLimit hpart before after hsharp.perIpMinute ipLimit
    constructor
    · intro day
      have hday := h.budgets day
      rw [htotal, hnothing, hheld]
      dsimp only
      rw [budgets, Store.set_get]
      by_cases heq : day = reservation.day
      · subst heq
        rw [if_pos rfl, if_pos rfl]
        push_cast
        omega
      · rw [if_neg heq, if_neg (Ne.symm heq)]
        omega
    · intro day
      dsimp only
      rw [budgets, Store.set_get]
      split
      · exact not_lt.mp (hbudget.mp budgetLimit)
      · exact h.budgetLimit day
    · intro part minute
      rw [htotal]
      dsimp only
      rw [sources]
      exact (hsourceCount part minute).1
    · intro part minute
      rw [htotal]
      exact (hsourceCount part minute).2
    · intro part minute
      rw [htotal]
      dsimp only
      rw [ips]
      exact (hipCount part minute).1
    · intro part minute
      rw [htotal]
      exact (hipCount part minute).2

/-- It holds in every run, if the script decides the limits exactly. -/
theorem quotaInvariant_of_reachable (hsharp : SharpQuota options.quota)
    (h : (serviceSystem options).Reachable s) : QuotaInvariant options s := by
  refine h.invariant_with (fun _ => replayInvariant_of_reachable) ?_ ?_
  · rintro s rfl
    exact ⟨fun _ => rfl, fun _ => Nat.zero_le _, fun _ _ => le_rfl,
      fun _ _ => Int.natCast_nonneg _, fun _ _ => le_rfl, fun _ _ => Int.natCast_nonneg _⟩
  · intro s step s' hcalls hs _ hstep
    obtain ⟨id, parsed, ip, hnone, rfl⟩ | ⟨id, call, redis', call', hcall, hmove, rfl⟩ :=
      serviceSystem_cases hstep
    · exact hs.sponsor hnone parsed ip
    · have hok := hcalls.ok id call hcall
      obtain ⟨hparsed, _⟩ := stepCall_effect (hcalls.owns id call hcall) hok hmove
      obtain ⟨hip, heffect⟩ := stepCall_quota hok hmove
      exact hs.call hsharp hcall hparsed hip heffect

/-- What the sponsor's budget promises: each day's envelopes cost at most the budget, each minute
accepts at most so many reservations of a source and of an address, an envelope's fee is what was
reserved for it, and a call that submitted keeps its reservation. -/
structure BudgetHolds (options : ServiceOptions) (s : ServiceState) : Prop where
  daily : ∀ day, s.calls.total (callTally (Call.fees day)) ≤ options.quota.dailyBudgetStroops
  perSource : ∀ source minute, s.calls.total (callTally (Call.accepted
    (fun call => call.parsed.source) source minute)) ≤ options.quota.maxPerMinute
  perIp : ∀ ip minute, s.calls.total (callTally (Call.accepted
    (fun call => call.ip) ip minute)) ≤ options.quota.maxPerIpMinute
  declared : ∀ id call, s.calls id = some call → ∀ fee ∈ call.envelopes,
    ∃ reservation, call.reservation = some reservation ∧ fee = reservation.amount
  kept : ∀ id call, s.calls id = some call → call.envelopes ≠ [] → call.released = false

/-- A tally whose weights are nowhere larger has a total that is not. -/
theorem total_callTally_le {weight weight' : Call → ℤ}
    (h : ∀ id call, s.calls id = some call → weight call ≤ weight' call) :
    s.calls.total (callTally weight) ≤ s.calls.total (callTally weight') := by
  apply Finset.sum_le_sum
  intro id _
  unfold callTally
  dsimp only
  cases hcall : s.calls id with
  | none => exact le_rfl
  | some call => exact h id call hcall

/-- A call that submitted did not release its budget. -/
theorem CallOk.unreleased {call : Call} (h : CallOk options call)
    (hsub : call.phase.submitted = true) : call.released = false := by
  apply h.kept
  cases hphase : call.phase with
  | ended outcome =>
    rw [hphase] at hsub
    cases outcome with
    | refused => cases hsub
    | _ => rfl
  | releaseGet | releaseDel =>
    rw [hphase] at hsub
    cases hsub
  | _ => rfl

/-- A call's envelopes cost what it holds of the budget, or nothing. -/
theorem CallOk.fees_le_held {call : Call} (h : CallOk options call) (day : ℕ) :
    call.fees day ≤ call.held day := by
  by_cases hsub : call.phase.submitted = true
  · obtain ⟨reservation, hsome, henvelopes⟩ := h.sent hsub
    unfold Call.fees Call.held
    rw [hsome, henvelopes, h.unreleased hsub]
    dsimp only
    split
    · next hday =>
      rw [if_pos ⟨hday, rfl⟩, List.sum_singleton]
    · next hday =>
      rw [if_neg (fun hand => hday hand.1)]
  · have hnothing : call.fees day = 0 := by
      unfold Call.fees
      rw [h.silent (eq_false_of_ne_true hsub)]
      split
      · rfl
      · split <;> rfl
    rw [hnothing]
    exact Call.held_nonneg day call

/-- Reservations that agree on a key agree on the part it becomes. -/
theorem Call.accepted_le (part : String → String) (key : Call → String) (raw : String)
    (minute : ℕ) (call : Call) : call.accepted key raw minute ≤
      call.accepted (fun call => part (key call)) (part raw) minute := by
  unfold Call.accepted
  split
  · exact le_rfl
  · split
    · next hraw =>
      rw [if_pos ⟨congrArg part hraw.1, hraw.2⟩]
    · split
      · exact zero_le_one
      · exact le_rfl

/-- In every run of any number of calls, interleaved in any way and over any days: the budget
holds if each limit and its successor are different doubles. -/
theorem budgetHolds_of_sharp (hsharp : SharpQuota options.quota)
    (h : (serviceSystem options).Reachable s) : BudgetHolds options s := by
  have hquota := quotaInvariant_of_reachable hsharp h
  have hok := (replayInvariant_of_reachable h).ok
  constructor
  · intro day
    calc s.calls.total (callTally (Call.fees day))
        ≤ s.calls.total (callTally (Call.held day)) :=
          total_callTally_le (fun id call hcall => (hok id call hcall).fees_le_held day)
      _ = s.redis.budgets day := (hquota.budgets day).symm
      _ ≤ options.quota.dailyBudgetStroops := by exact_mod_cast hquota.budgetLimit day
  · intro source minute
    exact (total_callTally_le (fun _ call _ => Call.accepted_le options.keyPart
      (fun call => call.parsed.source) source minute call)).trans (hquota.sourceLimit _ minute)
  · intro ip minute
    exact (total_callTally_le (fun _ call _ => Call.accepted_le options.keyPart
      (fun call => call.ip) ip minute call)).trans (hquota.ipLimit _ minute)
  · intro id call hcall fee hfee
    by_cases hsub : call.phase.submitted = true
    · obtain ⟨reservation, hsome, henvelopes⟩ := (hok id call hcall).sent hsub
      rw [henvelopes, List.mem_singleton] at hfee
      exact ⟨reservation, hsome, hfee⟩
    · rw [(hok id call hcall).silent (eq_false_of_ne_true hsub)] at hfee
      cases hfee
  · intro id call hcall hsent
    exact (hok id call hcall).unreleased ((hok id call hcall).submitted_iff.mp hsent)

end Runs

section Sample

/-- A policy whose daily budget has room for two envelopes of the sample. -/
def tightOptions : ServiceOptions := { sampleOptions with quota := ⟨10, 30, 600⟩ }

/-- Its limits are doubles of their own. -/
theorem tightOptions_sharp : SharpQuota tightOptions.quota where
  perMinute := sharpLimit_of_lt (by decide)
  perIpMinute := sharpLimit_of_lt (by decide)
  dailyBudget := sharpLimit_of_lt (by decide)

/-- A call on a transaction of its own, until it has the lock. -/
def comesIn (id : ℕ) (hash : String) : List ServiceStep :=
  [.sponsor id (.ok { sampleTransaction with hash }) "ip"] ++ takesLock id

/-- Five calls. The first two reserve, the third finds the budget used, the
second fails to build and gives its part back, the fourth gets it, and the last
reserves on the next day. -/
def fiveCalls : List ServiceStep :=
  comesIn 0 "a" ++ comesIn 1 "b" ++ comesIn 2 "c" ++ comesIn 3 "d" ++ comesIn 4 "e" ++
  [.reserve 0 0, .reserve 1 1000, .reserve 2 2000, .command 2, .command 2,
    .build 1 (.error .rpcRejected), .command 1, .command 1, .command 1,
    .build 0 (.ok 250), .submitted 0 (.error .rpcRejected)] ++
  submitsAndEnds 3 ++ [.reserve 4 86400000, .build 4 (.ok 250)]

/-- The budget of both days holds, with one call refused and one reservation given back. -/
theorem budgetHolds_sample : SharpQuota tightOptions.quota ∧ ∃ s,
    (serviceSystem tightOptions).runs idleService fiveCalls = .ok s ∧
    s.calls.total (callTally (Call.fees 0)) = 500 ∧
    s.calls.total (callTally (Call.fees 1)) = 250 ∧
    (s.calls 1).map Call.released = some true ∧
    (s.calls 2).map Call.phase = some (.ended (.refused .budgetExceeded)) ∧
    BudgetHolds tightOptions s := by
  obtain ⟨s, hs, hends⟩ := System.runs_of_decide (S := serviceSystem tightOptions) idleService
    fiveCalls (fun s => s.calls.total (callTally (Call.fees 0)) = 500 ∧
      s.calls.total (callTally (Call.fees 1)) = 250 ∧ (s.calls 1).map Call.released = some true ∧
      (s.calls 2).map Call.phase = some (.ended (.refused .budgetExceeded))) (by decide +kernel)
  obtain ⟨htoday, htomorrow, hreleased, hrefused⟩ := of_decide_eq_true hends
  exact ⟨tightOptions_sharp, s, hs, htoday, htomorrow, hreleased, hrefused,
    budgetHolds_of_sharp tightOptions_sharp (System.Reachable.runs (.init rfl) _ hs)⟩

/-- A policy whose budget is the same double as its successor. -/
def roundedOptions : ServiceOptions where
  enabled := true
  feePolicy := ⟨2 ^ 51, 2 ^ 53, 500⟩
  quota := ⟨10, 30, 2 ^ 53⟩
  keyPart := fun part => part

/-- A call from its start to the submission of its envelope. -/
def submits (id fee : ℕ) : List ServiceStep :=
  [.command id, .command id, .reserve id 0, .build id (.ok fee)]

/-- Envelopes of half the budget and of half the budget and 1: the script does not tell their sum
from the budget. -/
theorem not_always_budgetHolds : ¬∀ (options : ServiceOptions) (s : ServiceState),
    (serviceSystem options).Reachable s → BudgetHolds options s := by
  intro hall
  obtain ⟨s, hs, hfees⟩ := System.runs_of_decide (S := serviceSystem roundedOptions) idleService
    ([.sponsor 0 (.ok ⟨"first", "G", 100, 0⟩) "ip"] ++ submits 0 (2 ^ 52) ++
      [.sponsor 1 (.ok ⟨"second", "G", 101, 1⟩) "ip"] ++ submits 1 (2 ^ 52 + 1))
    (fun s => s.calls.total (callTally (Call.fees 0)) = 2 ^ 53 + 1) (by decide +kernel)
  have hdaily := (hall roundedOptions s (System.Reachable.runs (.init rfl) _ hs)).daily 0
  have hsum := of_decide_eq_true hfees
  rw [hsum] at hdaily
  exact absurd hdaily (by decide)

end Sample

end DikeProtocol.Services.Sponsorship
