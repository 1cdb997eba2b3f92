import DikeProtocol.Governance.Timelock
import DikeProtocol.Lib.Run
import Mathlib.Data.List.Basic

/-!
# Discipline of the timelock

Timelock and governance as one system, invoked by anyone in any order. Events
say what was queued, cancelled and executed; an action is executed at most
once, in its window and as it was queued, and governance changes through it only.
-/

namespace DikeProtocol.Timelock

open Lib
open Governance (GovernanceOp EntriesKept)

/-- What an invocation did to an action. -/
inductive TimelockEvent where
  /-- Nothing. -/
  | quiet
  /-- An action was queued at this time. -/
  | queued (id : ℕ) (target : Address) (payload : TimelockPayload) (queuedAt : ℕ)
  /-- An action was cancelled. -/
  | cancelled (id : ℕ)
  /-- An action was executed at this time. -/
  | executed (id : ℕ) (target : Address) (payload : TimelockPayload) (executedAt : ℕ)
  deriving DecidableEq, Repr

/-- The event of an invocation, from what it returned. -/
def eventOf (ctx : Ctx) (w : World) : TimelockOp → TimelockEvent
  | .queue kind target payload requestedDelay =>
    match queue ctx w.host w.timelock kind target payload requestedDelay with
    | .ok (id, _) => .queued id target payload ctx.now
    | .error _ => .quiet
  | .cancel actionId => .cancelled actionId
  | .execute actionId foreign =>
    match execute ctx w actionId foreign with
    | .ok (action, _) => .executed action.id action.target action.payload ctx.now
    | .error _ => .quiet
  | _ => .quiet

/-- What a payload changes in governance. -/
def appliedTo (g : GovernanceState) : TimelockPayload → Option GovernanceState
  | .treasury a => some { g with treasury := a }
  | .pause authority => some { g with pauseAuthority := some authority }
  | .upgrade role wasmHash =>
    some { g with upgradeHash := g.upgradeHash.set role (some wasmHash) }
  | .timelock a => some { g with timelock := some a }
  | _ => none

/-- What a successful invocation of the timelock did. -/
inductive TimelockMoves (ctx : Ctx) (w : World) : TimelockEvent → World → Prop where
  /-- The administrator changes who may do what. -/
  | settings (admin proposer executor : Address) : TimelockMoves ctx w .quiet { w with
      timelock := { w.timelock with admin := admin, proposer := proposer, executor := executor } }
  /-- A new action waits at least the minimal delay. -/
  | queues {action : TimelockAction} (hid : action.id = w.timelock.nextActionId)
      (hdelay : ctx.now + w.timelock.minDelay ≤ action.executeAfter)
      (hexecuted : action.executed = false) (hcancelled : action.cancelled = false) :
      TimelockMoves ctx w (.queued action.id action.target action.payload ctx.now) { w with
        timelock := { writeAction w.timelock action with
          nextActionId := w.timelock.nextActionId + 1 } }
  /-- A waiting action is cancelled. -/
  | cancels {id : ℕ} {action : TimelockAction} (haction : w.timelock.action id = some action)
      (hexecuted : action.executed = false) (hcancelled : action.cancelled = false) :
      TimelockMoves ctx w (.cancelled id) { w with
        timelock := writeAction w.timelock { action with cancelled := true } }
  /-- A waiting action is executed in its window, by a call of its target. -/
  | executes {id : ℕ} {action : TimelockAction} {foreign : Foreign} {w' : World}
      (haction : w.timelock.action id = some action) (hexecuted : action.executed = false)
      (hcancelled : action.cancelled = false) (hready : action.executeAfter ≤ ctx.now)
      (hgrace : ctx.now ≤ action.expiresAt)
      (hcall : dispatch { ctx with callers := .contract .timelock :: ctx.callers } w foreign
        action.target action.payload = .ok w') :
      TimelockMoves ctx w (.executed action.id action.target action.payload ctx.now) { w' with
        timelock := writeAction w'.timelock { action with executed := true } }

section Moves

variable {ctx : Ctx} {w w' : World}

/-- A queued action is new and waits. -/
theorem queue_moves {kind : TimelockActionKind} {target : Address} {payload : TimelockPayload}
    {requestedDelay id : ℕ} {t : TimelockState}
    (h : queue ctx w.host w.timelock kind target payload requestedDelay = .ok (id, t)) :
    TimelockMoves ctx w (.queued id target payload ctx.now) { w with timelock := t } := by
  unfold queue at h
  obtain ⟨_, _, h⟩ := bind_ok.mp h
  obtain ⟨_, _, h⟩ := bind_ok.mp h
  obtain ⟨_, hdelay, h⟩ := bind_ok.mp h
  obtain ⟨executeAfter, hafter, h⟩ := bind_ok.mp h
  obtain ⟨expiresAt, _, h⟩ := bind_ok.mp h
  obtain ⟨next, hnext, h⟩ := bind_ok.mp h
  obtain ⟨rfl, rfl⟩ := Prod.mk.inj (pure_ok.mp h)
  obtain ⟨rfl, _⟩ := checkedAddU64_ok.mp hnext
  obtain ⟨rfl, _⟩ := checkedAddU64_ok.mp hafter
  have hdelay := not_lt.mp (refuse_ok.mp hdelay)
  exact @TimelockMoves.queues ctx w
    { id := w.timelock.nextActionId
      kind := kind
      target := target
      payload := payload
      payloadHash := w.host.payloadHash payload
      executeAfter := ctx.now + requestedDelay
      expiresAt := expiresAt
      executed := false
      cancelled := false } rfl (Nat.add_le_add_left hdelay ctx.now) rfl rfl

/-- A waiting action is neither executed nor cancelled. -/
theorem waiting_ok {action : TimelockAction} {e : Fault} {u : Unit}
    (h : refuse (action.executed = true ∨ action.cancelled = true) e = .ok u) :
    action.executed = false ∧ action.cancelled = false := by
  obtain ⟨hexecuted, hcancelled⟩ := not_or.mp (refuse_ok.mp h)
  exact ⟨Bool.not_eq_true _ ▸ hexecuted, Bool.not_eq_true _ ▸ hcancelled⟩

/-- A cancelled action was waiting. -/
theorem cancel_moves {id : ℕ} {t : TimelockState} (h : cancel ctx w.timelock id = .ok t) :
    TimelockMoves ctx w (.cancelled id) { w with timelock := t } := by
  unfold cancel at h
  obtain ⟨_, _, h⟩ := bind_ok.mp h
  obtain ⟨action, haction, h⟩ := bind_ok.mp h
  obtain ⟨_, hwaiting, h⟩ := bind_ok.mp h
  obtain rfl := pure_ok.mp h
  obtain ⟨hexecuted, hcancelled⟩ := waiting_ok hwaiting
  exact .cancels (orFault_ok.mp haction) hexecuted hcancelled

/-- An executed action was waiting and ready. -/
theorem execute_moves {id : ℕ} {foreign : Foreign} {action : TimelockAction}
    (h : execute ctx w id foreign = .ok (action, w')) :
    TimelockMoves ctx w (.executed action.id action.target action.payload ctx.now) w' := by
  unfold execute at h
  obtain ⟨_, _, h⟩ := bind_ok.mp h
  obtain ⟨stored, hstored, h⟩ := bind_ok.mp h
  obtain ⟨_, hwaiting, h⟩ := bind_ok.mp h
  obtain ⟨_, _, h⟩ := bind_ok.mp h
  obtain ⟨_, hready, h⟩ := bind_ok.mp h
  obtain ⟨_, hgrace, h⟩ := bind_ok.mp h
  obtain ⟨_, _, h⟩ := bind_ok.mp h
  obtain ⟨w1, hcall, h⟩ := bind_ok.mp h
  obtain ⟨rfl, rfl⟩ := Prod.mk.inj (pure_ok.mp h)
  obtain ⟨hexecuted, hcancelled⟩ := waiting_ok hwaiting
  have haction : w.timelock.action id = some stored := orFault_ok.mp hstored
  have hmove := TimelockMoves.executes haction hexecuted hcancelled
    (not_lt.mp (refuse_ok.mp hready)) (not_lt.mp (refuse_ok.mp hgrace)) hcall
  exact hmove

/-- Every successful invocation of the timelock makes its move. -/
theorem TimelockOp.exec_moves {op : TimelockOp} (h : op.exec ctx w = .ok w') :
    TimelockMoves ctx w (eventOf ctx w op) w' := by
  cases op with
  | setAdmin admin =>
    obtain ⟨t, ht, h⟩ := bind_ok.mp h
    obtain ⟨_, _, ht⟩ := bind_ok.mp ht
    rw [← pure_ok.mp h, ← pure_ok.mp ht]
    exact .settings admin _ _
  | setRoles proposer executor =>
    obtain ⟨t, ht, h⟩ := bind_ok.mp h
    obtain ⟨_, _, ht⟩ := bind_ok.mp ht
    rw [← pure_ok.mp h, ← pure_ok.mp ht]
    exact .settings w.timelock.admin proposer executor
  | queue kind target payload requestedDelay =>
    obtain ⟨⟨id, t⟩, ht, h⟩ := bind_ok.mp h
    obtain rfl := pure_ok.mp h
    rw [eventOf, ht]
    exact queue_moves ht
  | cancel actionId =>
    obtain ⟨t, ht, h⟩ := bind_ok.mp h
    rw [← pure_ok.mp h]
    exact cancel_moves ht
  | execute actionId foreign =>
    obtain ⟨action, h⟩ := world_ok.mp h
    rw [eventOf, h]
    exact execute_moves h

/-- A foreign contract changes the administrator of governance at most, while
the timelock behind governance is on the stack. -/
theorem Foreign.run_kept {called : Ctx} {foreign : Foreign}
    (hthis : w.governance.timelock = some (.contract .timelock))
    (h : foreign.run called w = .ok w') : EntriesKept w.governance w'.governance := by
  have hcalls : ∀ (calls : List NestedCall) (g g' : GovernanceState),
      g.timelock = some (.contract .timelock) →
      calls.foldlM (fun g nested => nested.run called g) g = .ok g' → EntriesKept g g' := by
    intro calls
    induction calls with
    | nil =>
      intro g g' _ hg
      rw [pure_ok.mp hg]
      exact .refl g'
    | cons nested calls ih =>
      intro g g' hg hrun
      rw [List.foldlM_cons] at hrun
      obtain ⟨g1, hnested, hrest⟩ := bind_ok.mp hrun
      obtain ⟨_, hforeign, hop⟩ := bind_ok.mp hnested
      obtain ⟨hinvoker, hsigners⟩ := not_or.mp (refuse_ok.mp hforeign)
      have hkept : EntriesKept g g1 := by
        apply GovernanceOp.exec_kept hg _ hop
        intro u hu
        rcases requireAuth_ok.mp hu with hs | hi
        · exact hsigners hs
        · exact hinvoker (Option.some.inj hi)
      exact hkept.trans (ih g1 g' (hkept.timelock_eq.trans hg) hrest)
  obtain ⟨g, hg, h⟩ := bind_ok.mp h
  rw [← pure_ok.mp h]
  exact hcalls foreign.calls w.governance g hthis hg

/-- What a call that did not fail did: a foreign target did what it does,
governance took the payload's effect, or another contract changed itself. -/
theorem dispatch_cases {called : Ctx} {foreign : Foreign} {target : Address}
    {payload : TimelockPayload} (h : dispatch called w foreign target payload = .ok w') :
    foreign.run called w = .ok w' ∨
      (target = .contract .governance ∧ appliedTo w.governance payload = some w'.governance ∧
        w'.timelock = w.timelock ∧ w'.host = w.host) ∨
      (w'.governance = w.governance ∧ w'.timelock = w.timelock ∧ w'.host = w.host) := by
  cases target with
  | account n => exact Or.inl h
  | contract c =>
    right
    cases c with
    | governance =>
      left
      cases payload with
      | treasury a =>
        obtain ⟨g, hg, h⟩ := bind_ok.mp h
        obtain ⟨_, _, hg⟩ := bind_ok.mp hg
        rw [← pure_ok.mp h, ← pure_ok.mp hg]
        exact ⟨rfl, rfl, rfl, rfl⟩
      | pause authority =>
        obtain ⟨g, hg, h⟩ := bind_ok.mp h
        obtain ⟨_, _, hg⟩ := bind_ok.mp hg
        rw [← pure_ok.mp h, ← pure_ok.mp hg]
        exact ⟨rfl, rfl, rfl, rfl⟩
      | upgrade role wasmHash =>
        obtain ⟨g, hg, h⟩ := bind_ok.mp h
        obtain ⟨_, _, hg⟩ := bind_ok.mp hg
        rw [← pure_ok.mp h, ← pure_ok.mp hg]
        exact ⟨rfl, rfl, rfl, rfl⟩
      | timelock a =>
        obtain ⟨g, hg, h⟩ := bind_ok.mp h
        obtain ⟨_, _, hg⟩ := bind_ok.mp hg
        rw [← pure_ok.mp h, ← pure_ok.mp hg]
        exact ⟨rfl, rfl, rfl, rfl⟩
      | _ => cases h
    | factory =>
      right
      cases payload with
      | creator a approved =>
        obtain ⟨_, _, h⟩ := bind_ok.mp h
        obtain ⟨_, _, h⟩ := bind_ok.mp h
        obtain ⟨_, _, h⟩ := bind_ok.mp h
        rw [← pure_ok.mp h]
        exact ⟨rfl, rfl, rfl⟩
      | _ => cases h
    | council =>
      right
      cases payload with
      | councilMember a approved =>
        obtain ⟨c, _, h⟩ := bind_ok.mp h
        rw [← pure_ok.mp h]
        exact ⟨rfl, rfl, rfl⟩
      | moduleAddress role module =>
        obtain ⟨c, _, h⟩ := bind_ok.mp h
        rw [← pure_ok.mp h]
        exact ⟨rfl, rfl, rfl⟩
      | _ => cases h
    | registry =>
      right
      cases payload with
      | supportedCollateral a supported =>
        obtain ⟨r, _, h⟩ := bind_ok.mp h
        rw [← pure_ok.mp h]
        exact ⟨rfl, rfl, rfl⟩
      | moduleAddress role module =>
        obtain ⟨r, _, h⟩ := bind_ok.mp h
        rw [← pure_ok.mp h]
        exact ⟨rfl, rfl, rfl⟩
      | _ => cases h
    | feeManager =>
      right
      cases payload with
      | feeConfig config =>
        obtain ⟨f, _, h⟩ := bind_ok.mp h
        rw [← pure_ok.mp h]
        exact ⟨rfl, rfl, rfl⟩
      | _ => cases h
    | tokens =>
      right
      cases payload with
      | moduleAddress role module =>
        obtain ⟨t, _, h⟩ := bind_ok.mp h
        rw [← pure_ok.mp h]
        exact ⟨rfl, rfl, rfl⟩
      | _ => cases h
    | oracle =>
      right
      cases payload with
      | moduleAddress role module =>
        obtain ⟨o, _, h⟩ := bind_ok.mp h
        rw [← pure_ok.mp h]
        exact ⟨rfl, rfl, rfl⟩
      | _ => cases h
    | vault =>
      right
      cases payload with
      | moduleAddress role module =>
        obtain ⟨_, _, h⟩ := bind_ok.mp h
        rw [← pure_ok.mp h]
        exact ⟨rfl, rfl, rfl⟩
      | _ => cases h
    | amm =>
      right
      cases payload with
      | moduleAddress role module =>
        obtain ⟨_, _, h⟩ := bind_ok.mp h
        rw [← pure_ok.mp h]
        exact ⟨rfl, rfl, rfl⟩
      | _ => cases h
    | timelock => cases payload <;> cases h

/-- A call leaves the timelock and the host as they are. -/
theorem dispatch_leaves {called : Ctx} {foreign : Foreign} {target : Address}
    {payload : TimelockPayload} (h : dispatch called w foreign target payload = .ok w') :
    w'.timelock = w.timelock ∧ w'.host = w.host := by
  rcases dispatch_cases h with hforeign | ⟨_, _, hleaves⟩ | ⟨_, hleaves⟩
  · obtain ⟨g, _, hw⟩ := bind_ok.mp hforeign
    rw [← pure_ok.mp hw]
    exact ⟨rfl, rfl⟩
  · exact hleaves
  · exact hleaves

/-- A call changes the entries of governance by the payload's effect or not at all. -/
theorem dispatch_governance {called : Ctx} {foreign : Foreign} {target : Address}
    {payload : TimelockPayload} (hthis : w.governance.timelock = some (.contract .timelock))
    (h : dispatch called w foreign target payload = .ok w') :
    EntriesKept w.governance w'.governance ∨
      (target = .contract .governance ∧ appliedTo w.governance payload = some w'.governance) := by
  rcases dispatch_cases h with hforeign | ⟨htarget, happlied, _⟩ | ⟨hsame, _⟩
  · exact Or.inl (Foreign.run_kept hthis hforeign)
  · exact Or.inr ⟨htarget, happlied⟩
  · left
    rw [hsame]
    exact .refl _

end Moves

/-- Whether an event is the execution of an action. -/
def TimelockEvent.isExecution (id : ℕ) : TimelockEvent → Bool
  | .executed id' _ _ _ => id' = id
  | _ => false

/-- What an event says of the stored actions. -/
def Recorded (t : TimelockState) : TimelockEvent → Prop
  | .quiet => True
  | .queued id target payload queuedAt => ∃ action, t.action id = some action ∧
    action.target = target ∧ action.payload = payload ∧
    queuedAt + t.minDelay ≤ action.executeAfter
  | .cancelled id => ∃ action, t.action id = some action ∧ action.cancelled = true
  | .executed id target payload executedAt => ∃ action, t.action id = some action ∧
    action.target = target ∧ action.payload = payload ∧ action.executed = true ∧
    action.executeAfter ≤ executedAt ∧ executedAt ≤ action.expiresAt

/-- What later storage keeps of the actions of earlier storage. -/
structure Carries (t t' : TimelockState) : Prop where
  minDelay : t'.minDelay = t.minDelay
  action : ∀ id old, t.action id = some old → ∃ new, t'.action id = some new ∧
    new.target = old.target ∧ new.payload = old.payload ∧ new.executeAfter = old.executeAfter ∧
    new.expiresAt = old.expiresAt ∧ (old.executed = true → new.executed = true) ∧
    (old.cancelled = true → new.cancelled = true)

/-- What was recorded stays so. -/
theorem Recorded.carried {t t' : TimelockState} {e : TimelockEvent} (h : Recorded t e)
    (hcarries : Carries t t') : Recorded t' e := by
  cases e with
  | quiet => trivial
  | queued id target payload queuedAt =>
    obtain ⟨old, hold, rfl, rfl, hdelay⟩ := h
    obtain ⟨new, hnew, htarget, hpayload, hafter, _⟩ := hcarries.action id old hold
    refine ⟨new, hnew, htarget, hpayload, ?_⟩
    rw [hcarries.minDelay, hafter]
    exact hdelay
  | cancelled id =>
    obtain ⟨old, hold, hcancelled⟩ := h
    obtain ⟨new, hnew, _, _, _, _, _, hkeeps⟩ := hcarries.action id old hold
    exact ⟨new, hnew, hkeeps hcancelled⟩
  | executed id target payload executedAt =>
    obtain ⟨old, hold, rfl, rfl, hexecuted, hready, hgrace⟩ := h
    obtain ⟨new, hnew, htarget, hpayload, hafter, hexpires, hkeeps, _⟩ :=
      hcarries.action id old hold
    exact ⟨new, hnew, htarget, hpayload, hkeeps hexecuted, hafter ▸ hready, hexpires ▸ hgrace⟩

/-- Actions and events belong together. -/
structure Logged (t : TimelockState) (events : List TimelockEvent) : Prop where
  ids : ∀ id action, t.action id = some action → action.id = id ∧ id < t.nextActionId
  consumed : ∀ id action, t.action id = some action → action.cancelled = true →
    action.executed = false
  announced : ∀ id action, t.action id = some action →
    ∃ queuedAt, TimelockEvent.queued id action.target action.payload queuedAt ∈ events
  recorded : ∀ e ∈ events, Recorded t e
  once : ∀ id, events.countP (TimelockEvent.isExecution id) ≤ 1

namespace Logged

variable {t t' : TimelockState} {events : List TimelockEvent} {e : TimelockEvent}

/-- Where actions stay, nothing happens to them. -/
theorem quiet (h : Logged t events) (haction : t'.action = t.action)
    (hnext : t'.nextActionId = t.nextActionId) (hdelay : t'.minDelay = t.minDelay) :
    Logged t' (.quiet :: events) := by
  have hcarries : Carries t t' := by
    refine ⟨hdelay, ?_⟩
    intro id old hold
    rw [haction]
    exact ⟨old, hold, rfl, rfl, rfl, rfl, fun hk => hk, fun hk => hk⟩
  refine ⟨?_, ?_, ?_, ?_, ?_⟩
  · rw [haction, hnext]
    exact h.ids
  · rw [haction]
    exact h.consumed
  · intro id action hid
    rw [haction] at hid
    obtain ⟨queuedAt, hqueued⟩ := h.announced id action hid
    exact ⟨queuedAt, List.mem_cons_of_mem _ hqueued⟩
  · intro e he
    rcases List.mem_cons.mp he with rfl | he
    · trivial
    · exact (h.recorded e he).carried hcarries
  · intro id
    have hother : ¬TimelockEvent.isExecution id .quiet = true := Bool.false_ne_true
    rw [List.countP_cons_of_neg hother]
    exact h.once id

/-- A new action is queued under the next identifier. -/
theorem queues (h : Logged t events) {action : TimelockAction} {queuedAt : ℕ}
    (hid : action.id = t.nextActionId) (hdelay : queuedAt + t.minDelay ≤ action.executeAfter)
    (hexecuted : action.executed = false) :
    Logged { writeAction t action with nextActionId := t.nextActionId + 1 }
      (.queued action.id action.target action.payload queuedAt :: events) := by
  have hnew : ∀ id old, t.action id = some old → id ≠ action.id := by
    intro id old hold heq
    have hlt := (h.ids id old hold).2
    omega
  have hcarries : Carries t
      { writeAction t action with nextActionId := t.nextActionId + 1 } := by
    refine ⟨rfl, ?_⟩
    intro id old hold
    refine ⟨old, ?_, rfl, rfl, rfl, rfl, fun hk => hk, fun hk => hk⟩
    unfold writeAction
    dsimp only
    rw [Store.set_get_of_ne _ _ (hnew id old hold)]
    exact hold
  have hget : ∀ id stored, (writeAction t action).action id = some stored →
      (id = action.id ∧ stored = action) ∨ t.action id = some stored := by
    intro id stored hk
    unfold writeAction at hk
    dsimp only at hk
    rw [Store.set_get] at hk
    split at hk
    · next heq => exact Or.inl ⟨heq, (Option.some.inj hk).symm⟩
    · exact Or.inr hk
  refine ⟨?_, ?_, ?_, ?_, ?_⟩
  · intro id stored hk
    rcases hget id stored hk with ⟨rfl, rfl⟩ | hold
    · exact ⟨rfl, by dsimp only; omega⟩
    · obtain ⟨hstored, hlt⟩ := h.ids id stored hold
      exact ⟨hstored, Nat.lt_succ_of_lt hlt⟩
  · intro id stored hk hcancelled
    rcases hget id stored hk with ⟨rfl, rfl⟩ | hold
    · exact hexecuted
    · exact h.consumed id stored hold hcancelled
  · intro id stored hk
    rcases hget id stored hk with ⟨rfl, rfl⟩ | hold
    · exact ⟨queuedAt, List.mem_cons_self⟩
    · obtain ⟨at', hqueued⟩ := h.announced id stored hold
      exact ⟨at', List.mem_cons_of_mem _ hqueued⟩
  · intro e he
    rcases List.mem_cons.mp he with rfl | he
    · refine ⟨action, ?_, rfl, rfl, hdelay⟩
      unfold writeAction
      dsimp only
      rw [Store.set_get_self]
    · exact (h.recorded e he).carried hcarries
  · intro id
    have hother : ¬TimelockEvent.isExecution id
        (.queued action.id action.target action.payload queuedAt) = true := Bool.false_ne_true
    rw [List.countP_cons_of_neg hother]
    exact h.once id

/-- A waiting action is consumed: its record is written over with one more flag. -/
theorem consumes (h : Logged t events) {id : ℕ} {old new : TimelockAction}
    (hold : t.action id = some old) (hexecuted : old.executed = false)
    (hcancelled : old.cancelled = false) (hid : new.id = old.id)
    (hsame : new.target = old.target ∧ new.payload = old.payload ∧
      new.executeAfter = old.executeAfter ∧ new.expiresAt = old.expiresAt)
    (hexclusive : new.cancelled = true → new.executed = false)
    (hunqueued : ∀ id, e.isExecution id = true → id = old.id ∧ new.executed = true)
    (hrecorded : Recorded (writeAction t new) e) :
    Logged (writeAction t new) (e :: events) := by
  obtain ⟨htarget, hpayload, hafter, hexpires⟩ := hsame
  have hkey : new.id = id := hid.trans (h.ids id old hold).1
  have hcarries : Carries t (writeAction t new) := by
    refine ⟨rfl, ?_⟩
    intro k stored hk
    unfold writeAction
    dsimp only
    rw [hkey, Store.set_get]
    split
    · next heq =>
      rw [heq, hold] at hk
      obtain rfl := Option.some.inj hk
      refine ⟨new, rfl, htarget, hpayload, hafter, hexpires, ?_, ?_⟩
      · rw [hexecuted]
        exact nofun
      · rw [hcancelled]
        exact nofun
    · exact ⟨stored, hk, rfl, rfl, rfl, rfl, fun hk => hk, fun hk => hk⟩
  have hget : ∀ k stored, (writeAction t new).action k = some stored →
      (k = id ∧ stored = new) ∨ t.action k = some stored := by
    intro k stored hk
    unfold writeAction at hk
    dsimp only at hk
    rw [hkey, Store.set_get] at hk
    split at hk
    · next heq => exact Or.inl ⟨heq, (Option.some.inj hk).symm⟩
    · exact Or.inr hk
  refine ⟨?_, ?_, ?_, ?_, ?_⟩
  · intro k stored hk
    rcases hget k stored hk with ⟨rfl, rfl⟩ | hk
    · exact ⟨hkey, (h.ids k old hold).2⟩
    · exact h.ids k stored hk
  · intro k stored hk hcancel
    rcases hget k stored hk with ⟨rfl, rfl⟩ | hk
    · exact hexclusive hcancel
    · exact h.consumed k stored hk hcancel
  · intro k stored hk
    rcases hget k stored hk with ⟨rfl, rfl⟩ | hk
    · obtain ⟨queuedAt, hqueued⟩ := h.announced k old hold
      rw [htarget, hpayload]
      exact ⟨queuedAt, List.mem_cons_of_mem _ hqueued⟩
    · obtain ⟨queuedAt, hqueued⟩ := h.announced k stored hk
      exact ⟨queuedAt, List.mem_cons_of_mem _ hqueued⟩
  · intro e' he'
    rcases List.mem_cons.mp he' with rfl | he'
    · exact hrecorded
    · exact (h.recorded e' he').carried hcarries
  · intro k
    by_cases hexec : e.isExecution k = true
    · -- an action that is still waiting was not executed before
      have hnone : events.countP (TimelockEvent.isExecution k) = 0 := by
        rw [List.countP_eq_zero]
        intro e' he' hexec'
        have hright := h.recorded e' he'
        cases e' with
        | executed k' target payload executedAt =>
          obtain rfl := of_decide_eq_true hexec'
          obtain ⟨stored, hstored, _, _, hdone, _⟩ := hright
          rw [(hunqueued k' hexec).1, (h.ids id old hold).1, hold] at hstored
          obtain rfl := Option.some.inj hstored
          rw [hexecuted] at hdone
          cases hdone
        | quiet => cases hexec'
        | queued k' target payload queuedAt => cases hexec'
        | cancelled k' => cases hexec'
      rw [List.countP_cons_of_pos hexec, hnone]
    · rw [List.countP_cons_of_neg hexec]
      exact h.once k

/-- Every move keeps actions and events together. -/
theorem moves {ctx : Ctx} {w w' : World} (h : Logged w.timelock events)
    (hmove : TimelockMoves ctx w e w') : Logged w'.timelock (e :: events) := by
  cases hmove with
  | settings admin proposer executor => exact h.quiet rfl rfl rfl
  | queues hid hdelay hexecuted hcancelled => exact h.queues hid hdelay hexecuted
  | @cancels id action haction hexecuted hcancelled =>
    have hrecorded : Recorded (writeAction w.timelock { action with cancelled := true })
        (.cancelled id) := by
      refine ⟨{ action with cancelled := true }, ?_, rfl⟩
      unfold writeAction
      dsimp only
      rw [(h.ids id action haction).1, Store.set_get_self]
    exact h.consumes haction hexecuted hcancelled rfl ⟨rfl, rfl, rfl, rfl⟩ (fun _ => hexecuted)
      (fun _ hk => absurd hk Bool.false_ne_true) hrecorded
  | @executes id action foreign w' haction hexecuted hcancelled hready hgrace hcall =>
    rw [(dispatch_leaves hcall).1]
    have hrecorded : Recorded (writeAction w.timelock { action with executed := true })
        (.executed action.id action.target action.payload ctx.now) := by
      refine ⟨{ action with executed := true }, ?_, rfl, rfl, rfl, hready, hgrace⟩
      unfold writeAction
      dsimp only
      rw [Store.set_get_self]
    refine h.consumes haction hexecuted hcancelled rfl ⟨rfl, rfl, rfl, rfl⟩ ?_
      (fun k hk => ⟨(of_decide_eq_true hk).symm, rfl⟩) hrecorded
    intro hk
    dsimp only at hk
    rw [hcancelled] at hk
    cases hk

end Logged

/-- One step of a run. -/
inductive TimelockStep where
  /-- An invocation of the timelock. -/
  | timelock (ctx : Ctx) (op : TimelockOp)
  /-- An invocation of governance that does not come from the timelock. -/
  | governance (ctx : Ctx) (op : GovernanceOp)
  /-- Anything else changes. -/
  | outside (w : World)

/-- An invocation does not come from the timelock: it neither signs nor invokes. -/
def NotFromTimelock (ctx : Ctx) : Prop :=
  ∀ u, requireAuth ctx (.contract .timelock) ≠ .ok u

instance (ctx : Ctx) : Decidable (NotFromTimelock ctx) :=
  decidable_of_iff
    (¬(.contract .timelock ∈ ctx.signers ∨ ctx.callers.head? = some (.contract .timelock)))
    ⟨fun h _ hu => h (requireAuth_ok.mp hu), fun h ho => h () (requireAuth_ok.mpr ho)⟩

/-- Runs of timelock and governance as their constructors leave them; the time
of an invocation is never before that of an earlier one. -/
def timelockSystem : System (World × ℕ) TimelockStep Fault where
  Init := fun s => ∃ admin treasury, s.1.governance = freshGovernance admin treasury ∧
    ∃ admin proposer executor minDelay gracePeriod,
      s.1.timelock = freshTimelock admin proposer executor minDelay gracePeriod
  step := fun s step =>
    match step with
    | .timelock ctx op => do
      refuse (ctx.now < s.2) .trap
      let w ← op.exec ctx s.1
      return (w, ctx.now)
    | .governance ctx op => do
      refuse (ctx.now < s.2 ∨ ¬NotFromTimelock ctx) .trap
      let g ← op.exec ctx s.1.governance
      return ({ s.1 with governance := g }, ctx.now)
    | .outside w' => .ok ({ w' with
        governance := s.1.governance
        timelock := s.1.timelock
        host := s.1.host }, s.2)

/-- The event of a step. -/
def stepEvent (s : World × ℕ) : TimelockStep → TimelockEvent
  | .timelock ctx op => eventOf ctx s.1 op
  | _ => .quiet

/-- Runs with the list of events, the latest first. -/
def logbook : System ((World × ℕ) × List TimelockEvent) TimelockStep Fault :=
  timelockSystem.recorded [] (fun events s step => stepEvent s step :: events)

/-- Every step keeps actions and events together. -/
theorem Logged.step {s s' : (World × ℕ) × List TimelockEvent} {step : TimelockStep}
    (h : Logged s.1.1.timelock s.2) (hstep : logbook.step s step = .ok s') :
    Logged s'.1.1.timelock s'.2 := by
  obtain ⟨hs, hnote⟩ := System.recorded_step.mp hstep
  rw [hnote]
  cases step with
  | timelock ctx op =>
    obtain ⟨_, _, hs⟩ := bind_ok.mp hs
    obtain ⟨w, hw, hs⟩ := bind_ok.mp hs
    obtain ⟨hs1, _⟩ := Prod.mk.inj (pure_ok.mp hs)
    rw [← hs1]
    exact h.moves (TimelockOp.exec_moves hw)
  | governance ctx op =>
    obtain ⟨_, _, hs⟩ := bind_ok.mp hs
    obtain ⟨g, _, hs⟩ := bind_ok.mp hs
    obtain ⟨hs1, _⟩ := Prod.mk.inj (pure_ok.mp hs)
    rw [← hs1]
    exact h.quiet rfl rfl rfl
  | outside w' =>
    obtain ⟨hs1, _⟩ := Prod.mk.inj (ok_ok.mp hs)
    rw [← hs1]
    exact h.quiet rfl rfl rfl

/-- In every reachable state they are together. -/
theorem logged {s : (World × ℕ) × List TimelockEvent} (h : logbook.Reachable s) :
    Logged s.1.1.timelock s.2 := by
  apply h.invariant (I := fun s => Logged s.1.1.timelock s.2)
  · rintro s ⟨⟨_, _, _, admin, proposer, executor, minDelay, gracePeriod, ht⟩, hevents⟩
    have hnone : ∀ id, s.1.1.timelock.action id = none := by
      intro id
      rw [ht]
      rfl
    rw [hevents]
    refine ⟨?_, ?_, ?_, ?_, ?_⟩
    · intro id action hid
      rw [hnone] at hid
      cases hid
    · intro id action hid
      rw [hnone] at hid
      cases hid
    · intro id action hid
      rw [hnone] at hid
      cases hid
    · intro event hevent
      cases hevent
    · intro id
      rw [List.countP_nil]
      exact Nat.zero_le 1
  · exact fun s step s' hs _ hstep => hs.step hstep

/-- An execution changes the entries of governance only as an action says that
was queued for governance and waited. -/
theorem execute_governance {ctx : Ctx} {w w' : World} {events : List TimelockEvent} {id : ℕ}
    {foreign : Foreign} {returned : TimelockAction} (h : Logged w.timelock events)
    (hthis : w.governance.timelock = some (.contract .timelock))
    (hexecute : execute ctx w id foreign = .ok (returned, w')) :
    EntriesKept w.governance w'.governance ∨
      ∃ payload queuedAt, .queued id (.contract .governance) payload queuedAt ∈ events ∧
        queuedAt + w.timelock.minDelay ≤ ctx.now ∧
        appliedTo w.governance payload = some w'.governance := by
  unfold execute at hexecute
  obtain ⟨_, _, hexecute⟩ := bind_ok.mp hexecute
  obtain ⟨action, haction, hexecute⟩ := bind_ok.mp hexecute
  obtain ⟨_, _, hexecute⟩ := bind_ok.mp hexecute
  obtain ⟨_, _, hexecute⟩ := bind_ok.mp hexecute
  obtain ⟨_, hready, hexecute⟩ := bind_ok.mp hexecute
  obtain ⟨_, _, hexecute⟩ := bind_ok.mp hexecute
  obtain ⟨_, _, hexecute⟩ := bind_ok.mp hexecute
  obtain ⟨w1, hcall, hexecute⟩ := bind_ok.mp hexecute
  obtain ⟨rfl, rfl⟩ := Prod.mk.inj (pure_ok.mp hexecute)
  have haction : w.timelock.action id = some action := orFault_ok.mp haction
  have hready := not_lt.mp (refuse_ok.mp hready)
  rcases dispatch_governance hthis hcall with hkept | ⟨htarget, happlied⟩
  · exact Or.inl hkept
  · obtain ⟨queuedAt, hqueued⟩ := h.announced id action haction
    obtain ⟨stored, hstored, _, _, hdelay⟩ := h.recorded _ hqueued
    rw [haction] at hstored
    obtain rfl := Option.some.inj hstored
    rw [htarget] at hqueued
    exact Or.inr ⟨action.payload, queuedAt, hqueued, hdelay.trans hready, happlied⟩

/-- The entries of governance change by an action that waited, while this
timelock is behind governance. -/
theorem governance_change {s s' : (World × ℕ) × List TimelockEvent} {step : TimelockStep}
    (h : Logged s.1.1.timelock s.2)
    (hthis : s.1.1.governance.timelock = some (.contract .timelock))
    (hstep : logbook.step s step = .ok s') :
    EntriesKept s.1.1.governance s'.1.1.governance ∨
      ∃ ctx id foreign payload queuedAt, step = .timelock ctx (.execute id foreign) ∧
        .queued id (.contract .governance) payload queuedAt ∈ s.2 ∧
        queuedAt + s.1.1.timelock.minDelay ≤ ctx.now ∧
        appliedTo s.1.1.governance payload = some s'.1.1.governance := by
  obtain ⟨hs, _⟩ := System.recorded_step.mp hstep
  cases step with
  | timelock ctx op =>
    obtain ⟨_, _, hs⟩ := bind_ok.mp hs
    obtain ⟨w, hw, hs⟩ := bind_ok.mp hs
    obtain ⟨hs1, _⟩ := Prod.mk.inj (pure_ok.mp hs)
    rw [← hs1]
    have hkeeps : ∀ {x : Res TimelockState}, store s.1.1 x = .ok w →
        EntriesKept s.1.1.governance w.governance := by
      intro x hx
      obtain ⟨t, _, hx⟩ := bind_ok.mp hx
      rw [← pure_ok.mp hx]
      exact .refl _
    cases op with
    | setAdmin admin => exact Or.inl (hkeeps hw)
    | setRoles proposer executor => exact Or.inl (hkeeps hw)
    | queue kind target payload requestedDelay =>
      obtain ⟨⟨id, t⟩, _, hw⟩ := bind_ok.mp hw
      obtain rfl := pure_ok.mp hw
      exact Or.inl (.refl _)
    | cancel actionId => exact Or.inl (hkeeps hw)
    | execute actionId foreign =>
      obtain ⟨returned, hw⟩ := world_ok.mp hw
      rcases execute_governance h hthis hw with hkept | ⟨payload, queuedAt, hrest⟩
      · exact Or.inl hkept
      · exact Or.inr ⟨ctx, actionId, foreign, payload, queuedAt, rfl, hrest⟩
  | governance ctx op =>
    obtain ⟨_, hchecks, hs⟩ := bind_ok.mp hs
    obtain ⟨g, hg, hs⟩ := bind_ok.mp hs
    obtain ⟨hs1, _⟩ := Prod.mk.inj (pure_ok.mp hs)
    rw [← hs1]
    exact Or.inl (GovernanceOp.exec_kept hthis
      (not_not.mp (not_or.mp (refuse_ok.mp hchecks)).2) hg)
  | outside w' =>
    obtain ⟨hs1, _⟩ := Prod.mk.inj (ok_ok.mp hs)
    rw [← hs1]
    exact Or.inl (.refl _)

/-- In every run an action is executed at most once and never when it is ever
cancelled, in its window, with the target and payload it was queued with and at
least the minimal delay after it was queued; and once this timelock is behind
governance, every change of governance's entries is the effect of such an action. -/
theorem timelock_discipline {s : (World × ℕ) × List TimelockEvent} (h : logbook.Reachable s) :
    (∀ id, s.2.countP (TimelockEvent.isExecution id) ≤ 1) ∧
      (∀ id, .cancelled id ∈ s.2 → ∀ target payload executedAt,
        .executed id target payload executedAt ∉ s.2) ∧
      (∀ id target payload executedAt, .executed id target payload executedAt ∈ s.2 →
        (∃ action, s.1.1.timelock.action id = some action ∧
          action.executeAfter ≤ executedAt ∧ executedAt ≤ action.expiresAt) ∧
        (∃ queuedAt, .queued id target payload queuedAt ∈ s.2) ∧
        ∀ target' payload' queuedAt, .queued id target' payload' queuedAt ∈ s.2 →
          target' = target ∧ payload' = payload ∧
            queuedAt + s.1.1.timelock.minDelay ≤ executedAt) ∧
      ∀ step s', s.1.1.governance.timelock = some (.contract .timelock) →
        logbook.step s step = .ok s' →
        EntriesKept s.1.1.governance s'.1.1.governance ∨
          ∃ ctx id foreign payload queuedAt, step = .timelock ctx (.execute id foreign) ∧
            .queued id (.contract .governance) payload queuedAt ∈ s.2 ∧
            queuedAt + s.1.1.timelock.minDelay ≤ ctx.now ∧
            appliedTo s.1.1.governance payload = some s'.1.1.governance := by
  have hlog := logged h
  refine ⟨hlog.once, ?_, ?_, fun step s' hthis hstep => governance_change hlog hthis hstep⟩
  · intro id hcancelled target payload executedAt hexecuted
    obtain ⟨action, haction, hcancel⟩ := hlog.recorded _ hcancelled
    obtain ⟨action', haction', _, _, hdone, _⟩ := hlog.recorded _ hexecuted
    rw [haction] at haction'
    obtain rfl := Option.some.inj haction'
    rw [hlog.consumed id action haction hcancel] at hdone
    cases hdone
  · intro id target payload executedAt hexecuted
    obtain ⟨action, haction, rfl, rfl, _, hready, hgrace⟩ := hlog.recorded _ hexecuted
    refine ⟨⟨action, haction, hready, hgrace⟩, hlog.announced id action haction, ?_⟩
    intro target' payload' queuedAt hqueued
    obtain ⟨action', haction', rfl, rfl, hdelay⟩ := hlog.recorded _ hqueued
    rw [haction] at haction'
    obtain rfl := Option.some.inj haction'
    exact ⟨rfl, rfl, hdelay.trans hready⟩

/-- Governance before its first timelock, and the timelock beside it. -/
def unboundWorld : World :=
  { deploy sampleLaunch with governance := freshGovernance (.account 1) (.account 3) }

/-- Governance is handed to the timelock, and its treasury is changed through it. -/
def treasuryChange : List TimelockStep :=
  [.governance ⟨1, [.account 1], []⟩ (.setTimelock (.contract .timelock)),
    .timelock ⟨2, [.account 4], []⟩
      (.queue .treasury (.contract .governance) (.treasury alice) 10),
    .timelock ⟨12, [.account 5], []⟩ (.execute 1 ⟨[], deploy sampleLaunch⟩)]

/-- The change was queued at time 2, with the delay of ten, and is executed once. -/
theorem timelock_discipline_of_treasuryChange : ∃ s,
    logbook.runs ((unboundWorld, 0), []) treasuryChange = .ok s ∧
      s.1.1.governance.treasury = alice ∧
      .executed 1 (.contract .governance) (.treasury alice) 12 ∈ s.2 ∧
      s.2.countP (TimelockEvent.isExecution 1) ≤ 1 ∧
      ∃ queuedAt, .queued 1 (.contract .governance) (.treasury alice) queuedAt ∈ s.2 ∧
        queuedAt + s.1.1.timelock.minDelay ≤ 12 := by
  obtain ⟨s, hs, hcheck⟩ := System.runs_of_decide (S := logbook)
    ((unboundWorld, 0), []) treasuryChange
    (fun s => decide (s.1.1.governance.treasury = alice) &&
      decide (.executed 1 (.contract .governance) (.treasury alice) 12 ∈ s.2)) (by decide +kernel)
  obtain ⟨htreasury, hexecuted⟩ := Bool.and_eq_true_iff.mp hcheck
  have hexecuted := of_decide_eq_true hexecuted
  have hreach : logbook.Reachable s :=
    System.Reachable.runs
      (.init ⟨⟨_, _, rfl, _, _, _, _, _, rfl⟩, rfl⟩) treasuryChange hs
  obtain ⟨honce, _, hqueued, _⟩ := timelock_discipline hreach
  obtain ⟨_, ⟨queuedAt, hmem⟩, hdelay⟩ := hqueued 1 _ _ 12 hexecuted
  exact ⟨s, hs, of_decide_eq_true htreasury, hexecuted, honce 1, queuedAt, hmem,
    (hdelay _ _ queuedAt hmem).2.2⟩

end DikeProtocol.Timelock
