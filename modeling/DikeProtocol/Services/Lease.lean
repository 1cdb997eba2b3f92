import DikeProtocol.Lib.Lock
import DikeProtocol.Lib.Run
import DikeProtocol.Lib.Store

/-!
# The indexer's lease

A worker takes an advisory lock of the database before it works and gives it
back afterwards. Each of the two queries goes through the pool, which may serve
it on any connection, while the lock belongs to the connection that took it.
-/

namespace DikeProtocol.Services.Indexer

open Lib

/-- A connection of a worker process to the database. -/
structure Session where
  process : ℕ
  connection : ℕ
  deriving DecidableEq

/-- Where a worker is in its tick. Once it has the lease, `connection` is the
one that served `tryAcquireIndexerLease`. -/
inductive Phase where
  | idle
  | acquiring
  | working (connection : ℕ)
  | releasing (connection : ℕ)
  deriving DecidableEq

instance : Inhabited Phase := ⟨.idle⟩

/-- A worker between a successful acquisition and the end of its tick. -/
def Phase.Leased : Phase → Prop
  | .working _ => True
  | .releasing _ => True
  | _ => False

/-- How a tick ended: the connections that served its acquisition and its
release, and whether a connection of the process still holds the lock. -/
structure TickEnd where
  process : ℕ
  acquiredOn : Option ℕ
  releasedOn : Option ℕ
  stillHeld : Bool
  deriving DecidableEq

/-- The lock, the workers and the ticks that ended. -/
structure LeaseState where
  lock : SessionLock Session
  phase : Store ℕ Phase
  ended : List TickEnd

/-- The steps of the workers, each by its process. -/
inductive LeaseStep where
  /-- The timer fires. -/
  | tick (process : ℕ)
  /-- A connection serves `tryAcquireIndexerLease`. -/
  | tryAcquireIndexerLease (process connection : ℕ)
  /-- That query fails. -/
  | acquireFails (process : ℕ)
  /-- The body of the tick ends, in whatever way. -/
  | finish (process : ℕ)
  /-- A connection serves `releaseIndexerLease`. -/
  | releaseIndexerLease (process connection : ℕ)
  /-- That query fails. -/
  | releaseFails (process : ℕ)

/-- Whether a connection of a process holds the lock. -/
def heldBy (lock : SessionLock Session) (process : ℕ) : Bool :=
  match lock with
  | none => false
  | some held => held.owner.process = process

/-- A tick ends: the worker is no longer running. -/
def endTick (s : LeaseState) (lock : SessionLock Session) (process : ℕ)
    (acquiredOn releasedOn : Option ℕ) : LeaseState where
  lock := lock
  phase := s.phase.set process .idle
  ended := s.ended ++ [⟨process, acquiredOn, releasedOn, heldBy lock process⟩]

/-- Worker processes that share a database, from when nobody holds the lock. -/
def leaseSystem : System LeaseState LeaseStep Unit where
  Init := fun s => s = ⟨none, .empty, []⟩
  step := fun s step =>
    match step with
    | .tick process =>
      -- a worker that is running already returns at once
      if s.phase process = .idle then
        .ok { s with phase := s.phase.set process .acquiring }
      else .ok s
    | .tryAcquireIndexerLease process connection =>
      if s.phase process = .acquiring then
        match s.lock.tryLock ⟨process, connection⟩ with
        | (true, lock) => .ok { s with lock, phase := s.phase.set process (.working connection) }
        | (false, lock) => .ok (endTick s lock process none none)
      else .error ()
    | .acquireFails process =>
      if s.phase process = .acquiring then .ok (endTick s s.lock process none none)
      else .error ()
    | .finish process =>
      match s.phase process with
      | .working connection =>
        .ok { s with phase := s.phase.set process (.releasing connection) }
      | _ => .error ()
    | .releaseIndexerLease process connection =>
      match s.phase process with
      | .releasing acquiredOn => .ok (endTick s (s.lock.unlock ⟨process, connection⟩) process
          (some acquiredOn) (some connection))
      | _ => .error ()
    | .releaseFails process =>
      match s.phase process with
      | .releasing acquiredOn => .ok (endTick s s.lock process (some acquiredOn) none)
      | _ => .error ()

/-- At most one worker has the lease. -/
def AtMostOneLeased (s : LeaseState) : Prop :=
  ∀ p q, (s.phase p).Leased → (s.phase q).Leased → p = q

/-- After every tick that ended, no connection of its process held the lock. -/
def AlwaysReleased (s : LeaseState) : Prop :=
  ∀ tick ∈ s.ended, tick.stillHeld = false

/-- The release of every tick that had the lease was served by the connection that took it. -/
def ReleasedWhereAcquired (s : LeaseState) : Prop :=
  ∀ tick ∈ s.ended, ∀ connection, tick.acquiredOn = some connection →
    tick.releasedOn = some connection

/-- What holds in every run: a worker with the lease owns the lock on its own connection, and a
tick whose lease was not given back there leaves it held. -/
structure LeaseInvariant (s : LeaseState) : Prop where
  owns : ∀ p connection, (s.phase p = .working connection ∨ s.phase p = .releasing connection) →
    ∃ again, s.lock = some ⟨⟨p, connection⟩, again⟩
  leaves : ∀ tick ∈ s.ended, ∀ connection, tick.acquiredOn = some connection →
    tick.releasedOn = some connection ∨ tick.stillHeld = true
  frees : ReleasedWhereAcquired s → AlwaysReleased s ∧ ∀ held, s.lock = some held →
    held.again = 0 ∧ (s.phase held.owner.process = .working held.owner.connection ∨
      s.phase held.owner.process = .releasing held.owner.connection)

section Runs

variable {s : LeaseState}

/-- Only the owner of the lock can have the lease. -/
theorem LeaseInvariant.atMostOne (h : LeaseInvariant s) : AtMostOneLeased s := by
  have howner : ∀ p, (s.phase p).Leased → ∃ held, s.lock = some held ∧ held.owner.process = p := by
    intro p hp
    cases hphase : s.phase p with
    | idle | acquiring =>
      rw [hphase] at hp
      cases hp
    | working connection =>
      obtain ⟨again, hlock⟩ := h.owns p connection (Or.inl hphase)
      exact ⟨_, hlock, rfl⟩
    | releasing connection =>
      obtain ⟨again, hlock⟩ := h.owns p connection (Or.inr hphase)
      exact ⟨_, hlock, rfl⟩
  intro p q hp hq
  obtain ⟨held, hlock, rfl⟩ := howner p hp
  obtain ⟨held', hlock', rfl⟩ := howner q hq
  rw [hlock] at hlock'
  rw [Option.some.inj hlock']

/-- A lock is held by a process when one of its connections owns it. -/
theorem heldBy_iff {lock : SessionLock Session} {process : ℕ} :
    heldBy lock process = true ↔ ∃ held, lock = some held ∧ held.owner.process = process := by
  unfold heldBy
  split
  · exact ⟨fun h => absurd h Bool.false_ne_true, fun ⟨_, h, _⟩ => by cases h⟩
  · next held =>
    rw [decide_eq_true_eq]
    exact ⟨fun h => ⟨held, rfl, h⟩, fun ⟨_, heq, h⟩ => by rwa [← Option.some.inj heq] at h⟩

/-- A worker that moves between phases without the lease, or keeps it, keeps the invariant. -/
theorem LeaseInvariant.move (h : LeaseInvariant s) {process : ℕ} {phase : Phase}
    (hsame : ∀ connection, (phase = .working connection ∨ phase = .releasing connection) ↔
      (s.phase process = .working connection ∨ s.phase process = .releasing connection)) :
    LeaseInvariant { s with phase := s.phase.set process phase } := by
  have hphase : ∀ p connection,
      ((s.phase.set process phase) p = .working connection ∨
        (s.phase.set process phase) p = .releasing connection) ↔
      (s.phase p = .working connection ∨ s.phase p = .releasing connection) := by
    intro p connection
    rw [Store.set_get]
    split
    · next hp =>
      rw [hp]
      exact hsame connection
    · exact Iff.rfl
  refine ⟨?_, h.leaves, ?_⟩
  · intro p connection hp
    exact h.owns p connection ((hphase p connection).mp hp)
  · intro hreleased
    obtain ⟨halways, hheld⟩ := h.frees hreleased
    refine ⟨halways, fun held hlock => ?_⟩
    obtain ⟨hagain, hworks⟩ := hheld held hlock
    exact ⟨hagain, (hphase _ _).mpr hworks⟩

/-- A tick that ends without having had the lease keeps it. -/
theorem LeaseInvariant.endUnleased (h : LeaseInvariant s) {process : ℕ}
    (hacquiring : s.phase process = .acquiring) :
    LeaseInvariant (endTick s s.lock process none none) := by
  have hmoved : LeaseInvariant { s with phase := s.phase.set process .idle } := h.move (by
    intro connection
    rw [hacquiring]
    simp)
  refine ⟨hmoved.owns, ?_, ?_⟩
  · intro tick htick connection hacquired
    rcases List.mem_append.mp htick with htick | htick
    · exact h.leaves tick htick connection hacquired
    · rw [List.mem_singleton.mp htick] at hacquired
      cases hacquired
  · intro hreleased
    obtain ⟨halways, hheld⟩ := hmoved.frees
      (fun tick htick => hreleased tick (List.mem_append_left _ htick))
    refine ⟨?_, hheld⟩
    intro tick htick
    rcases List.mem_append.mp htick with htick | htick
    · exact halways tick htick
    · rw [List.mem_singleton.mp htick, Bool.eq_false_iff]
      dsimp only
      rw [Ne, heldBy_iff]
      rintro ⟨held, hlock, howner⟩
      -- whoever owns the lock works, but this worker was only acquiring it
      obtain ⟨_, hworks⟩ := (h.frees
        (fun tick htick => hreleased tick (List.mem_append_left _ htick))).2 held hlock
      rw [howner, hacquiring] at hworks
      rcases hworks with hworks | hworks <;> cases hworks

/-- A tick that ends after its lease was given back on a connection, or not at all, keeps it. -/
theorem LeaseInvariant.endLeased (h : LeaseInvariant s) {process acquiredOn : ℕ}
    (hreleasing : s.phase process = .releasing acquiredOn) {lock : SessionLock Session}
    {releasedOn : Option ℕ}
    (hother : releasedOn ≠ some acquiredOn → lock = s.lock)
    (hsame : releasedOn = some acquiredOn → lock = s.lock.unlock ⟨process, acquiredOn⟩) :
    LeaseInvariant (endTick s lock process (some acquiredOn) releasedOn) := by
  obtain ⟨again, hlock⟩ := h.owns process acquiredOn (Or.inr hreleasing)
  have hphase : ∀ p connection,
      ((s.phase.set process .idle) p = .working connection ∨
        (s.phase.set process .idle) p = .releasing connection) → p ≠ process ∧
      (s.phase p = .working connection ∨ s.phase p = .releasing connection) := by
    intro p connection hp
    rw [Store.set_get] at hp
    split at hp
    · rcases hp with hp | hp <;> cases hp
    · next hne => exact ⟨hne, hp⟩
  -- nobody else has the lease
  have halone : ∀ p, p ≠ process → ¬(s.phase p).Leased := by
    intro p hne hp
    refine hne (h.atMostOne p process hp ?_)
    rw [hreleasing]
    trivial
  refine ⟨?_, ?_, ?_⟩
  · intro p connection hp
    obtain ⟨hne, hworks⟩ := hphase p connection hp
    refine absurd ?_ (halone p hne)
    rcases hworks with hworks | hworks <;> rw [hworks] <;> trivial
  · intro tick htick connection hacquired
    rcases List.mem_append.mp htick with htick | htick
    · exact h.leaves tick htick connection hacquired
    · rw [List.mem_singleton.mp htick] at hacquired ⊢
      obtain rfl := Option.some.inj hacquired
      by_cases hwhere : releasedOn = some acquiredOn
      · exact Or.inl hwhere
      · right
        exact heldBy_iff.mpr ⟨_, (hother hwhere).trans hlock, rfl⟩
  · intro hreleased
    obtain ⟨halways, hheld⟩ := h.frees
      (fun tick htick => hreleased tick (List.mem_append_left _ htick))
    have hwhere : releasedOn = some acquiredOn :=
      hreleased _ (List.mem_append_right _ List.mem_cons_self) acquiredOn rfl
    have honce := (hheld _ hlock).1
    dsimp only at honce
    have hfree : lock = none := by
      rw [hsame hwhere, hlock, honce]
      exact SessionLock.unlock_last _
    refine ⟨?_, ?_⟩
    · intro tick htick
      rcases List.mem_append.mp htick with htick | htick
      · exact halways tick htick
      · rw [List.mem_singleton.mp htick, hfree]
        rfl
    · intro held hsome
      change lock = some held at hsome
      rw [hfree] at hsome
      cases hsome

/-- A worker that is granted the lock keeps it. -/
theorem LeaseInvariant.acquire (h : LeaseInvariant s) {process connection : ℕ}
    (hacquiring : s.phase process = .acquiring) {lock : SessionLock Session}
    (htry : s.lock.tryLock ⟨process, connection⟩ = (true, lock)) :
    LeaseInvariant { s with lock, phase := s.phase.set process (.working connection) } := by
  have hgranted := SessionLock.tryLock_granted htry
  refine ⟨?_, h.leaves, ?_⟩
  · intro p c hp
    dsimp only at hp ⊢
    rw [Store.set_get] at hp
    split at hp
    · next heq =>
      obtain rfl : connection = c := by
        rcases hp with hp | hp <;> cases hp
        rfl
      rw [heq]
      obtain ⟨_, rfl⟩ | ⟨again, _, rfl⟩ := hgranted
      · exact ⟨0, rfl⟩
      · exact ⟨again + 1, rfl⟩
    · next hne =>
      -- another worker with the lease would own the lock
      obtain ⟨again, hlock⟩ := h.owns p c hp
      obtain ⟨hfree, _⟩ | ⟨again', hmine, _⟩ := hgranted
      · rw [hlock] at hfree
        cases hfree
      · rw [hlock] at hmine
        obtain ⟨howner, _⟩ := Held.mk.inj (Option.some.inj hmine)
        exact absurd (Session.mk.inj howner).1 hne
  · intro hreleased
    obtain ⟨halways, hheld⟩ := h.frees hreleased
    refine ⟨halways, fun held hsome => ?_⟩
    dsimp only at hsome ⊢
    obtain ⟨_, rfl⟩ | ⟨again, hmine, _⟩ := hgranted
    · obtain rfl := Option.some.inj hsome
      exact ⟨rfl, Or.inl (Store.set_get_self _ _ _)⟩
    · -- nothing is left over from an earlier tick of this worker
      obtain ⟨_, hworks⟩ := hheld _ hmine
      dsimp only at hworks
      rw [hacquiring] at hworks
      rcases hworks with hworks | hworks <;> cases hworks

/-- Every step keeps it. -/
theorem LeaseInvariant.step (h : LeaseInvariant s) {step : LeaseStep} {s' : LeaseState}
    (hstep : leaseSystem.step s step = .ok s') : LeaseInvariant s' := by
  cases step with
  | tick process =>
    change (if s.phase process = .idle then _ else _) = _ at hstep
    split at hstep
    · next hidle =>
      cases hstep
      refine h.move (fun connection => ?_)
      rw [hidle]
      simp
    · cases hstep
      exact h
  | tryAcquireIndexerLease process connection =>
    change (if s.phase process = .acquiring then _ else _) = _ at hstep
    split at hstep
    · next hacquiring =>
      split at hstep
      · next lock htry =>
        cases hstep
        exact h.acquire hacquiring htry
      · next lock htry =>
        cases hstep
        rw [(SessionLock.tryLock_refused htry).1]
        exact h.endUnleased hacquiring
    · cases hstep
  | acquireFails process =>
    change (if s.phase process = .acquiring then _ else _) = _ at hstep
    split at hstep
    · next hacquiring =>
      cases hstep
      exact h.endUnleased hacquiring
    · cases hstep
  | finish process =>
    dsimp only [leaseSystem] at hstep
    split at hstep
    · next connection hworking =>
      cases hstep
      refine h.move (fun connection' => ?_)
      rw [hworking]
      simp
    · cases hstep
  | releaseIndexerLease process connection =>
    dsimp only [leaseSystem] at hstep
    split at hstep
    · next acquiredOn hreleasing =>
      cases hstep
      obtain ⟨again, hlock⟩ := h.owns process acquiredOn (Or.inr hreleasing)
      refine h.endLeased hreleasing ?_ ?_
      · intro hne
        rw [hlock]
        apply SessionLock.unlock_other
        intro howner
        rw [← (Session.mk.inj howner).2] at hne
        exact hne rfl
      · intro heq
        rw [Option.some.inj heq]
    · cases hstep
  | releaseFails process =>
    dsimp only [leaseSystem] at hstep
    split at hstep
    · next acquiredOn hreleasing =>
      cases hstep
      exact h.endLeased hreleasing (fun _ => rfl) (fun heq => by cases heq)
    · cases hstep

/-- It holds in every run. -/
theorem leaseInvariant_of_reachable (h : leaseSystem.Reachable s) : LeaseInvariant s := by
  refine h.invariant ?_ (fun _ _ _ hs _ hstep => hs.step hstep)
  rintro s rfl
  refine ⟨?_, fun tick htick => absurd htick List.not_mem_nil, fun _ => ⟨?_, ?_⟩⟩
  · rintro p connection (hp | hp) <;> cases hp
  · exact fun tick htick => absurd htick List.not_mem_nil
  · exact fun held hlock => by cases hlock

/-- In every run at most one worker has the lease. -/
theorem atMostOneLeased (h : leaseSystem.Reachable s) : AtMostOneLeased s :=
  (leaseInvariant_of_reachable h).atMostOne

/-- In every run, for every choice of connections: the lease is exclusive, and every tick leaves
the lock free of its process, if and only if the release of every tick that had the lease was
served by the connection that took it. -/
theorem lease_iff_releasedWhereAcquired (h : leaseSystem.Reachable s) :
    (AtMostOneLeased s ∧ AlwaysReleased s) ↔ ReleasedWhereAcquired s := by
  have hinv := leaseInvariant_of_reachable h
  refine ⟨fun ⟨_, halways⟩ => ?_, fun hreleased => ⟨atMostOneLeased h, (hinv.frees hreleased).1⟩⟩
  intro tick htick connection hacquired
  refine (hinv.leaves tick htick connection hacquired).resolve_right ?_
  rw [halways tick htick]
  exact Bool.false_ne_true

/-- A tick whose two queries are served by one connection. -/
theorem lease_sample : ∃ s, leaseSystem.runs ⟨none, .empty, []⟩
    [.tick 0, .tryAcquireIndexerLease 0 1, .finish 0, .releaseIndexerLease 0 1] = .ok s ∧
    ((AtMostOneLeased s ∧ AlwaysReleased s) ↔ ReleasedWhereAcquired s) := by
  obtain ⟨s, hs, _⟩ := System.runs_of_decide (S := leaseSystem) ⟨none, .empty, []⟩
    [.tick 0, .tryAcquireIndexerLease 0 1, .finish 0, .releaseIndexerLease 0 1]
    (fun _ => true) (by decide)
  exact ⟨s, hs, lease_iff_releasedWhereAcquired (System.Reachable.runs (.init rfl) _ hs)⟩

/-- The pool serves the release on another connection than the acquisition: the tick of worker 0
ends, the lock stays held, and worker 1 is refused. -/
theorem not_always_released : ¬∀ s, leaseSystem.Reachable s →
    AtMostOneLeased s ∧ AlwaysReleased s := by
  intro hall
  obtain ⟨s, hs, hended⟩ := System.runs_of_decide (S := leaseSystem) ⟨none, .empty, []⟩
    [.tick 0, .tryAcquireIndexerLease 0 0, .finish 0, .releaseIndexerLease 0 1,
      .tick 1, .tryAcquireIndexerLease 1 0]
    (fun s => s.ended = [⟨0, some 0, some 1, true⟩, ⟨1, none, none, false⟩]) (by decide)
  have halways := (hall s (System.Reachable.runs (.init rfl) _ hs)).2
  have hfirst := halways ⟨0, some 0, some 1, true⟩ (by
    rw [of_decide_eq_true hended]
    exact List.mem_cons_self)
  cases hfirst

end Runs

end DikeProtocol.Services.Indexer
