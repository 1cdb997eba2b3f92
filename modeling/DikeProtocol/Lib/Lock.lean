import Mathlib.Data.Nat.Notation
import Mathlib.Logic.Basic
import Mathlib.Tactic.TypeStar

/-!
# Re-entrant locks of sessions

A lock belongs to the session that took it. The same session may take it again,
and gives it back as often as it took it; what other sessions give back does
nothing.
-/

namespace DikeProtocol.Lib

/-- A lock that is held: by whom, and how often it was taken again. -/
structure Held (σ : Type*) where
  owner : σ
  again : ℕ
  deriving DecidableEq

/-- A lock, free or held. -/
abbrev SessionLock (σ : Type*) := Option (Held σ)

namespace SessionLock

variable {σ : Type*} [DecidableEq σ]

/-- Try to take a lock; the flag tells whether it was granted. -/
def tryLock (lock : SessionLock σ) (session : σ) : Bool × SessionLock σ :=
  match lock with
  | none => (true, some ⟨session, 0⟩)
  | some held =>
    if held.owner = session then (true, some ⟨session, held.again + 1⟩) else (false, some held)

/-- Give a lock back once. -/
def unlock (lock : SessionLock σ) (session : σ) : SessionLock σ :=
  match lock with
  | none => none
  | some held =>
    if held.owner = session then
      match held.again with
      | 0 => none
      | again + 1 => some ⟨session, again⟩
    else some held

/-- A session ends; what it holds is free. -/
def disconnect (lock : SessionLock σ) (session : σ) : SessionLock σ :=
  lock.filter fun held => held.owner ≠ session

/-- A granted lock is held by the session that asked. -/
theorem tryLock_granted {lock lock' : SessionLock σ} {session : σ}
    (h : lock.tryLock session = (true, lock')) :
    (lock = none ∧ lock' = some ⟨session, 0⟩) ∨
      ∃ again, lock = some ⟨session, again⟩ ∧ lock' = some ⟨session, again + 1⟩ := by
  unfold tryLock at h
  split at h
  · exact Or.inl ⟨rfl, (Prod.mk.inj h).2.symm⟩
  · next held =>
    split at h
    · next howner =>
      refine Or.inr ⟨held.again, ?_, (Prod.mk.inj h).2.symm⟩
      rw [← howner]
    · cases h

/-- A lock that is refused is another session's and stays so. -/
theorem tryLock_refused {lock lock' : SessionLock σ} {session : σ}
    (h : lock.tryLock session = (false, lock')) :
    lock' = lock ∧ ∃ held, lock = some held ∧ held.owner ≠ session := by
  unfold tryLock at h
  split at h
  · cases h
  · next held =>
    split at h
    · cases h
    · next howner => exact ⟨(Prod.mk.inj h).2.symm, held, rfl, howner⟩

/-- A session that took a lock once frees it. -/
theorem unlock_last (session : σ) : unlock (some ⟨session, 0⟩) session = none := if_pos rfl

/-- Another session cannot give the lock back. -/
theorem unlock_other {held : Held σ} {session : σ} (h : held.owner ≠ session) :
    unlock (some held) session = some held := if_neg h

/-- What another session holds stays held when a session ends. -/
theorem disconnect_other {held : Held σ} {session : σ} (h : held.owner ≠ session) :
    disconnect (some held) session = some held :=
  Option.filter_some_pos (by simpa using h)

end SessionLock

end DikeProtocol.Lib
