import DikeProtocol.Lib.Run
import DikeProtocol.Lib.Store
import Mathlib.Data.Fintype.Basic

/-!
# Interleaved reconciliation

The indexer and the scheduled job reconcile the same rows. Each step reads the
chain at some ledger and later overwrites the row with what it read, whatever
the row reflects by then.
-/

namespace DikeProtocol.Services.Reconciliation

open Lib

/-- The rows of the tables that mirror chain state. -/
inductive Row where
  | markets (marketId : ℕ)
  | pools (poolId : ℕ)
  | userPositions (marketId : ℕ) (owner outcome : String)
  | userVaultState (marketId : ℕ) (owner : String)
  deriving DecidableEq

/-- What a reconcile step read: the chain's content for a row, the ledger it was
read at, and the ledger it will be labelled with. -/
structure Reading (V : Type*) where
  readAt : ℕ
  content : V
  lastReconciledLedger : ℕ
  deriving DecidableEq

/-- A write of a row: what it reflected before, and what it does now. -/
structure RowWrite where
  row : Row
  before : Option ℕ
  after : ℕ
  deriving DecidableEq

/-- The chain's latest ledger, the stored rows, the steps between their read and
their write, and the writes so far. -/
structure ReadModelState (T V : Type*) where
  ledger : ℕ
  rows : Store Row (Option (Reading V))
  pending : Store T (Option (Row × Reading V))
  writes : List RowWrite

/-- What can happen: the chain moves on, or a task does one half of a step. -/
inductive ReconcileStep (T : Type*) where
  /-- A ledger closes. -/
  | close
  /-- A task reads the chain for a row. -/
  | read (task : T) (row : Row) (latestLedger : ℕ)
  /-- It writes the row. -/
  | write (task : T)
  /-- Its read or its write fails. -/
  | fail (task : T)

/-- The unconditional write of a row that all reconcile steps end with. -/
def upsert {V : Type*} (rows : Store Row (Option (Reading V))) (row : Row) (reading : Reading V) :
    Store Row (Option (Reading V)) :=
  rows.set row (some reading)

section

variable {T V : Type*} [DecidableEq T]

/-- Tasks that reconcile rows of a chain whose content at every ledger is given,
each one step at a time. -/
def readModelSystem (chain : ℕ → Row → V) :
    System (ReadModelState T V) (ReconcileStep T) Unit where
  Init := fun s => s.rows = .empty ∧ s.pending = .empty ∧ s.writes = []
  step := fun s step =>
    match step with
    | .close => .ok { s with ledger := s.ledger + 1 }
    | .read task row latestLedger =>
      match s.pending task with
      | some _ => .error ()
      | none => .ok { s with
          pending := s.pending.set task (some (row, ⟨s.ledger, chain s.ledger row, latestLedger⟩)) }
    | .write task =>
      match s.pending task with
      | none => .error ()
      | some (row, reading) => .ok { s with
          rows := upsert s.rows row reading
          pending := s.pending.set task none
          writes := s.writes ++ [⟨row, (s.rows row).map Reading.readAt, reading.readAt⟩] }
    | .fail task => .ok { s with pending := s.pending.set task none }

/-- No write took a row back to an earlier ledger. -/
def NeverGoesBack (s : ReadModelState T V) : Prop :=
  ∀ write ∈ s.writes, ∀ before, write.before = some before → before ≤ write.after

/-- A task writes a row only while no other step on the row is pending that read it earlier. -/
def WritesOldestFirst (s : ReadModelState T V) : ReconcileStep T → Prop
  | .write task => ∀ row reading, s.pending task = some (row, reading) →
      ∀ other reading', other ≠ task → s.pending other = some (row, reading') →
        reading.readAt ≤ reading'.readAt
  | _ => True

/-- Among finitely many tasks this can be checked. -/
instance [Fintype T] (s : ReadModelState T V) (step : ReconcileStep T) :
    Decidable (WritesOldestFirst s step) :=
  match step with
  | .close => isTrue trivial
  | .read _ _ _ => isTrue trivial
  | .fail _ => isTrue trivial
  | .write task =>
    decidable_of_iff (∀ mine ∈ s.pending task, ∀ other, other ≠ task →
        ∀ theirs ∈ s.pending other, theirs.1 = mine.1 → mine.2.readAt ≤ theirs.2.readAt)
      ⟨fun h row reading hmine other reading' hother htheirs =>
        h (row, reading) hmine other hother (row, reading') htheirs rfl,
        fun h mine hmine other hother theirs htheirs hrow =>
          h mine.1 mine.2 hmine other theirs.2 hother (by rw [← hrow]; exact htheirs)⟩

/-- What carries this through a run: reads are of closed ledgers, and no step is
pending that read a row before what the row reflects. -/
structure ReadsAhead (s : ReadModelState T V) : Prop where
  closed : ∀ task row reading, s.pending task = some (row, reading) → reading.readAt ≤ s.ledger
  stored : ∀ row reading, s.rows row = some reading → reading.readAt ≤ s.ledger
  ahead : ∀ task row reading stored, s.pending task = some (row, reading) →
    s.rows row = some stored → stored.readAt ≤ reading.readAt

section Runs

variable {chain : ℕ → Row → V} {s s' : ReadModelState T V}

/-- A pending step of the state after one task's entry changed. -/
theorem pending_set {task other : T} {entry : Option (Row × Reading V)} {step : Row × Reading V}
    (h : (s.pending.set task entry) other = some step) :
    (other = task ∧ entry = some step) ∨ (other ≠ task ∧ s.pending other = some step) := by
  rw [Store.set_get] at h
  split at h
  · next heq => exact Or.inl ⟨heq, h⟩
  · next hne => exact Or.inr ⟨hne, h⟩

/-- Every step that writes oldest first keeps it, and takes no row back. -/
theorem ReadsAhead.step (hs : ReadsAhead s) (hback : NeverGoesBack s) {step : ReconcileStep T}
    (hok : WritesOldestFirst s step)
    (hstep : (readModelSystem chain).step s step = .ok s') : ReadsAhead s' ∧ NeverGoesBack s' := by
  cases step with
  | close =>
    cases hstep
    refine ⟨⟨?_, ?_, hs.ahead⟩, hback⟩
    · intro task row reading hpending
      exact (hs.closed task row reading hpending).trans (Nat.le_succ _)
    · intro row reading hrow
      exact (hs.stored row reading hrow).trans (Nat.le_succ _)
  | read task row latestLedger =>
    dsimp only [readModelSystem] at hstep
    split at hstep
    · cases hstep
    · next hidle =>
      cases hstep
      refine ⟨⟨?_, hs.stored, ?_⟩, hback⟩
      · intro other row' reading hpending
        obtain ⟨_, hnew⟩ | ⟨_, hold⟩ := pending_set hpending
        · cases hnew
          exact le_rfl
        · exact hs.closed other row' reading hold
      · intro other row' reading stored hpending hrow
        obtain ⟨_, hnew⟩ | ⟨_, hold⟩ := pending_set hpending
        · -- a fresh read is of the latest ledger
          cases hnew
          exact hs.stored _ _ hrow
        · exact hs.ahead other row' reading stored hold hrow
  | write task =>
    dsimp only [readModelSystem] at hstep
    split at hstep
    · cases hstep
    · next row reading hpending =>
      cases hstep
      refine ⟨⟨?_, ?_, ?_⟩, ?_⟩
      · intro other row' reading' hpending'
        obtain ⟨_, hnew⟩ | ⟨_, hold⟩ := pending_set hpending'
        · cases hnew
        · exact hs.closed other row' reading' hold
      · intro row' reading' hrow
        dsimp only [upsert] at hrow
        rw [Store.set_get] at hrow
        split at hrow
        · cases hrow
          exact hs.closed task row reading hpending
        · exact hs.stored row' reading' hrow
      · intro other row' reading' stored hpending' hrow
        obtain ⟨_, hnew⟩ | ⟨hother, hold⟩ := pending_set hpending'
        · cases hnew
        · dsimp only [upsert] at hrow
          rw [Store.set_get] at hrow
          split at hrow
          · next heq =>
            cases hrow
            rw [heq] at hold
            exact hok row reading hpending other reading' hother hold
          · exact hs.ahead other row' reading' stored hold hrow
      · intro write hwrite before hbefore
        rcases List.mem_append.mp hwrite with hwrite | hwrite
        · exact hback write hwrite before hbefore
        · rw [List.mem_singleton.mp hwrite] at hbefore ⊢
          obtain ⟨stored, hrow, rfl⟩ := Option.map_eq_some_iff.mp hbefore
          exact hs.ahead task row reading stored hpending hrow
  | fail task =>
    cases hstep
    refine ⟨⟨?_, hs.stored, ?_⟩, hback⟩
    · intro other row reading hpending
      obtain ⟨_, hnew⟩ | ⟨_, hold⟩ := pending_set hpending
      · cases hnew
      · exact hs.closed other row reading hold
    · intro other row reading stored hpending hrow
      obtain ⟨_, hnew⟩ | ⟨_, hold⟩ := pending_set hpending
      · cases hnew
      · exact hs.ahead other row reading stored hold hrow

/-- In every run in which each row is written oldest read first, no row ever goes back to an
earlier ledger. -/
theorem neverGoesBack_of_oldestFirst
    (h : (readModelSystem (T := T) chain).Guarded WritesOldestFirst s) : NeverGoesBack s := by
  have hinv : ReadsAhead s ∧ NeverGoesBack s := by
    refine h.invariant (I := fun s => ReadsAhead s ∧ NeverGoesBack s) ?_
      (fun _ _ _ hs hok hstep => hs.1.step hs.2 hok hstep)
    rintro ⟨ledger, rows, pending, writes⟩ ⟨hrows, hpending, hwrites⟩
    dsimp only at hrows hpending hwrites
    subst hrows hpending hwrites
    refine ⟨⟨?_, ?_, ?_⟩, fun write hwrite => absurd hwrite List.not_mem_nil⟩
    · exact fun task row reading hnone => by cases hnone
    · exact fun row reading hnone => by cases hnone
    · exact fun task row reading stored hnone => by cases hnone
  exact hinv.2

/-- Nothing less will do: a row that is written while an older read of it is pending goes back
when that one is written next. -/
theorem goesBack_of_newer_first {task other : T} {row : Row} {reading reading' : Reading V}
    (hother : other ≠ task) (hpending : s.pending task = some (row, reading))
    (hpending' : s.pending other = some (row, reading'))
    (holder : reading'.readAt < reading.readAt) :
    ∃ s', (readModelSystem chain).runs s [.write task, .write other] = .ok s' ∧
      ¬NeverGoesBack s' := by
  have hkept : (s.pending.set task none) other = some (row, reading') := by
    rw [Store.set_get_of_ne _ _ hother, hpending']
  dsimp only [System.runs, readModelSystem]
  rw [hpending]
  dsimp only
  rw [hkept]
  refine ⟨_, rfl, fun hback => ?_⟩
  have hle := hback _ (List.mem_append_right _ List.mem_cons_self) reading.readAt (by
    dsimp only [upsert]
    rw [Store.set_get_self]
    rfl)
  exact absurd hle (by dsimp only; omega)

end Runs

end

section Sample

/-- Where nothing is stored yet. -/
def emptyReadModel : ReadModelState Bool ℕ := ⟨0, .empty, .empty, []⟩

/-- A chain whose content is the number of its ledger. -/
def ledgerNumber (ledger : ℕ) (_ : Row) : ℕ := ledger

/-- The indexer reads a pool, a ledger closes, and the scheduled job reads it too. -/
def readTwice : List (ReconcileStep Bool) :=
  [.read false (.pools 1) 0, .close, .read true (.pools 1) 1]

/-- The indexer writes first. -/
theorem neverGoesBack_sample : ∃ s, (readModelSystem ledgerNumber).runs emptyReadModel
    (readTwice ++ [.write false, .write true]) = .ok s ∧ NeverGoesBack s := by
  have hinit : (readModelSystem ledgerNumber).Guarded WritesOldestFirst emptyReadModel :=
    .init ⟨rfl, rfl, rfl⟩
  obtain ⟨s, hs, hguarded, _⟩ := System.Guarded.of_check (S := readModelSystem ledgerNumber)
    (p := fun _ => true) hinit
    (readTwice ++ [.write false, .write true]) (by decide)
  exact ⟨s, hs, neverGoesBack_of_oldestFirst hguarded⟩

/-- The job writes first: the indexer's late write takes the pool back to ledger 0. -/
theorem not_always_neverGoesBack : ¬∀ s : ReadModelState Bool ℕ,
    (readModelSystem ledgerNumber).Reachable s → NeverGoesBack s := by
  intro hall
  obtain ⟨s, hs, hpending⟩ := System.runs_of_decide (S := readModelSystem ledgerNumber)
    emptyReadModel readTwice (fun s => s.pending true = some (.pools 1, ⟨1, 1, 1⟩) ∧
      s.pending false = some (.pools 1, ⟨0, 0, 0⟩)) (by decide)
  obtain ⟨hjob, hindexer⟩ := of_decide_eq_true hpending
  obtain ⟨s', hs', hback⟩ := goesBack_of_newer_first Bool.false_ne_true hjob hindexer
    (by decide : (0 : ℕ) < 1)
  have hreach : (readModelSystem ledgerNumber).Reachable s :=
    System.Reachable.runs (.init ⟨rfl, rfl, rfl⟩) readTwice hs
  exact hback (hall s' (System.Reachable.runs hreach _ hs'))

end Sample

end DikeProtocol.Services.Reconciliation
