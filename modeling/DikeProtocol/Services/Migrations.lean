import DikeProtocol.Lib.Lock
import DikeProtocol.Lib.Result
import DikeProtocol.Lib.Run
import DikeProtocol.Lib.Store
import Mathlib.Data.List.Sort
import Mathlib.Order.Lex

/-!
# Schema migrations

Each process that starts runs the migrations of its directory: it takes an
advisory lock of the database, asks for each file in order whether it was
applied, and applies it in a transaction that also records its name. Any number
of processes start together; queries fail and connections are lost. The texts
of the files are applied once each, in the order of their names.
-/

namespace DikeProtocol.Services.Migrations

open Lib

/-- A file name by its UTF-16 code units, which names are ordered by. -/
abbrev FileName := List ℕ

/-- The end of a migration's name: `.sql`. -/
def sqlSuffix : FileName := [46, 115, 113, 108]

/-- A directory: its files by name, with their texts. -/
structure Directory (Q : Type*) where
  entries : List (FileName × Q)
  nodup : (entries.map Prod.fst).Nodup

/-- The names of a directory. -/
def Directory.names {Q : Type*} (directory : Directory Q) : List FileName :=
  directory.entries.map Prod.fst

/-- The text of a file. -/
def Directory.text {Q : Type*} (directory : Directory Q) (file : FileName) : Option Q :=
  directory.entries.lookup file

/-- The migrations of a listing, sorted. -/
def migrationFiles (listing : List FileName) : List FileName :=
  (listing.filter fun file => sqlSuffix.isSuffixOf file).insertionSort (· ≤ ·)

/-- The migrations of a directory, sorted. -/
def Directory.migrations {Q : Type*} (directory : Directory Q) : List FileName :=
  migrationFiles directory.names

/-- What the migrations change, and the names recorded in `schema_migrations`. -/
structure Database (S : Type*) where
  content : S
  rows : List FileName
  deriving DecidableEq

/-- Where a process is in `runMigrations`. Within a transaction it keeps what the database is to
be, and at the end whether it throws. -/
inductive Phase (S Q : Type*) where
  | idle
  | connected
  | locked
  | listing
  | next (files : List FileName)
  | found (file : FileName) (files : List FileName)
  | beginning (file : FileName) (sql : Q) (files : List FileName)
  | executing (file : FileName) (sql : Q) (files : List FileName) (work : Database S)
  | inserting (file : FileName) (files : List FileName) (work : Database S)
  | committing (file : FileName) (files : List FileName) (work : Database S)
  | rollingBack
  | unlocking (done : Bool)
  | ended (done : Bool)
  deriving DecidableEq

instance {S Q : Type*} : Inhabited (Phase S Q) := ⟨.idle⟩

/-- From the lock to its release. -/
def Phase.inside {S Q : Type*} : Phase S Q → Bool
  | .idle | .connected | .ended _ => false
  | _ => true

/-- The database, the lock and the processes. -/
structure MigrationState (R S Q : Type*) where
  database : Database S
  lock : SessionLock R
  phase : Store R (Phase S Q)

/-- What can happen to a process. -/
inductive MigrationStep (R : Type*) where
  /-- It goes on with its next query or read. -/
  | advance (process : R)
  /-- It lists its directory, in whatever order. -/
  | readdir (process : R) (listing : List FileName)
  /-- What it does next fails. -/
  | fail (process : R)
  /-- It loses its connection; a commit on its way may have gone through. -/
  | lose (process : R) (committed : Bool)

section System

variable {R S Q : Type*} [DecidableEq R]

/-- A process moves on. -/
def MigrationState.to (s : MigrationState R S Q) (process : R) (phase : Phase S Q) :
    MigrationState R S Q :=
  { s with phase := s.phase.set process phase }

/-- The next query of a process. The lock is waited for; a text that fails ends its transaction. -/
def advance (apply : Q → S → Option S) (directory : Directory Q) (s : MigrationState R S Q)
    (process : R) : Option (MigrationState R S Q) :=
  match s.phase process with
  | .idle => some (s.to process .connected)
  | .connected =>
    match s.lock.tryLock process with
    | (true, lock) => some ({ s with lock }.to process .locked)
    | (false, _) => none
  | .locked => some (s.to process .listing)
  | .listing => none
  | .next [] => some (s.to process (.unlocking true))
  | .next (file :: files) =>
    if file ∈ s.database.rows then some (s.to process (.next files))
    else some (s.to process (.found file files))
  | .found file files =>
    match directory.text file with
    | some sql => some (s.to process (.beginning file sql files))
    | none => some (s.to process (.unlocking false))
  | .beginning file sql files => some (s.to process (.executing file sql files s.database))
  | .executing file sql files work =>
    match apply sql work.content with
    | some content => some (s.to process (.inserting file files { work with content }))
    | none => some (s.to process .rollingBack)
  | .inserting file files work =>
    -- a name that is there already is left alone
    let rows := if file ∈ work.rows then work.rows else work.rows ++ [file]
    some (s.to process (.committing file files { work with rows }))
  | .committing _ files work => some ({ s with database := work }.to process (.next files))
  | .rollingBack => some (s.to process (.unlocking false))
  | .unlocking done =>
    some ({ s with lock := s.lock.unlock process }.to process (.ended done))
  | .ended _ => none

/-- What a process does next fails: outside a transaction it throws, and gives the lock back if
it had it; within one it rolls back first. If rolling back fails, the transaction stays open on a
connection that nobody commits on. If giving the lock back fails, the connection keeps it. -/
def fail (s : MigrationState R S Q) (process : R) : Option (MigrationState R S Q) :=
  match s.phase process with
  | .idle | .connected | .unlocking _ => some (s.to process (.ended false))
  | .locked | .listing | .next _ | .found _ _ | .beginning _ _ _ | .rollingBack =>
    some (s.to process (.unlocking false))
  | .executing _ _ _ _ | .inserting _ _ _ | .committing _ _ _ => some (s.to process .rollingBack)
  | .ended _ => none

/-- A process loses its connection: the lock is free, its transaction is gone, or committed if
that was on its way. -/
def lose (s : MigrationState R S Q) (process : R) (committed : Bool) :
    Option (MigrationState R S Q) :=
  let dropped := { s with lock := s.lock.disconnect process }
  match s.phase process with
  | .idle => none
  | .ended _ => some dropped
  | .committing _ _ work =>
    some ({ dropped with database := if committed then work else s.database }.to process
      (.ended false))
  | _ => some (dropped.to process (.ended false))

/-- The processes, each with its directory, from a database without migrations. -/
def migrationSystem (apply : Q → S → Option S) (directory : R → Directory Q) (content : S) :
    System (MigrationState R S Q) (MigrationStep R) Unit where
  Init := fun s => s = ⟨⟨content, []⟩, none, .empty⟩
  step := fun s step =>
    match step with
    | .advance process => orFault (advance apply (directory process) s process) ()
    | .readdir process listing =>
      match s.phase process with
      | .listing =>
        if listing.Perm (directory process).names then
          .ok (s.to process (.next (migrationFiles listing)))
        else .error ()
      | _ => .error ()
    | .fail process => orFault (fail s process) ()
    | .lose process committed => orFault (lose s process committed) ()

end System

/-- The texts of files applied one after the other. -/
def applyAll {S Q : Type*} (apply : Q → S → Option S) (text : FileName → Option Q)
    (content : S) (files : List FileName) : Option S :=
  files.foldlM (fun content file => (text file).bind fun sql => apply sql content) content

/-- A directory with which the migrations of another one begin. -/
structure Extends {Q : Type*} (larger directory : Directory Q) : Prop where
  files : directory.migrations <+: larger.migrations
  text : ∀ file ∈ directory.migrations, directory.text file = larger.text file

/-- All migrations of a directory but the remaining ones are recorded. -/
def Reached {Q : Type*} (directory : Directory Q) (rows files : List FileName) : Prop :=
  ∃ done, directory.migrations = done ++ files ∧ ∀ file ∈ done, file ∈ rows

/-- What holds of a process at each of its phases: it reached the file it is at, which is not
recorded, and its transaction is what the file does to the database. -/
def RunnerOk {S Q : Type*} (apply : Q → S → Option S) (directory : Directory Q)
    (database : Database S) : Phase S Q → Prop
  | .next files => Reached directory database.rows files
  | .found file files => Reached directory database.rows (file :: files) ∧ file ∉ database.rows
  | .beginning file sql files =>
    (Reached directory database.rows (file :: files) ∧ file ∉ database.rows) ∧
      directory.text file = some sql
  | .executing file sql files work =>
    (Reached directory database.rows (file :: files) ∧ file ∉ database.rows) ∧
      directory.text file = some sql ∧ work = database
  | .inserting file files work =>
    (Reached directory database.rows (file :: files) ∧ file ∉ database.rows) ∧
      (directory.text file).bind (fun sql => apply sql database.content) = some work.content ∧
      work.rows = database.rows
  | .committing file files work =>
    (Reached directory database.rows (file :: files) ∧ file ∉ database.rows) ∧
      (directory.text file).bind (fun sql => apply sql database.content) = some work.content ∧
      work.rows = database.rows ++ [file]
  | .unlocking true | .ended true => Reached directory database.rows []
  | _ => True

/-- What holds in every run, for a directory with which those of all processes begin. -/
structure MigrationInvariant {R S Q : Type*} [DecidableEq R] (apply : Q → S → Option S)
    (directory : R → Directory Q) (larger : Directory Q) (content : S)
    (s : MigrationState R S Q) : Prop where
  single : ∀ process, (s.phase process).inside = true →
    ∃ again, s.lock = some ⟨process, again⟩
  runner : ∀ process, RunnerOk apply (directory process) s.database (s.phase process)
  ordered : s.database.rows <+: larger.migrations
  applied : applyAll apply larger.text content s.database.rows = some s.database.content

section Files

variable {Q : Type*} {directory larger : Directory Q} {rows rows' files : List FileName}

/-- A listing in any order gives the same migrations. -/
theorem migrationFiles_perm {listing : List FileName} (h : listing.Perm directory.names) :
    migrationFiles listing = directory.migrations := by
  have hsorted : ∀ l : List FileName, (l.insertionSort (· ≤ ·)).Pairwise (· ≤ ·) :=
    fun l => List.pairwise_insertionSort _ l
  refine List.Perm.eq_of_pairwise' (hsorted _) (hsorted _) ?_
  exact ((List.perm_insertionSort _ _).trans (h.filter _)).trans
    (List.perm_insertionSort _ _).symm

/-- No migration is there twice. -/
theorem migrations_nodup (directory : Directory Q) : directory.migrations.Nodup :=
  (List.perm_insertionSort _ _).nodup_iff.mpr (directory.nodup.filter _)

/-- Recording more keeps what was reached. -/
theorem Reached.mono (h : Reached directory rows files) (hrows : rows ⊆ rows') :
    Reached directory rows' files := by
  obtain ⟨done, hfiles, hdone⟩ := h
  exact ⟨done, hfiles, fun file hfile => hrows (hdone file hfile)⟩

/-- A recorded file is passed. -/
theorem Reached.pass {file : FileName} (h : Reached directory rows (file :: files))
    (hfile : file ∈ rows) : Reached directory rows files := by
  obtain ⟨done, hfiles, hdone⟩ := h
  refine ⟨done ++ [file], by rw [hfiles, List.append_assoc]; rfl, fun other hother => ?_⟩
  obtain hother | hother := List.mem_append.mp hother
  · exact hdone other hother
  · rw [List.mem_singleton.mp hother]
    exact hfile

/-- A prefix of a list without repetition that has what comes before an element but not the
element itself is all that comes before it. -/
theorem eq_of_prefix_split {α : Type*} {l prior done rest : List α} {a : α} (hl : l.Nodup)
    (hprior : prior <+: l) (hsplit : l = done ++ a :: rest) (hdone : ∀ b ∈ done, b ∈ prior)
    (ha : a ∉ prior) : prior = done := by
  have hdonePrefix : done <+: l := ⟨a :: rest, hsplit.symm⟩
  obtain hle | hle := List.prefix_or_prefix_of_prefix hprior hdonePrefix
  · refine hle.eq_of_length (Nat.le_antisymm hle.length_le ?_)
    have hnodup : done.Nodup := (List.nodup_append.mp (hsplit ▸ hl)).1
    exact (List.subperm_of_subset hnodup hdone).length_le
  · obtain ⟨tail, rfl⟩ := hle
    cases tail with
    | nil => exact (List.append_nil _)
    | cons b tail =>
      rw [hsplit] at hprior
      obtain ⟨rfl, _⟩ := List.cons_prefix_cons.mp ((List.prefix_append_right_inj done).mp hprior)
      exact (ha (List.mem_append_right _ List.mem_cons_self)).elim

/-- Where a process records a file, the migrations before it are recorded and no others, so that
with it they are again the first of the larger directory. -/
theorem Reached.record {file : FileName} (hlarger : Extends larger directory)
    (hrows : rows <+: larger.migrations) (h : Reached directory rows (file :: files))
    (hfile : file ∉ rows) : rows ++ [file] <+: larger.migrations := by
  obtain ⟨done, hfiles, hdone⟩ := h
  obtain ⟨rest, hrest⟩ := hlarger.files
  have hsplit : larger.migrations = done ++ file :: (files ++ rest) := by
    rw [← hrest, hfiles, List.append_assoc, List.cons_append]
  rw [eq_of_prefix_split (migrations_nodup larger) hrows hsplit hdone hfile]
  exact ⟨files ++ rest, by rw [hsplit, List.append_assoc]; rfl⟩

/-- Where a process reached the end, its migrations are the first recorded ones. -/
theorem Reached.all (hlarger : Extends larger directory) (hrows : rows <+: larger.migrations)
    (h : Reached directory rows []) : directory.migrations <+: rows := by
  obtain ⟨done, hfiles, hdone⟩ := h
  rw [List.append_nil] at hfiles
  obtain hle | hle := List.prefix_or_prefix_of_prefix hlarger.files hrows
  · exact hle
  · have hsub := List.subperm_of_subset (migrations_nodup directory) (hfiles ▸ hdone)
    rw [hle.eq_of_length (Nat.le_antisymm hle.length_le hsub.length_le)]

end Files

section Runs

variable {R S Q : Type*} [DecidableEq R] {apply : Q → S → Option S} {directory : R → Directory Q}
  {larger : Directory Q} {content : S} {s s' : MigrationState R S Q} {process : R}

/-- Outside the lock it only matters that nothing recorded is taken back. -/
theorem RunnerOk.outside {files : Directory Q} {database database' : Database S}
    {phase : Phase S Q} (h : RunnerOk apply files database phase) (hout : phase.inside = false)
    (hrows : database.rows ⊆ database'.rows) : RunnerOk apply files database' phase := by
  cases phase with
  | ended done =>
    cases done with
    | false => trivial
    | true => exact Reached.mono h hrows
  | idle | connected => trivial
  | _ => cases hout

/-- Only one process is inside. -/
theorem MigrationInvariant.alone (h : MigrationInvariant apply directory larger content s)
    {other : R} (hin : (s.phase process).inside = true)
    (hother : (s.phase other).inside = true) : other = process := by
  obtain ⟨_, hmine⟩ := h.single process hin
  obtain ⟨_, htheirs⟩ := h.single other hother
  rw [hmine] at htheirs
  exact (congrArg Held.owner (Option.some.inj htheirs)).symm

/-- A process that moves on, with the lock where it has to be, keeps the invariant. -/
theorem MigrationInvariant.to (h : MigrationInvariant apply directory larger content s)
    {lock : SessionLock R} {phase : Phase S Q}
    (hmine : phase.inside = true → ∃ again, lock = some ⟨process, again⟩)
    (hothers : ∀ other ≠ process, (s.phase other).inside = true →
      ∃ again, lock = some ⟨other, again⟩)
    (hok : RunnerOk apply (directory process) s.database phase) :
    MigrationInvariant apply directory larger content ({ s with lock }.to process phase) where
  single := by
    intro other hother
    by_cases heq : other = process
    · subst heq
      rw [MigrationState.to, Store.set_get_self] at hother
      exact hmine hother
    · rw [MigrationState.to, Store.set_get_of_ne _ _ heq] at hother
      exact hothers other heq hother
  runner := by
    intro other
    by_cases heq : other = process
    · subst heq
      rw [MigrationState.to, Store.set_get_self]
      exact hok
    · rw [MigrationState.to, Store.set_get_of_ne _ _ heq]
      exact h.runner other
  ordered := h.ordered
  applied := h.applied

/-- A process that moves on within the lock or outside of it leaves the lock alone. -/
theorem MigrationInvariant.move (h : MigrationInvariant apply directory larger content s)
    {phase : Phase S Q} (hin : phase.inside = true → (s.phase process).inside = true)
    (hok : RunnerOk apply (directory process) s.database phase) :
    MigrationInvariant apply directory larger content (s.to process phase) :=
  h.to (fun hphase => h.single process (hin hphase)) (fun other _ => h.single other) hok

/-- A process that leaves gives up what it holds of the lock, and nothing else. -/
theorem MigrationInvariant.leave (h : MigrationInvariant apply directory larger content s)
    {lock : SessionLock R} {phase : Phase S Q} (hout : phase.inside = false)
    (hlock : ∀ held, s.lock = some held → held.owner ≠ process → lock = some held)
    (hok : RunnerOk apply (directory process) s.database phase) :
    MigrationInvariant apply directory larger content ({ s with lock }.to process phase) := by
  refine h.to (fun hin => by rw [hout] at hin; cases hin) (fun other hne hother => ?_) hok
  obtain ⟨again, hheld⟩ := h.single other hother
  exact ⟨again, hlock _ hheld hne⟩

/-- What a process inside does to the database keeps the invariant, if what it records is the next
migration: all others are outside. -/
theorem MigrationInvariant.write (h : MigrationInvariant apply directory larger content s)
    (hin : (s.phase process).inside = true) {lock : SessionLock R} {work : Database S}
    {phase : Phase S Q} (hmine : phase.inside = true → ∃ again, lock = some ⟨process, again⟩)
    (hrows : s.database.rows ⊆ work.rows) (hordered : work.rows <+: larger.migrations)
    (happlied : applyAll apply larger.text content work.rows = some work.content)
    (hok : RunnerOk apply (directory process) work phase) :
    MigrationInvariant apply directory larger content
      ({ s with database := work, lock }.to process phase) where
  single := by
    intro other hother
    by_cases heq : other = process
    · subst heq
      rw [MigrationState.to, Store.set_get_self] at hother
      exact hmine hother
    · rw [MigrationState.to, Store.set_get_of_ne _ _ heq] at hother
      exact (heq (h.alone hin hother)).elim
  runner := by
    intro other
    by_cases heq : other = process
    · subst heq
      rw [MigrationState.to, Store.set_get_self]
      exact hok
    · rw [MigrationState.to, Store.set_get_of_ne _ _ heq]
      refine (h.runner other).outside ?_ hrows
      exact Bool.eq_false_iff.mpr fun hother => heq (h.alone hin hother)
  ordered := hordered
  applied := happlied

/-- What a transaction at its commit holds: the database with the first migration that is missing
applied and recorded. -/
theorem MigrationInvariant.commit (h : MigrationInvariant apply directory larger content s)
    (hlarger : Extends larger (directory process)) {file : FileName} {files : List FileName}
    {work : Database S} (hphase : s.phase process = .committing file files work) :
    s.database.rows ⊆ work.rows ∧ work.rows <+: larger.migrations ∧
      applyAll apply larger.text content work.rows = some work.content ∧
      Reached (directory process) work.rows files := by
  have hok := h.runner process
  rw [hphase] at hok
  obtain ⟨⟨hreached, hfile⟩, hresult, hrows⟩ := hok
  have hsubset : s.database.rows ⊆ work.rows := by
    rw [hrows]
    exact List.subset_append_left _ _
  have hmember : file ∈ work.rows := by
    rw [hrows]
    exact List.mem_append_right _ List.mem_cons_self
  have hlisted : file ∈ (directory process).migrations := by
    obtain ⟨done, hfiles, _⟩ := hreached
    rw [hfiles]
    exact List.mem_append_right _ List.mem_cons_self
  refine ⟨hsubset, ?_, ?_, (hreached.mono hsubset).pass hmember⟩
  · rw [hrows]
    exact hreached.record hlarger h.ordered hfile
  · rw [hlarger.text file hlisted] at hresult
    have happlied := h.applied
    unfold applyAll at happlied ⊢
    rw [hrows, List.foldlM_append, happlied]
    simpa using hresult

/-- The next query of a process keeps the invariant. -/
theorem MigrationInvariant.advance (h : MigrationInvariant apply directory larger content s)
    (hlarger : Extends larger (directory process))
    (hstep : advance apply (directory process) s process = some s') :
    MigrationInvariant apply directory larger content s' := by
  have hok := h.runner process
  have hsingle := h.single process
  cases hphase : s.phase process with
  | idle =>
    simp only [Migrations.advance, hphase, Option.some.injEq] at hstep
    subst hstep
    exact h.move (fun hin => by cases hin) trivial
  | connected =>
    simp only [Migrations.advance, hphase] at hstep
    split at hstep
    · next lock hgranted =>
      cases hstep
      obtain ⟨hfree, rfl⟩ | ⟨again, hheld, rfl⟩ := SessionLock.tryLock_granted hgranted
      · refine h.to (fun _ => ⟨0, rfl⟩) (fun other _ hother => ?_) trivial
        obtain ⟨again, hheld⟩ := h.single other hother
        rw [hfree] at hheld
        cases hheld
      · refine h.to (fun _ => ⟨again + 1, rfl⟩) (fun other hne hother => ?_) trivial
        obtain ⟨again', hheld'⟩ := h.single other hother
        rw [hheld] at hheld'
        cases hheld'
        exact (hne rfl).elim
    · cases hstep
  | locked =>
    simp only [Migrations.advance, hphase, Option.some.injEq] at hstep
    subst hstep
    exact h.move (fun _ => by rw [hphase]; rfl) trivial
  | listing =>
    simp only [Migrations.advance, hphase, reduceCtorEq] at hstep
  | next files =>
    rw [hphase] at hok
    cases files with
    | nil =>
      simp only [Migrations.advance, hphase, Option.some.injEq] at hstep
      subst hstep
      exact h.move (fun _ => by rw [hphase]; rfl) hok
    | cons file files =>
      simp only [Migrations.advance, hphase] at hstep
      split at hstep
      · next hfile =>
        cases hstep
        exact h.move (fun _ => by rw [hphase]; rfl) (Reached.pass hok hfile)
      · next hfile =>
        cases hstep
        exact h.move (fun _ => by rw [hphase]; rfl) ⟨hok, hfile⟩
  | found file files =>
    rw [hphase] at hok
    simp only [Migrations.advance, hphase] at hstep
    split at hstep
    · next sql htext =>
      cases hstep
      exact h.move (fun _ => by rw [hphase]; rfl) ⟨hok, htext⟩
    · cases hstep
      exact h.move (fun _ => by rw [hphase]; rfl) trivial
  | beginning file sql files =>
    rw [hphase] at hok
    simp only [Migrations.advance, hphase, Option.some.injEq] at hstep
    subst hstep
    exact h.move (fun _ => by rw [hphase]; rfl) ⟨hok.1, hok.2, rfl⟩
  | executing file sql files work =>
    rw [hphase] at hok
    obtain ⟨hat, htext, hwork⟩ := hok
    simp only [Migrations.advance, hphase] at hstep
    split at hstep
    · next result hresult =>
      cases hstep
      rw [hwork] at hresult
      refine h.move (fun _ => by rw [hphase]; rfl) ⟨hat, ?_, by rw [hwork]⟩
      rw [htext]
      exact hresult
    · cases hstep
      exact h.move (fun _ => by rw [hphase]; rfl) trivial
  | inserting file files work =>
    rw [hphase] at hok
    obtain ⟨hat, hresult, hrows⟩ := hok
    simp only [Migrations.advance, hphase, Option.some.injEq] at hstep
    subst hstep
    refine h.move (fun _ => by rw [hphase]; rfl) ⟨hat, hresult, ?_⟩
    rw [hrows, if_neg hat.2]
  | committing file files work =>
    obtain ⟨hrows, hordered, happlied, hreached⟩ := h.commit hlarger hphase
    rw [hphase] at hsingle
    simp only [Migrations.advance, hphase, Option.some.injEq] at hstep
    subst hstep
    exact h.write (by rw [hphase]; rfl) (fun _ => hsingle rfl) hrows hordered happlied hreached
  | rollingBack =>
    simp only [Migrations.advance, hphase, Option.some.injEq] at hstep
    subst hstep
    exact h.move (fun _ => by rw [hphase]; rfl) trivial
  | unlocking done =>
    rw [hphase] at hok
    simp only [Migrations.advance, hphase, Option.some.injEq] at hstep
    subst hstep
    refine h.leave rfl (fun held hheld hne => ?_) ?_
    · rw [hheld]
      exact SessionLock.unlock_other hne
    · cases done with
      | false => trivial
      | true => exact hok
  | ended done =>
    simp only [Migrations.advance, hphase, reduceCtorEq] at hstep

/-- A failure keeps it. -/
theorem MigrationInvariant.fail (h : MigrationInvariant apply directory larger content s)
    (hstep : fail s process = some s') :
    MigrationInvariant apply directory larger content s' := by
  unfold Migrations.fail at hstep
  split at hstep <;> cases hstep
  all_goals
    next hphase =>
      exact h.move (fun hin => by first | (rw [hphase]; rfl) | cases hin) trivial

/-- A lost connection keeps it: a commit that went through is as good as any other. -/
theorem MigrationInvariant.lose (h : MigrationInvariant apply directory larger content s)
    (hlarger : Extends larger (directory process)) {committed : Bool}
    (hstep : lose s process committed = some s') :
    MigrationInvariant apply directory larger content s' := by
  have hother : ∀ held, s.lock = some held → held.owner ≠ process →
      s.lock.disconnect process = some held := by
    intro held hheld hne
    rw [hheld]
    exact SessionLock.disconnect_other hne
  unfold Migrations.lose at hstep
  dsimp only at hstep
  split at hstep
  · cases hstep
  · next done hphase =>
    cases hstep
    refine ⟨fun other hin => ?_, h.runner, h.ordered, h.applied⟩
    obtain ⟨again, hheld⟩ := h.single other hin
    refine ⟨again, hother _ hheld ?_⟩
    rintro rfl
    rw [hphase] at hin
    cases hin
  · next file files work hphase =>
    cases hstep
    cases committed with
    | false => exact h.leave rfl hother trivial
    | true =>
      obtain ⟨hrows, hordered, happlied, _⟩ := h.commit hlarger hphase
      exact h.write (by rw [hphase]; rfl) (fun hin => by cases hin) hrows hordered happlied trivial
  · cases hstep
    exact h.leave rfl hother trivial

/-- It holds in every run. -/
theorem migrationInvariant_of_reachable (hlarger : ∀ process, Extends larger (directory process))
    (h : (migrationSystem apply directory content).Reachable s) :
    MigrationInvariant apply directory larger content s := by
  refine h.invariant ?_ ?_
  · rintro s rfl
    exact ⟨(fun _ hin => by cases hin), fun _ => trivial, List.nil_prefix, rfl⟩
  · intro s step s' hs _ hstep
    cases step with
    | advance process => exact hs.advance (hlarger process) (orFault_ok.mp hstep)
    | readdir process listing =>
      simp only [migrationSystem] at hstep
      split at hstep
      · next hphase =>
        split at hstep
        · next hperm =>
          cases hstep
          refine hs.move (fun _ => by rw [hphase]; rfl) ⟨[], ?_, fun _ hfile => by cases hfile⟩
          exact (migrationFiles_perm hperm).symm
        · cases hstep
      · cases hstep
    | fail process => exact hs.fail (orFault_ok.mp hstep)
    | lose process committed => exact hs.lose (hlarger process) (orFault_ok.mp hstep)

/-- However many processes run the migrations of their directories at once, each of which begins
those of one directory, and whatever fails or is lost on the way: what is recorded is always the
first migrations of that directory in order, the database is what their texts make of it, each
applied once, and a process that does not throw finds all of its own recorded. -/
theorem migrated_in_order (hlarger : ∀ process, Extends larger (directory process))
    (h : (migrationSystem apply directory content).Reachable s) :
    s.database.rows <+: larger.migrations ∧
      applyAll apply larger.text content s.database.rows = some s.database.content ∧
      ∀ process, s.phase process = .ended true →
        (directory process).migrations <+: s.database.rows := by
  have hinv := migrationInvariant_of_reachable hlarger h
  refine ⟨hinv.ordered, hinv.applied, fun process hphase => ?_⟩
  have hok := hinv.runner process
  rw [hphase] at hok
  exact Reached.all (hlarger process) hinv.ordered hok

end Runs

section Sample

/-- The name of a migration by its number. -/
def numbered (n : ℕ) : FileName := (48 + n) :: sqlSuffix

/-- A directory with one migration and another file. -/
def olderDirectory : Directory ℕ := ⟨[([82], 0), (numbered 1, 1)], by decide⟩

/-- The next version's, with one migration more. -/
def newerDirectory : Directory ℕ := ⟨[(numbered 2, 2), ([82], 0), (numbered 1, 1)], by decide⟩

/-- The first process is of the older version. -/
def sampleDirectory (process : ℕ) : Directory ℕ :=
  if process = 0 then olderDirectory else newerDirectory

/-- Texts that leave their number. -/
def leaveNumber (sql : ℕ) (content : List ℕ) : Option (List ℕ) := some (content ++ [sql])

/-- Several steps of one process. -/
def advances (process n : ℕ) : List (MigrationStep ℕ) := List.replicate n (.advance process)

/-- Four processes start together. The older one applies its migration; the next one fails to
commit and to roll back; the next one loses its connection while its commit is on its way, and the
last one finds nothing left to do. -/
def sampleRollout : List (MigrationStep ℕ) :=
  advances 0 3 ++ advances 1 1 ++ advances 2 1 ++ advances 3 1 ++
    [.readdir 0 olderDirectory.names] ++ advances 0 8 ++
    advances 3 2 ++ [.readdir 3 newerDirectory.names] ++ advances 3 6 ++ [.fail 3, .fail 3] ++
    advances 3 1 ++ advances 1 2 ++ [.readdir 1 newerDirectory.names] ++ advances 1 6 ++
    [.lose 1 true] ++ advances 2 2 ++ [.readdir 2 newerDirectory.names] ++ advances 2 4

/-- Each of them begins the migrations of the newer version. -/
theorem sampleDirectory_extends (process : ℕ) :
    Extends newerDirectory (sampleDirectory process) := by
  unfold sampleDirectory
  split
  · exact ⟨by decide, by decide⟩
  · exact ⟨List.prefix_rfl, fun _ _ => rfl⟩

/-- Both migrations are applied once, and the last process does not throw. -/
theorem migrated_in_order_sample : ∃ s,
    (migrationSystem leaveNumber sampleDirectory []).runs ⟨⟨[], []⟩, none, .empty⟩ sampleRollout =
      .ok s ∧ s.database.content = [1, 2] ∧ s.phase 3 = .ended false ∧ s.phase 2 = .ended true ∧
    s.database.rows <+: newerDirectory.migrations ∧
      applyAll leaveNumber newerDirectory.text [] s.database.rows = some s.database.content ∧
      ∀ process, s.phase process = .ended true →
        (sampleDirectory process).migrations <+: s.database.rows := by
  obtain ⟨s, hs, hend⟩ := System.runs_of_decide
    (S := migrationSystem leaveNumber sampleDirectory []) ⟨⟨[], []⟩, none, .empty⟩ sampleRollout
    (fun s => s.database.content = [1, 2] ∧ s.phase 3 = .ended false ∧ s.phase 2 = .ended true)
    (by decide +kernel)
  obtain ⟨hcontent, hfailed, hphase⟩ := of_decide_eq_true hend
  exact ⟨s, hs, hcontent, hfailed, hphase,
    migrated_in_order sampleDirectory_extends (System.Reachable.runs (.init rfl) _ hs)⟩

end Sample

end DikeProtocol.Services.Migrations
