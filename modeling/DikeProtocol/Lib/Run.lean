import Mathlib.Logic.Basic
import Mathlib.Tactic.TypeStar

/-!
# Runs of a transition system

A system has initial states and a partial step function: a refused step
leaves no new state. Runs may be guarded by a condition on the state and the
label before each step, which is how a law that only some steps keep is
stated over whole runs.
-/

namespace DikeProtocol.Lib

/-- Initial states and labelled partial steps. -/
structure System (σ ι ε : Type*) where
  /-- States a run may start from. -/
  Init : σ → Prop
  /-- Attempt one labelled step; a refused step changes nothing. -/
  step : σ → ι → Except ε σ

namespace System

variable {σ ι ε : Type*} (S : System σ ι ε)

/-- States reached by successful steps that all meet the guard. -/
inductive Guarded (ok : σ → ι → Prop) : σ → Prop where
  /-- A run of no steps. -/
  | init {s : σ} (h : S.Init s) : Guarded ok s
  /-- One more successful step that meets the guard. -/
  | next {s s' : σ} {i : ι} (h : Guarded ok s) (hok : ok s i) (hs : S.step s i = .ok s') :
      Guarded ok s'

/-- States reached by any successful steps. -/
abbrev Reachable : σ → Prop := S.Guarded (fun _ _ => True)

variable {S}

/-- An invariant of every guarded step holds in every state a guarded run reaches. -/
theorem Guarded.invariant {ok : σ → ι → Prop} {I : σ → Prop} (hinit : ∀ s, S.Init s → I s)
    (hstep : ∀ s i s', I s → ok s i → S.step s i = .ok s' → I s') {s : σ}
    (h : S.Guarded ok s) : I s := by
  induction h with
  | init h => exact hinit _ h
  | next _ hok hs ih => exact hstep _ _ _ ih hok hs

/-- The induction rule that may use an invariant already known of guarded runs. -/
theorem Guarded.invariant_with {ok : σ → ι → Prop} {J I : σ → Prop}
    (hJ : ∀ s, S.Guarded ok s → J s) (hinit : ∀ s, S.Init s → I s)
    (hstep : ∀ s i s', J s → I s → ok s i → S.step s i = .ok s' → I s') {s : σ}
    (h : S.Guarded ok s) : I s := by
  induction h with
  | init h => exact hinit _ h
  | next h hok hs ih => exact hstep _ _ _ (hJ _ h) ih hok hs

/-- A stronger guard allows fewer runs. -/
theorem Guarded.mono {ok ok' : σ → ι → Prop} (h : ∀ s i, ok s i → ok' s i) {s : σ}
    (hs : S.Guarded ok s) : S.Guarded ok' s := by
  induction hs with
  | init h => exact .init h
  | next _ hok hs ih => exact .next ih (h _ _ hok) hs

/-- A guarded run is a run. -/
theorem Guarded.reachable {ok : σ → ι → Prop} {s : σ} (h : S.Guarded ok s) : S.Reachable s :=
  h.mono (fun _ _ _ => trivial)

variable (S)

/-- Attempt a whole list of labels, stopping at the first refusal. -/
def runs (s : σ) : List ι → Except ε σ
  | [] => .ok s
  | i :: is =>
    match S.step s i with
    | .ok s' => runs s' is
    | .error e => .error e

variable {S}

/-- A list of one label is that step. -/
theorem runs_singleton {s s' : σ} {i : ι} : S.runs s [i] = .ok s' ↔ S.step s i = .ok s' := by
  unfold runs
  cases S.step s i with
  | ok next => exact Iff.rfl
  | error e => exact Iff.rfl

/-- What is left of a successful list of labels runs from where its beginning ended. -/
theorem runs_append {s s1 s' : σ} {is js : List ι} (hi : S.runs s is = .ok s1)
    (h : S.runs s (is ++ js) = .ok s') : S.runs s1 js = .ok s' := by
  induction is generalizing s with
  | nil =>
    cases hi
    exact h
  | cons i is ih =>
    rw [List.cons_append] at h
    unfold System.runs at hi h
    cases hs : S.step s i with
    | ok next =>
      rw [hs] at hi h
      exact ih hi h
    | error e =>
      rw [hs] at hi
      cases hi

/-- What every step keeps, a whole list of labels keeps. -/
theorem runs_keep {I : σ → Prop} (hstep : ∀ s i s', I s → S.step s i = .ok s' → I s') {s s' : σ}
    (hs : I s) (is : List ι) (h : S.runs s is = .ok s') : I s' := by
  induction is generalizing s with
  | nil =>
    cases h
    exact hs
  | cons i is ih =>
    unfold System.runs at h
    split at h
    · next next hnext => exact ih (hstep s i next hs hnext) h
    · cases h

/-- A successful list of labels that all meet a guard on labels extends a guarded run. -/
theorem Guarded.runs {ok : ι → Prop} {s s' : σ} (h : S.Guarded (fun _ i => ok i) s) (is : List ι)
    (hok : ∀ i ∈ is, ok i) (hr : S.runs s is = .ok s') : S.Guarded (fun _ i => ok i) s' := by
  induction is generalizing s with
  | nil =>
    cases hr
    exact h
  | cons i is ih =>
    unfold System.runs at hr
    split at hr
    · next s1 hs =>
      have hrest : ∀ j ∈ is, ok j := fun j hj => hok j (List.mem_cons_of_mem i hj)
      exact ih (.next h (hok i List.mem_cons_self) hs) hrest hr
    · cases hr

/-- A successful list of labels from a reachable state reaches its result. -/
theorem Reachable.runs {s s' : σ} (h : S.Reachable s) (is : List ι)
    (hr : S.runs s is = .ok s') : S.Reachable s' :=
  @Guarded.runs σ ι ε S (fun _ => True) s s' h is (fun _ _ => trivial) hr

variable (S)

/-- The same steps, with a record that every successful step adds to, in view
of the state it starts from. -/
def recorded {γ : Type*} (start : γ) (note : γ → σ → ι → γ) : System (σ × γ) ι ε where
  Init := fun s => S.Init s.1 ∧ s.2 = start
  step := fun s i =>
    match S.step s.1 i with
    | .ok s' => .ok (s', note s.2 s.1 i)
    | .error e => .error e

variable {S}

/-- A recorded step is a step of the system and an entry in the record. -/
theorem recorded_step {γ : Type*} {start : γ} {note : γ → σ → ι → γ} {s s' : σ × γ} {i : ι} :
    (S.recorded start note).step s i = .ok s' ↔
      S.step s.1 i = .ok s'.1 ∧ s'.2 = note s.2 s.1 i := by
  unfold recorded
  dsimp only
  cases hs : S.step s.1 i with
  | error e =>
    constructor
    · intro h
      cases h
    · rintro ⟨h, _⟩
      cases h
  | ok next =>
    constructor
    · intro h
      cases h
      exact ⟨rfl, rfl⟩
    · rintro ⟨h, hnote⟩
      cases h
      cases s'
      cases hnote
      rfl

variable (S)

/-- The same steps, with a record that every successful step adds to. -/
def observed {γ : Type*} (start : γ) (note : γ → ι → γ) : System (σ × γ) ι ε where
  Init := fun s => S.Init s.1 ∧ s.2 = start
  step := fun s i =>
    match S.step s.1 i with
    | .ok s' => .ok (s', note s.2 i)
    | .error e => .error e

variable {S}

/-- An observed step is a step of the system and an entry in the record. -/
theorem observed_step {γ : Type*} {start : γ} {note : γ → ι → γ} {s s' : σ × γ} {i : ι} :
    (S.observed start note).step s i = .ok s' ↔ S.step s.1 i = .ok s'.1 ∧ s'.2 = note s.2 i := by
  change (S.recorded start (fun r _ j => note r j)).step s i = .ok s' ↔ _
  exact recorded_step

/-- An observed run is a run of the system. -/
theorem Guarded.observed {γ : Type*} {start : γ} {note : γ → ι → γ} {ok : σ → ι → Prop} {s : σ × γ}
    (h : (S.observed start note).Guarded (fun s i => ok s.1 i) s) : S.Guarded ok s.1 := by
  induction h with
  | init h => exact .init h.1
  | next _ hok hs ih => exact .next ih hok (observed_step.mp hs).1

/-- So is one whose steps are not guarded. -/
theorem Reachable.observed {γ : Type*} {start : γ} {note : γ → ι → γ} {s : σ × γ}
    (h : (S.observed start note).Reachable s) : S.Reachable s.1 :=
  @Guarded.observed σ ι ε S γ start note (fun _ _ => True) s h

variable (S)

/-- The same steps, with a record that every successful step adds to, in view
of the states before and after it. -/
def traced {γ : Type*} (start : γ) (note : γ → σ → ι → σ → γ) : System (σ × γ) ι ε where
  Init := fun s => S.Init s.1 ∧ s.2 = start
  step := fun s i =>
    match S.step s.1 i with
    | .ok s' => .ok (s', note s.2 s.1 i s')
    | .error e => .error e

variable {S}

/-- A traced step is a step of the system and an entry in the record. -/
theorem traced_step {γ : Type*} {start : γ} {note : γ → σ → ι → σ → γ} {s s' : σ × γ} {i : ι} :
    (S.traced start note).step s i = .ok s' ↔
      S.step s.1 i = .ok s'.1 ∧ s'.2 = note s.2 s.1 i s'.1 := by
  unfold traced
  dsimp only
  cases hs : S.step s.1 i with
  | error e =>
    constructor
    · intro h
      cases h
    · rintro ⟨h, _⟩
      cases h
  | ok next =>
    constructor
    · intro h
      cases h
      exact ⟨rfl, rfl⟩
    · intro h
      obtain ⟨a, b⟩ := s'
      obtain ⟨h, hnote⟩ := h
      cases h
      dsimp only at hnote
      rw [hnote]

/-- A traced run is a run of the system. -/
theorem Reachable.traced {γ : Type*} {start : γ} {note : γ → σ → ι → σ → γ} {s : σ × γ}
    (h : (S.traced start note).Reachable s) : S.Reachable s.1 := by
  induction h with
  | init h => exact .init h.1
  | next _ _ hs ih => exact .next ih trivial (traced_step.mp hs).1

/-- The result of a list of labels, with the labels that led to it. -/
theorem runs_of_decide (s : σ) (is : List ι) (p : σ → Bool)
    (h : (match S.runs s is with
      | .ok s' => p s'
      | .error _ => false) = true) : ∃ s', S.runs s is = .ok s' ∧ p s' = true := by
  split at h
  · next s' hs => exact ⟨s', hs, h⟩
  · cases h

variable (S)

/-- A list of labels all succeeds and meets a guard, and its result passes a test. -/
def checkRun (ok : σ → ι → Prop) [∀ s i, Decidable (ok s i)] (p : σ → Bool) : σ → List ι → Bool
  | s, [] => p s
  | s, i :: is =>
    decide (ok s i) &&
      match S.step s i with
      | .ok s' => checkRun ok p s' is
      | .error _ => false

variable {S}

/-- A checked list of labels, each of which meets a condition of its own,
extends a guarded run. -/
theorem Guarded.of_check_labels {P : ι → Prop} {ok : σ → ι → Prop} [∀ s i, Decidable (ok s i)]
    {p : σ → Bool} {s : σ} (h : S.Guarded (fun s i => P i ∧ ok s i) s) (is : List ι)
    (hP : ∀ i ∈ is, P i) (hc : S.checkRun ok p s is = true) :
    ∃ s', S.runs s is = .ok s' ∧ S.Guarded (fun s i => P i ∧ ok s i) s' ∧ p s' = true := by
  induction is generalizing s with
  | nil => exact ⟨s, rfl, h, hc⟩
  | cons i is ih =>
    unfold checkRun at hc
    rw [Bool.and_eq_true] at hc
    obtain ⟨hok, hc⟩ := hc
    unfold System.runs
    cases hs : S.step s i with
    | ok next =>
      rw [hs] at hc
      have hhead : P i := hP i List.mem_cons_self
      have hrest : ∀ j ∈ is, P j := fun j hj => hP j (List.mem_cons_of_mem i hj)
      exact ih (h.next ⟨hhead, of_decide_eq_true hok⟩ hs) hrest hc
    | error e =>
      rw [hs] at hc
      cases hc

/-- A checked list of labels extends a guarded run. -/
theorem Guarded.of_check {ok : σ → ι → Prop} [∀ s i, Decidable (ok s i)] {p : σ → Bool} {s : σ}
    (h : S.Guarded ok s) (is : List ι) (hc : S.checkRun ok p s is = true) :
    ∃ s', S.runs s is = .ok s' ∧ S.Guarded ok s' ∧ p s' = true := by
  obtain ⟨s', hs, hguarded, hp⟩ := Guarded.of_check_labels (P := fun _ => True)
    (h.mono fun _ _ hok => ⟨trivial, hok⟩) is (fun _ _ => trivial) hc
  exact ⟨s', hs, hguarded.mono fun _ _ hok => hok.2, hp⟩

end System

end DikeProtocol.Lib
