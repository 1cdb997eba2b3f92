import Mathlib.Logic.Basic

/-!
# Inversion of computations that may fail

A successful sequence of fallible steps is a chain of successful steps. The
rules below turn a success hypothesis into the facts it carries, one step at a
time, so that proofs never look at the failing branches.
-/

namespace DikeProtocol.Lib

universe u v

variable {ε : Type u} {α β : Type v}

/-- A sequence succeeds exactly when each step succeeds in turn. -/
theorem bind_ok {x : Except ε α} {f : α → Except ε β} {b : β} :
    (x >>= f) = .ok b ↔ ∃ a, x = .ok a ∧ f a = .ok b := by
  cases x with
  | error e =>
    constructor
    · intro h
      cases h
    · rintro ⟨a, h, _⟩
      cases h
  | ok a =>
    constructor
    · intro h
      exact ⟨a, rfl, h⟩
    · rintro ⟨a', h, hf⟩
      cases h
      exact hf

/-- Returning a value succeeds with exactly that value. -/
theorem pure_ok {a b : α} : (pure a : Except ε α) = .ok b ↔ a = b := by
  constructor
  · intro h
    cases h
    rfl
  · rintro rfl
    rfl

/-- A successful literal carries its own value. -/
theorem ok_ok {a b : α} : (.ok a : Except ε α) = .ok b ↔ a = b := pure_ok

/-- A failure is not a success. -/
theorem error_ok {e : ε} {b : α} : (.error e : Except ε α) = .ok b ↔ False := by
  constructor
  · intro h
    cases h
  · exact False.elim

/-- A sequence fails exactly when some step is the first to fail. -/
theorem bind_error {x : Except ε α} {f : α → Except ε β} {e : ε} :
    (x >>= f) = .error e ↔ x = .error e ∨ ∃ a, x = .ok a ∧ f a = .error e := by
  cases x with
  | error e' =>
    constructor
    · intro h
      cases h
      exact Or.inl rfl
    · rintro (h | ⟨a, h, _⟩)
      · cases h
        rfl
      · cases h
  | ok a =>
    constructor
    · intro h
      exact Or.inr ⟨a, rfl, h⟩
    · rintro (h | ⟨a', h, hf⟩)
      · cases h
      · cases h
        exact hf

/-- A step that succeeded hands its value to the rest. -/
theorem bind_of_ok {x : Except ε α} {a : α} (h : x = .ok a) (f : α → Except ε β) :
    (x >>= f) = f a := by
  rw [h]
  rfl

/-- What follows a step may be replaced where it agrees on the step's result. -/
theorem bind_congr_ok {x : Except ε α} {f g : α → Except ε β} (h : ∀ a, x = .ok a → f a = g a) :
    (x >>= f) = (x >>= g) := by
  cases x with
  | error e => rfl
  | ok a => exact h a rfl

/-- Whether a computation succeeds with a value that passes a check. -/
def okWith (x : Except ε α) (p : α → Bool) : Bool :=
  match x with
  | .ok a => p a
  | .error _ => false

/-- A computation that passes the check succeeds with such a value. -/
theorem okWith_iff {x : Except ε α} {p : α → Bool} :
    okWith x p = true ↔ ∃ a, x = .ok a ∧ p a = true := by
  cases x with
  | error e =>
    constructor
    · intro h
      cases h
    · rintro ⟨a, h, _⟩
      cases h
  | ok a =>
    constructor
    · intro h
      exact ⟨a, rfl, h⟩
    · rintro ⟨b, h, hb⟩
      cases h
      exact hb

/-- Refuse with a fault when a condition holds. -/
def refuse (c : Prop) [Decidable c] (e : ε) : Except ε Unit :=
  if c then .error e else .ok ()

/-- A check passes exactly when the refused condition does not hold. -/
theorem refuse_ok {c : Prop} [Decidable c] {e : ε} {u : Unit} :
    refuse c e = .ok u ↔ ¬c := by
  unfold refuse
  split
  · next h => exact ⟨fun hk => (error_ok.mp hk).elim, fun hk => (hk h).elim⟩
  · next h => exact ⟨fun _ => h, fun _ => rfl⟩

/-- A check fails with its own fault exactly when the refused condition holds. -/
theorem refuse_error {c : Prop} [Decidable c] {e e' : ε} :
    refuse c e = .error e' ↔ c ∧ e = e' := by
  unfold refuse
  split
  · next h =>
    constructor
    · intro hk
      cases hk
      exact ⟨h, rfl⟩
    · rintro ⟨_, rfl⟩
      rfl
  · next h =>
    constructor
    · intro hk
      cases hk
    · rintro ⟨hk, _⟩
      exact (h hk).elim

/-- Read an optional entry, with the fault its absence raises. -/
def orFault (x : Option α) (e : ε) : Except ε α :=
  match x with
  | some a => .ok a
  | none => .error e

/-- An optional entry is read exactly when it is present. -/
theorem orFault_ok {x : Option α} {e : ε} {a : α} : orFault x e = .ok a ↔ x = some a := by
  cases x with
  | none => exact ⟨fun h => (error_ok.mp h).elim, fun h => by cases h⟩
  | some b => exact ⟨fun h => congrArg some (ok_ok.mp h), fun h => ok_ok.mpr (Option.some.inj h)⟩

/-- A missing entry raises its own fault. -/
theorem orFault_error {x : Option α} {e e' : ε} :
    orFault x e = .error e' ↔ x = none ∧ e = e' := by
  cases x with
  | none =>
    constructor
    · intro h
      cases h
      exact ⟨rfl, rfl⟩
    · rintro ⟨_, rfl⟩
      rfl
  | some b =>
    constructor
    · intro h
      cases h
    · rintro ⟨h, _⟩
      cases h

/-- A computation does not fail with a given fault. -/
def Avoids (e : ε) (x : Except ε α) : Prop := x ≠ .error e

section Avoids

variable {e e' : ε} {x y : Except ε α}

/-- A sequence avoids a fault exactly when every step that is reached does. -/
@[simp] theorem avoids_bind {f : α → Except ε β} :
    Avoids e (x >>= f) ↔ Avoids e x ∧ ∀ a, x = .ok a → Avoids e (f a) := by
  unfold Avoids
  rw [ne_eq, bind_error, not_or, not_exists]
  exact and_congr_right fun _ => forall_congr' fun _ => not_and

/-- Mapping the result changes no fault. -/
@[simp] theorem avoids_map {f : α → β} : Avoids e (f <$> x) ↔ Avoids e x := by
  unfold Avoids
  cases x with
  | error e' => exact not_congr ⟨fun h => by cases h; rfl, fun h => by cases h; rfl⟩
  | ok a => exact not_congr ⟨fun h => (by cases h), fun h => (by cases h)⟩

/-- A success avoids every fault. -/
@[simp] theorem avoids_ok (a : α) : Avoids e (.ok a) := by
  intro h
  cases h

/-- A returned value avoids every fault. -/
@[simp] theorem avoids_pure (a : α) : Avoids e (pure a) := avoids_ok a

/-- A failure avoids every other fault. -/
@[simp] theorem avoids_error : Avoids e (.error e' : Except ε α) ↔ e' ≠ e := by
  unfold Avoids
  exact not_congr ⟨fun h => by cases h; rfl, fun h => by rw [h]⟩

/-- A check avoids a fault unless it refuses with it. -/
@[simp] theorem avoids_refuse {c : Prop} [Decidable c] : Avoids e (refuse c e') ↔ (c → e' ≠ e) := by
  unfold Avoids
  rw [ne_eq, refuse_error, not_and]

/-- Reading an entry avoids a fault unless its absence raises it. -/
@[simp] theorem avoids_orFault {a : Option α} : Avoids e (orFault a e') ↔ (a = none → e' ≠ e) := by
  unfold Avoids
  rw [ne_eq, orFault_error, not_and]

/-- A branch avoids a fault when each side does where it is taken. -/
@[simp] theorem avoids_ite {c : Prop} [Decidable c] :
    Avoids e (if c then x else y) ↔ (c → Avoids e x) ∧ (¬c → Avoids e y) := by
  split
  · next h => exact ⟨fun hx => ⟨fun _ => hx, fun hk => (hk h).elim⟩, fun hk => hk.1 h⟩
  · next h => exact ⟨fun hy => ⟨fun hk => (h hk).elim, fun _ => hy⟩, fun hk => hk.2 h⟩

/-- A computation that avoids every fault but one succeeds or fails with that one. -/
theorem ok_or_of_avoids (h : ∀ f, e ≠ f → Avoids f x) : (∃ a, x = .ok a) ∨ x = .error e := by
  cases hx : x with
  | ok a => exact Or.inl ⟨a, rfl⟩
  | error f =>
    rcases Classical.em (e = f) with rfl | hother
    · exact Or.inr rfl
    · exact absurd hx (h f hother)

end Avoids

end DikeProtocol.Lib
