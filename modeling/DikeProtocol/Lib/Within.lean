import DikeProtocol.Lib.Result
import DikeProtocol.Lib.Run
import Mathlib.Order.Defs.Unbundled

/-!
# Computations that stay within a preorder

Partial correctness of a fallible computation: whatever it returns is related to
the state it started from. The relation is a preorder, so that steps compose;
steps that only read are skipped. What every guarded step of a system stays
within, a whole run of such steps stays within.
-/

namespace DikeProtocol.Lib

universe u

variable {σ ε : Type*} {α β : Type u} {R : σ → σ → Prop} {out : α → σ} {result : β → σ}
  {s s1 : σ}

/-- Whatever the computation returns, the state it leaves is related to `s`. -/
def Within (R : σ → σ → Prop) (s : σ) (out : α → σ) (x : Except ε α) : Prop :=
  ∀ a, x = .ok a → R s (out a)

/-- A returned value must leave a related state. -/
theorem within_pure {a : α} : Within R s out (pure a : Except ε α) ↔ R s (out a) :=
  ⟨fun h => h a rfl, fun h _ ha => pure_ok.mp ha ▸ h⟩

/-- So must a success. -/
theorem within_ok {a : α} : Within R s out (.ok a : Except ε α) ↔ R s (out a) := within_pure

/-- A failure leaves no state. -/
theorem within_error (e : ε) : Within R s out (.error e : Except ε α) :=
  fun _ ha => (error_ok.mp ha).elim

/-- What follows a step is judged where the step succeeds. -/
theorem within_bind {x : Except ε α} {f : α → Except ε β} :
    Within R s result (x >>= f) ↔ ∀ a, x = .ok a → Within R s result (f a) :=
  ⟨fun h a ha b hb => h b (bind_ok.mpr ⟨a, ha, hb⟩),
    fun h _ hb => by
      obtain ⟨a, ha, hb⟩ := bind_ok.mp hb
      exact h a ha _ hb⟩

/-- A step that only reads may return anything. -/
theorem Within.skip {x : Except ε α} {f : α → Except ε β} (h : ∀ a, Within R s result (f a)) :
    Within R s result (x >>= f) := within_bind.mpr fun a _ => h a

/-- A computation may go on from a related state. -/
theorem Within.after [IsTrans σ R] {x : Except ε α} (h : R s s1) (hx : Within R s1 out x) :
    Within R s out x := fun a ha => IsTrans.trans _ _ _ h (hx a ha)

/-- A step to a related state, and what follows from there. -/
theorem Within.step [IsTrans σ R] {x : Except ε α} {f : α → Except ε β}
    (hx : Within R s out x) (hf : ∀ a, Within R (out a) result (f a)) :
    Within R s result (x >>= f) :=
  within_bind.mpr fun a ha b hb => IsTrans.trans _ _ _ (hx a ha) (hf a b hb)

namespace System

variable {ι : Type*} (S : System σ ι ε)

/-- A state is reached from another one by successful steps that all meet the guard. -/
inductive Path (ok : σ → ι → Prop) (s : σ) : σ → Prop where
  /-- No steps. -/
  | refl : Path ok s s
  /-- One more successful step that meets the guard. -/
  | next {s1 s2 : σ} {i : ι} (h : Path ok s s1) (hok : ok s1 i) (hs : S.step s1 i = .ok s2) :
      Path ok s s2

variable {S} {ok : σ → ι → Prop} {s' : σ}

/-- Guarded steps that stay within a preorder lead to related states only. -/
theorem Path.within [IsTrans σ R] (hrefl : ∀ s, R s s)
    (hstep : ∀ s i, ok s i → Within R s id (S.step s i)) (h : S.Path ok s s') : R s s' := by
  induction h with
  | refl => exact hrefl s
  | next _ hok hs ih => exact IsTrans.trans _ _ _ ih (hstep _ _ hok _ hs)

/-- A weaker guard admits the path. -/
theorem Path.mono {ok' : σ → ι → Prop} (hok : ∀ s i, ok s i → ok' s i) (h : S.Path ok s s') :
    S.Path ok' s s' := by
  induction h with
  | refl => exact .refl
  | next _ hok1 hs ih => exact .next ih (hok _ _ hok1) hs

/-- A path from a reached state reaches its end. -/
theorem Path.reachable (h : S.Path ok s s') (hs : S.Reachable s) : S.Reachable s' := by
  induction h with
  | refl => exact hs
  | next _ _ hstep ih => exact .next ih trivial hstep

/-- Steps before a path. -/
theorem Path.head {i : ι} (hok : ok s i) (hs : S.step s i = .ok s1) (h : S.Path ok s1 s') :
    S.Path ok s s' := by
  induction h with
  | refl => exact .next .refl hok hs
  | next _ hok' hs' ih => exact .next ih hok' hs'

/-- A checked list of labels is a path. -/
theorem Path.of_check [∀ s i, Decidable (ok s i)] {p : σ → Bool} (is : List ι)
    (hc : S.checkRun ok p s is = true) : ∃ s', S.Path ok s s' ∧ p s' = true := by
  induction is generalizing s with
  | nil => exact ⟨s, .refl, hc⟩
  | cons i is ih =>
    unfold checkRun at hc
    rw [Bool.and_eq_true] at hc
    obtain ⟨hok, hc⟩ := hc
    cases hs : S.step s i with
    | ok next =>
      rw [hs] at hc
      obtain ⟨s', hpath, hp⟩ := ih hc
      exact ⟨s', hpath.head (of_decide_eq_true hok) hs, hp⟩
    | error e =>
      rw [hs] at hc
      cases hc

end System

end DikeProtocol.Lib
