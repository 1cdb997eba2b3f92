import Mathlib.Data.List.Forall2

/-!
# Tasks that may fail halfway

A task changes the state as it goes, and where it fails the changes stay. One
judgment says what holds where it ends and what holds where it fails; a loop
that outlives the failures of its items does something about each of them.
-/

namespace DikeProtocol.Lib

universe u

variable {ε σ α β ι : Type u}

/-- A task that is run in a state ends with a result and a state, or fails in a state. -/
def Ensures (x : EStateM ε σ α) (s : σ) (Q : α → σ → Prop) (E : σ → Prop) : Prop :=
  match x s with
  | .ok a s' => Q a s'
  | .error _ s' => E s'

section

variable {x : EStateM ε σ α} {s : σ} {Q Q' : α → σ → Prop} {E E' : σ → Prop}

/-- What is ensured may be weakened. -/
theorem Ensures.mono (h : Ensures x s Q E) (hq : ∀ a s', Q a s' → Q' a s')
    (he : ∀ s', E s' → E' s') : Ensures x s Q' E' := by
  unfold Ensures at h ⊢
  split at h
  · exact hq _ _ h
  · exact he _ h

/-- Two things that are ensured are ensured together. -/
theorem Ensures.and (h : Ensures x s Q E) (h' : Ensures x s Q' E') :
    Ensures x s (fun a s' => Q a s' ∧ Q' a s') (fun s' => E s' ∧ E' s') := by
  unfold Ensures at h h' ⊢
  split at h
  · next hx => rw [hx] at h'; exact ⟨h, h'⟩
  · next hx => rw [hx] at h'; exact ⟨h, h'⟩

/-- Returning a value changes nothing. -/
theorem ensures_pure {a : α} (h : Q a s) : Ensures (pure a : EStateM ε σ α) s Q E := h

/-- A sequence fails where its first part does, or goes on from where that ends. -/
theorem ensures_bind {f : α → EStateM ε σ β} {Q : β → σ → Prop}
    (h : Ensures x s (fun a s' => Ensures (f a) s' Q E) E) : Ensures (x >>= f) s Q E := by
  unfold Ensures at h
  change Ensures (EStateM.bind x f) s Q E
  unfold Ensures EStateM.bind
  split at h
  · next hx => rw [hx]; exact h
  · next hx => rw [hx]; exact h

/-- A caught failure is made good from where the task failed. -/
theorem ensures_tryCatch {handler : ε → EStateM ε σ α}
    (h : Ensures x s Q (fun s' => ∀ e, Ensures (handler e) s' Q E)) :
    Ensures (tryCatch x handler) s Q E := by
  unfold Ensures at h
  change Ensures (EStateM.tryCatch x handler) s Q E
  unfold Ensures EStateM.tryCatch
  split at h
  · next hx => rw [hx]; exact h
  · next e s' hx => rw [hx]; exact h e

/-- The state may be changed at once. -/
theorem ensures_modify {f : σ → σ} {Q : PUnit → σ → Prop} (h : Q ⟨⟩ (f s)) :
    Ensures (modify f : EStateM ε σ PUnit) s Q E := h

/-- The state may be read. -/
theorem ensures_get {Q : σ → σ → Prop} (h : Q s s) : Ensures (get : EStateM ε σ σ) s Q E := h

end

section Loops

variable {R : σ → σ → Prop} {E : σ → Prop}

/-- A loop of which every turn moves along a relation and does something about its item that lasts
has done so about every item where it ends. -/
theorem ensures_forM {f : ι → EStateM ε σ PUnit} {P : ι → σ → Prop} (hrefl : ∀ s, R s s)
    (htrans : ∀ s s' s'', R s s' → R s' s'' → R s s'')
    (hlasts : ∀ i s s', P i s → R s s' → P i s') {start s : σ} {l : List ι} (hstart : R start s)
    (hturn : ∀ i ∈ l, ∀ s, R start s →
      Ensures (f i) s (fun _ s' => R s s' ∧ P i s') (fun s' => R s s' ∧ E s')) :
    Ensures (l.forM f) s (fun _ s' => R s s' ∧ ∀ i ∈ l, P i s') (fun s' => R s s' ∧ E s') := by
  induction l generalizing s with
  | nil => exact ensures_pure ⟨hrefl s, fun i hi => absurd hi List.not_mem_nil⟩
  | cons i l ih =>
    refine ensures_bind ((hturn i List.mem_cons_self s hstart).mono ?_ fun _ h => h)
    rintro _ s' ⟨hmove, hdone⟩
    refine (ih (htrans _ _ _ hstart hmove) fun j hj =>
      hturn j (List.mem_cons_of_mem i hj)).mono ?_ ?_
    · rintro _ s'' ⟨hmove', hrest⟩
      refine ⟨htrans _ _ _ hmove hmove', fun j hj => ?_⟩
      rcases List.mem_cons.mp hj with rfl | hj
      · exact hlasts _ _ _ hdone hmove'
      · exact hrest j hj
    · rintro s'' ⟨hmove', hfail⟩
      exact ⟨htrans _ _ _ hmove hmove', hfail⟩

/-- A loop keeps what every turn keeps. -/
theorem ensures_forM_inv {f : ι → EStateM ε σ PUnit} {I : σ → Prop} {s : σ} {l : List ι} (hs : I s)
    (hturn : ∀ i ∈ l, ∀ s, I s → Ensures (f i) s (fun _ s' => I s') E) :
    Ensures (l.forM f) s (fun _ s' => I s') E := by
  induction l generalizing s with
  | nil => exact ensures_pure hs
  | cons i l ih =>
    refine ensures_bind ((hturn i List.mem_cons_self s hs).mono ?_ fun _ h => h)
    intro _ s' hs'
    exact ih hs' fun j hj => hturn j (List.mem_cons_of_mem i hj)

/-- Results that are gathered in a loop are each what its turn ensures, as long as that lasts. -/
theorem ensures_mapM {f : ι → EStateM ε σ α} {P : ι → α → σ → Prop} (hrefl : ∀ s, R s s)
    (htrans : ∀ s s' s'', R s s' → R s' s'' → R s s'')
    (hlasts : ∀ i a s s', P i a s → R s s' → P i a s') {start s : σ} {l : List ι}
    (hstart : R start s)
    (hturn : ∀ i ∈ l, ∀ s, R start s →
      Ensures (f i) s (fun a s' => R s s' ∧ P i a s') (fun s' => R s s' ∧ E s')) :
    Ensures (l.mapM f) s (fun as s' => R s s' ∧ List.Forall₂ (fun i a => P i a s') l as)
      (fun s' => R s s' ∧ E s') := by
  induction l generalizing s with
  | nil => exact ensures_pure ⟨hrefl s, List.Forall₂.nil⟩
  | cons i l ih =>
    rw [List.mapM_cons]
    refine ensures_bind ((hturn i List.mem_cons_self s hstart).mono ?_ fun _ h => h)
    rintro a s' ⟨hmove, hdone⟩
    refine ensures_bind ((ih (htrans _ _ _ hstart hmove) fun j hj =>
      hturn j (List.mem_cons_of_mem i hj)).mono ?_ ?_)
    · rintro as s'' ⟨hmove', hrest⟩
      exact ensures_pure ⟨htrans _ _ _ hmove hmove', .cons (hlasts _ _ _ _ hdone hmove') hrest⟩
    · rintro s'' ⟨hmove', hfail⟩
      exact ⟨htrans _ _ _ hmove hmove', hfail⟩

end Loops

/-- Wherever a task ends or fails, it has moved along a relation. -/
def Keeps (R : σ → σ → Prop) (x : EStateM ε σ α) : Prop :=
  ∀ s, Ensures x s (fun _ s' => R s s') (fun s' => R s s')

section Keeping

variable {R : σ → σ → Prop} {x : EStateM ε σ α}

/-- A sequence moves along what its parts do. -/
theorem keeps_bind (htrans : ∀ s s' s'', R s s' → R s' s'' → R s s'')
    {f : α → EStateM ε σ β} (hx : Keeps R x) (hf : ∀ a, Keeps R (f a)) : Keeps R (x >>= f) :=
  fun s => ensures_bind ((hx s).mono
    (fun a s' hmove => (hf a s').mono (fun _ _ h => htrans _ _ _ hmove h)
      fun _ h => htrans _ _ _ hmove h) fun _ h => h)

/-- So does a task whose failure is handled. -/
theorem keeps_tryCatch (htrans : ∀ s s' s'', R s s' → R s' s'' → R s s'')
    {handler : ε → EStateM ε σ α} (hx : Keeps R x) (hf : ∀ e, Keeps R (handler e)) :
    Keeps R (tryCatch x handler) :=
  fun s => ensures_tryCatch ((hx s).mono (fun _ _ h => h)
    (fun s' hmove e => (hf e s').mono (fun _ _ h => htrans _ _ _ hmove h)
      fun _ h => htrans _ _ _ hmove h))

/-- A returned value moves nothing. -/
theorem keeps_pure (hrefl : ∀ s, R s s) (a : α) : Keeps R (pure a : EStateM ε σ α) :=
  fun s => ensures_pure (hrefl s)

/-- So does a loop whose turns do. -/
theorem keeps_forM (hrefl : ∀ s, R s s) (htrans : ∀ s s' s'', R s s' → R s' s'' → R s s'')
    {f : ι → EStateM ε σ PUnit} {l : List ι} (hf : ∀ i ∈ l, Keeps R (f i)) :
    Keeps R (l.forM f) := by
  induction l with
  | nil => exact keeps_pure hrefl _
  | cons i l ih =>
    exact keeps_bind htrans (hf i List.mem_cons_self) fun _ =>
      ih fun j hj => hf j (List.mem_cons_of_mem i hj)

end Keeping

end DikeProtocol.Lib
