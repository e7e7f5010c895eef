/-!
Computations that stop at the first error: what is known of their parts when they come to a result.
-/

namespace TypedCollections.Stopping

variable {ε ε' α β σ : Type}

theorem ok_bind (a : α) (f : α → Except ε β) : Except.ok a >>= f = f a := rfl

theorem bind_ok {x : Except ε α} {f : α → Except ε β} {b : β} (h : x >>= f = .ok b) :
    ∃ a, x = .ok a ∧ f a = .ok b := by
  cases x with
  | error e => cases h
  | ok a => exact ⟨a, rfl, h⟩

theorem bind_ok_iff {x : Except ε α} {f : α → Except ε β} {b : β} :
    x >>= f = .ok b ↔ ∃ a, x = .ok a ∧ f a = .ok b :=
  ⟨bind_ok, fun ⟨_, ha, hb⟩ => ha ▸ hb⟩

theorem map_ok {x : Except ε α} {f : α → β} {b : β} (h : x.map f = .ok b) :
    ∃ a, x = .ok a ∧ f a = b := by
  cases x with
  | error e => cases h
  | ok a => exact ⟨a, rfl, Except.ok.inj h⟩

theorem mapError_ok {x : Except ε α} {f : ε → ε'} {a : α} (h : x.mapError f = .ok a) :
    x = .ok a := by
  cases x with
  | error e => cases h
  | ok b => exact congrArg Except.ok (Except.ok.inj h)

theorem bind_error {x : Except ε α} {f : α → Except ε β} {e : ε} (h : x >>= f = .error e) :
    x = .error e ∨ ∃ a, x = .ok a ∧ f a = .error e := by
  cases x with
  | error e' => exact .inl (congrArg Except.error (Except.error.inj h))
  | ok a => exact .inr ⟨a, rfl, h⟩

theorem map_error {x : Except ε α} {f : α → β} {e : ε} (h : x.map f = .error e) :
    x = .error e := by
  cases x with
  | error e' => exact congrArg Except.error (Except.error.inj h)
  | ok a => cases h

theorem mapError_error {x : Except ε α} {f : ε → ε'} {e : ε'} (h : x.mapError f = .error e) :
    ∃ e', x = .error e' ∧ f e' = e := by
  cases x with
  | error e' => exact ⟨e', rfl, Except.error.inj h⟩
  | ok a => cases h

/-- What each step preserves holds at the end of the walk. -/
theorem foldlM_invariant {f : σ → α → Except ε σ} {p : σ → Prop}
    (step : ∀ s a s', p s → f s a = .ok s' → p s') {l : List α} {s s' : σ} (hs : p s)
    (h : l.foldlM f s = .ok s') : p s' := by
  induction l generalizing s with
  | nil =>
    cases h
    exact hs
  | cons a rest ih =>
    rw [List.foldlM_cons] at h
    obtain ⟨t, hf, h⟩ := bind_ok h
    exact ih (step s a t hs hf) h

/-- What holds of every error of a step holds of the error that ends the walk. -/
theorem foldlM_error {f : σ → α → Except ε σ} {p : ε → Prop}
    (step : ∀ s a e, f s a = .error e → p e) {l : List α} {s : σ} {e : ε}
    (h : l.foldlM f s = .error e) : p e := by
  induction l generalizing s with
  | nil => cases h
  | cons a rest ih =>
    rw [List.foldlM_cons] at h
    obtain hf | ⟨t, -, h⟩ := bind_error h
    · exact step s a e hf
    · exact ih h

end TypedCollections.Stopping
