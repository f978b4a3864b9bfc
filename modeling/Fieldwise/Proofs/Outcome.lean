/-!
# Outcomes of steps that can fail

A sequence of steps ends well exactly when each step does, and it ends with the failure of the first step
that fails. `First` picks the first thing in a list that something is wrong with; a step after which more
steps follow puts the things it looks at in front of theirs.
-/

namespace Fieldwise

variable {ε α β : Type}

theorem bind_eq_ok {x : Except ε α} {f : α → Except ε β} {b : β} :
    x >>= f = .ok b ↔ ∃ a, x = .ok a ∧ f a = .ok b := by
  cases x with
  | error e => simp [bind, Except.bind]
  | ok a => simp [bind, Except.bind]

/-- A sequence fails with its first step, or with its second one after the first ended well. -/
theorem bind_eq_error {x : Except ε α} {f : α → Except ε β} {e : ε} :
    x >>= f = .error e ↔ x = .error e ∨ ∃ a, x = .ok a ∧ f a = .error e := by
  cases x with
  | error e => simp [bind, Except.bind]
  | ok a => simp [bind, Except.bind]

/-- A value is changed only after its step ended well. -/
theorem map_eq_ok {x : Except ε α} {f : α → β} {b : β} :
    f <$> x = .ok b ↔ ∃ a, x = .ok a ∧ f a = b := by
  cases x with
  | error e => simp [Functor.map, Except.map]
  | ok a => simp [Functor.map, Except.map]

theorem map_eq_error {x : Except ε α} {f : α → β} {e : ε} :
    f <$> x = .error e ↔ x = .error e := by
  cases x with
  | error e => simp [Functor.map, Except.map]
  | ok a => simp [Functor.map, Except.map]

theorem exists_ok_of_any {x : Except ε α} {test : α → Bool} (h : x.toOption.any test = true) :
    ∃ a, x = .ok a ∧ test a = true := by
  cases x with
  | error e => simp [Except.toOption] at h
  | ok a => exact ⟨a, rfl, by simpa [Except.toOption] using h⟩

/-! ## The first thing that is wrong -/

section First

variable {wrong : α → β → Prop} {xs ys : List α} {x : α} {b : β}

/-- What is wrong with the first thing in a list that something is wrong with. -/
def First (wrong : α → β → Prop) (xs : List α) (b : β) : Prop :=
  ∃ before x after, xs = before ++ x :: after ∧ (∀ y ∈ before, ∀ c, ¬wrong y c) ∧ wrong x b

@[simp] theorem first_nil : ¬First wrong [] b := by
  rintro ⟨before, x, after, h, -⟩
  simp at h

theorem first_cons :
    First wrong (x :: xs) b ↔ wrong x b ∨ (∀ c, ¬wrong x c) ∧ First wrong xs b := by
  constructor
  · rintro ⟨before, y, after, h, hbefore, hy⟩
    cases before with
    | nil =>
      obtain ⟨rfl, rfl⟩ := List.cons.inj h
      exact .inl hy
    | cons z before =>
      obtain ⟨rfl, rfl⟩ := List.cons.inj h
      rw [List.forall_mem_cons] at hbefore
      exact .inr ⟨hbefore.1, before, y, after, rfl, hbefore.2, hy⟩
  · rintro (hx | ⟨hx, before, y, after, rfl, hbefore, hy⟩)
    · exact ⟨[], x, xs, rfl, by simp, hx⟩
    · refine ⟨x :: before, y, after, rfl, ?_, hy⟩
      rw [List.forall_mem_cons]
      exact ⟨hx, hbefore⟩

theorem first_singleton : First wrong [x] b ↔ wrong x b := by
  simp [first_cons]

/-- Nothing is the first thing wrong exactly when nothing is wrong with anything. -/
theorem not_first_iff : (∀ b, ¬First wrong xs b) ↔ ∀ x ∈ xs, ∀ c, ¬wrong x c := by
  induction xs with
  | nil => simp
  | cons x xs ih =>
    rw [List.forall_mem_cons, ← ih]
    constructor
    · intro h
      have hx : ∀ c, ¬wrong x c := fun c hc => h c (first_cons.mpr (.inl hc))
      exact ⟨hx, fun b hb => h b (first_cons.mpr (.inr ⟨hx, hb⟩))⟩
    · rintro ⟨hx, hxs⟩ b hb
      rcases first_cons.mp hb with hb | ⟨-, hb⟩
      · exact hx b hb
      · exact hxs b hb

/-- The first thing wrong is in the front part, or in the rest if nothing is wrong in the front. -/
theorem first_append :
    First wrong (xs ++ ys) b ↔
      First wrong xs b ∨ (∀ c, ¬First wrong xs c) ∧ First wrong ys b := by
  induction xs with
  | nil => simp
  | cons x xs ih =>
    rw [List.cons_append, first_cons, ih, first_cons]
    simp only [not_first_iff, List.forall_mem_cons]
    constructor
    · rintro (hx | ⟨hx, hxs | ⟨hnone, hys⟩⟩)
      · exact .inl (.inl hx)
      · exact .inl (.inr ⟨hx, hxs⟩)
      · exact .inr ⟨⟨hx, hnone⟩, hys⟩
    · rintro ((hx | ⟨hx, hxs⟩) | ⟨⟨hx, hnone⟩, hys⟩)
      · exact .inl hx
      · exact .inr ⟨hx, .inl hxs⟩
      · exact .inr ⟨hx, .inr ⟨hnone, hys⟩⟩

theorem first_map {γ : Type} {f : γ → α} {zs : List γ} :
    First wrong (zs.map f) b ↔ First (fun z => wrong (f z)) zs b := by
  induction zs with
  | nil => simp
  | cons z zs ih => simp only [List.map_cons, first_cons, ih]

/-- A step that fails with the first thing wrong in one list, before steps that fail with the first thing
wrong in another. -/
theorem bind_eq_error_first {γ : Type} {step : Except β γ} {next : γ → Except β ε}
    (front rest : List α) (hstep : ∀ b, step = .error b ↔ First wrong front b)
    (hnext : ∀ a, step = .ok a → ∀ b, next a = .error b ↔ First wrong rest b) (b : β) :
    step >>= next = .error b ↔ First wrong (front ++ rest) b := by
  rw [bind_eq_error, first_append]
  cases h : step with
  | error e =>
    simp only [reduceCtorEq, false_and, exists_false, or_false, ← hstep, h]
    constructor
    · exact .inl
    · rintro (hb | ⟨hnone, -⟩)
      · exact hb
      · exact absurd rfl (hnone e)
  | ok a =>
    have hnone : ∀ c, ¬First wrong front c := fun c hc => by simpa [h] using (hstep c).mpr hc
    simp [hnone, hnext a h]

end First

end Fieldwise
