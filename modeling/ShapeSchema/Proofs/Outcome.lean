import ShapeSchema.Schema.Conversion

/-!
# Outcomes

Taking computations apart that may fail: `Except` as the codec and the loaders use it, and `Traced`
with its result and its log. `Parallel` compares two computations step by step.
-/

namespace ShapeSchema

section Except

variable {ε ε' α β : Type}

@[simp] theorem ok_bind (a : α) (f : α → Except ε β) : (Except.ok a >>= f) = f a := rfl

@[simp] theorem error_bind (e : ε) (f : α → Except ε β) : (Except.error e >>= f) = .error e := rfl

theorem bind_eq_ok {x : Except ε α} {f : α → Except ε β} {b : β} :
    (x >>= f) = .ok b ↔ ∃ a, x = .ok a ∧ f a = .ok b := by
  cases x with
  | ok a => simp
  | error e => simp

theorem bind_eq_error {x : Except ε α} {f : α → Except ε β} {e : ε} :
    (x >>= f) = .error e ↔ x = .error e ∨ ∃ a, x = .ok a ∧ f a = .error e := by
  cases x with
  | ok a => simp
  | error e => simp

/-- A last step that does not fail leaves the failures as they are. -/
theorem bind_ok_eq_error {x : Except ε α} {f : α → β} {e : ε} :
    (x >>= fun a => .ok (f a)) = .error e ↔ x = .error e := by
  simp [bind_eq_error]

theorem mapError_eq_ok {x : Except ε α} {f : ε → ε'} {a : α} :
    x.mapError f = .ok a ↔ x = .ok a := by
  cases x with
  | ok b =>
    show (Except.ok b : Except ε' α) = .ok a ↔ _
    rw [Except.ok.injEq, Except.ok.injEq]
  | error e =>
    show (Except.error (f e) : Except ε' α) = .ok a ↔ _
    simp

theorem mapError_eq_error {x : Except ε α} {f : ε → ε'} {e' : ε'} :
    x.mapError f = .error e' ↔ ∃ e, x = .error e ∧ f e = e' := by
  cases x with
  | ok a =>
    show (Except.ok a : Except ε' α) = .error e' ↔ _
    simp
  | error e =>
    show (Except.error (f e) : Except ε' α) = .error e' ↔ _
    simp

/-! ### Outcomes without errors -/

theorem toOption_eq_some {x : Except ε α} {a : α} : x.toOption = some a ↔ x = .ok a := by
  cases x <;> simp [Except.toOption]

theorem toOption_bind (x : Except ε α) (f : α → Except ε β) :
    (x >>= f).toOption = x.toOption.bind fun a => (f a).toOption := by
  cases x <;> rfl

theorem toOption_mapError (x : Except ε α) (f : ε → ε') : (x.mapError f).toOption = x.toOption := by
  cases x <;> rfl

end Except

/-- Two computations go the same way: both fail with related errors, or both succeed with related
results. -/
inductive Parallel {ε ε' α β : Type} (E : ε → ε' → Prop) (R : α → β → Prop) :
    Except ε α → Except ε' β → Prop
  | ok {a : α} {b : β} (h : R a b) : Parallel E R (.ok a) (.ok b)
  | error {e : ε} {e' : ε'} (h : E e e') : Parallel E R (.error e) (.error e')

namespace Parallel

variable {ε ε' α β γ δ : Type} {E : ε → ε' → Prop} {R : α → β → Prop} {S : γ → δ → Prop}
  {x : Except ε α} {y : Except ε' β}

theorem bind (h : Parallel E R x y) {f : α → Except ε γ} {g : β → Except ε' δ}
    (hfg : ∀ a b, R a b → Parallel E S (f a) (g b)) : Parallel E S (x >>= f) (y >>= g) := by
  cases h with
  | ok h => exact hfg _ _ h
  | error h => exact .error h

theorem mapError (h : Parallel E R x y) {f : ε → ε} {g : ε' → ε'}
    (hfg : ∀ e e', E e e' → E (f e) (g e')) : Parallel E R (x.mapError f) (y.mapError g) := by
  cases h with
  | ok h => exact .ok h
  | error h => exact .error (hfg _ _ h)

theorem imp {E' : ε → ε' → Prop} {S : α → β → Prop} (h : Parallel E R x y)
    (hE : ∀ e e', E e e' → E' e e') (hS : ∀ a b, R a b → S a b) : Parallel E' S x y := by
  cases h with
  | ok h => exact .ok (hS _ _ h)
  | error h => exact .error (hE _ _ h)

/-- Two computations that go the way of a third end both with the same error or both well. -/
theorem common {x : Except ε α} {y : Except ε β} {z : Except ε γ} {S : α → γ → Prop}
    (hy : Parallel Eq R x y) (hz : Parallel Eq S x z) :
    (∃ e, y = .error e ∧ z = .error e) ∨
      ∃ a b c, y = .ok b ∧ z = .ok c ∧ R a b ∧ S a c := by
  cases hy with
  | error hy =>
    subst hy
    cases hz with
    | error hz =>
      subst hz
      exact .inl ⟨_, rfl, rfl⟩
  | ok hy =>
    cases hz with
    | ok hz => exact .inr ⟨_, _, _, rfl, rfl, hy, hz⟩

/-- With the same errors and the same results, the outcomes are the same. -/
theorem eq {x y : Except ε α} (h : Parallel Eq Eq x y) : x = y := by
  cases h with
  | ok h => rw [h]
  | error h => rw [h]

end Parallel

namespace Traced

variable {α β : Type}

@[simp] theorem result_pure (a : α) : (Pure.pure a : Traced α).result = .ok a := rfl

@[simp] theorem result_bind (x : Traced α) (f : α → Traced β) :
    (x >>= f).result = x.result >>= fun a => (f a).result := by
  change (Traced.bind x f).result = _
  rw [Traced.bind]
  cases x.result with
  | ok a => rfl
  | error e => rfl

@[simp] theorem result_log (event : Event) : (log event).result = .ok () := rfl

@[simp] theorem result_fail (obstacle : Obstacle) :
    (fail obstacle : Traced α).result = .error (.here obstacle) := rfl

@[simp] theorem result_under (step : String) (x : Traced α) :
    (x.under step).result = x.result.mapError (.under step) := rfl

/-! ### Logs -/

@[simp] theorem events_pure (a : α) : (Pure.pure a : Traced α).events = [] := rfl

@[simp] theorem events_log (event : Event) : (log event).events = [event] := rfl

@[simp] theorem events_fail (obstacle : Obstacle) : (fail obstacle : Traced α).events = [] := rfl

@[simp] theorem events_under (step : String) (x : Traced α) : (x.under step).events = x.events := rfl

theorem events_bind_ok {x : Traced α} {a : α} (h : x.result = .ok a) (f : α → Traced β) :
    (x >>= f).events = x.events ++ (f a).events := by
  change (Traced.bind x f).events = _
  rw [Traced.bind, h]

/-- What fails is not gone on with. -/
theorem bind_of_error {x : Traced α} {e : ConversionError} (h : x.result = .error e)
    (f : α → Traced β) : (x >>= f) = ⟨x.events, .error e⟩ := by
  change Traced.bind x f = _
  rw [Traced.bind, h]

theorem events_bind_error {x : Traced α} {e : ConversionError} (h : x.result = .error e)
    (f : α → Traced β) : (x >>= f).events = x.events := by
  rw [bind_of_error h]

/-- Every event that the computation logs is of this kind. -/
def Logs (P : Event → Prop) (x : Traced α) : Prop := ∀ event ∈ x.events, P event

variable {P : Event → Prop} {x : Traced α}

theorem Logs.bind (hx : Logs P x) {f : α → Traced β} (hf : ∀ a, Logs P (f a)) :
    Logs P (x >>= f) := by
  intro event hevent
  cases hresult : x.result with
  | ok a =>
    rw [events_bind_ok hresult] at hevent
    exact (List.mem_append.mp hevent).elim (hx event) (hf a event)
  | error e =>
    rw [events_bind_error hresult] at hevent
    exact hx event hevent

theorem Logs.of_silent (h : x.events = []) : Logs P x := by simp [Logs, h]

theorem Logs.log {event : Event} (h : P event) : Logs P (log event) := by simpa [Logs] using h

theorem Logs.under {step : String} (hx : Logs P x) : Logs P (x.under step) := hx

end Traced

end ShapeSchema
