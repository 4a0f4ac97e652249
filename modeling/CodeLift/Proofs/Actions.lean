import CodeLift.Event

/-!
# Actions that may fail

What is known of the steps of an action once the outcome of the action is known.
-/

namespace CodeLift

variable {ε σ α β : Type}

/-- An action whose first step succeeds goes on from there. -/
theorem run_bind_of_ok {x : EStateM ε σ α} {f : α → EStateM ε σ β} {s t : σ} {a : α} (h : x s = .ok a t) :
    (x >>= f) s = f a t := by
  change EStateM.bind x f s = f a t
  rw [EStateM.bind, h]

/-- An action whose first step fails fails with it. -/
theorem run_bind_of_error {x : EStateM ε σ α} {f : α → EStateM ε σ β} {s t : σ} {e : ε} (h : x s = .error e t) :
    (x >>= f) s = .error e t := by
  change EStateM.bind x f s = .error e t
  rw [EStateM.bind, h]

/-- A sequence of two actions succeeds when both do. -/
theorem run_bind_eq_ok {x : EStateM ε σ α} {f : α → EStateM ε σ β} {s u : σ} {b : β} :
    (x >>= f) s = .ok b u ↔ ∃ a t, x s = .ok a t ∧ f a t = .ok b u := by
  cases hx : x s with
  | ok a t =>
    rw [run_bind_of_ok hx]
    constructor
    · intro h
      exact ⟨a, t, rfl, h⟩
    · rintro ⟨_, _, hok, h⟩
      cases hok
      exact h
  | error e t =>
    rw [run_bind_of_error hx]
    simp

/-- A sequence of two actions fails when the first does, or the second after it. -/
theorem run_bind_eq_error {x : EStateM ε σ α} {f : α → EStateM ε σ β} {s u : σ} {e : ε} (h : (x >>= f) s = .error e u) :
    x s = .error e u ∨ ∃ a t, x s = .ok a t ∧ f a t = .error e u := by
  cases hx : x s with
  | ok a t =>
    rw [run_bind_of_ok hx] at h
    exact .inr ⟨a, t, rfl, h⟩
  | error e' t =>
    rw [run_bind_of_error hx] at h
    cases h
    exact .inl rfl

/-- What comes after an action matters only where the action succeeds. -/
theorem run_bind_congr {x : EStateM ε σ α} {f g : α → EStateM ε σ β} {s : σ} (h : ∀ a t, x s = .ok a t → f a t = g a t) :
    (x >>= f) s = (x >>= g) s := by
  cases hx : x s with
  | ok a t => rw [run_bind_of_ok hx, run_bind_of_ok hx, h a t hx]
  | error e t => rw [run_bind_of_error hx, run_bind_of_error hx]

/-- Whether an outcome is a success, with a value that passes a test. -/
def succeedsWith (p : α → Bool) : EStateM.Result ε σ α → Bool
  | .ok a _ => p a
  | .error _ _ => false

theorem exists_of_succeedsWith {p : α → Bool} {outcome : EStateM.Result ε σ α} (h : succeedsWith p outcome = true) :
    ∃ a s, outcome = .ok a s ∧ p a = true := by
  cases outcome with
  | ok a s => exact ⟨a, s, rfl, h⟩
  | error e s => cases h

theorem exists_error_of_not_succeedsWith {outcome : EStateM.Result ε σ α} (h : succeedsWith (fun _ => true) outcome = false) :
    ∃ e s, outcome = .error e s := by
  cases outcome with
  | ok a s => cases h
  | error e s => exact ⟨e, s, rfl⟩

/-- Whether an outcome is a failure with this error. -/
def failsWith [DecidableEq ε] (e : ε) : EStateM.Result ε σ α → Bool
  | .ok _ _ => false
  | .error e' _ => decide (e' = e)

theorem exists_of_failsWith [DecidableEq ε] {e : ε} {outcome : EStateM.Result ε σ α} (h : failsWith e outcome = true) :
    ∃ s, outcome = .error e s := by
  cases outcome with
  | ok a s => cases h
  | error e' s => exact ⟨s, by rw [of_decide_eq_true h]⟩

namespace Traced

theorem ofExcept_eq_ok {x : Except ε α} {events events' : List Event} {a : α} :
    Traced.ofExcept x events = .ok a events' ↔ x = .ok a ∧ events' = events := by
  cases x with
  | ok a' =>
    change EStateM.Result.ok a' events = .ok a events' ↔ _
    simp [eq_comm]
  | error e =>
    change EStateM.Result.error e events = .ok a events' ↔ _
    simp

theorem ofExcept_eq_error {x : Except ε α} {events events' : List Event} {e : ε}
    (h : Traced.ofExcept x events = .error e events') : x = .error e := by
  cases x with
  | ok a => cases h
  | error e' =>
    cases h
    rfl

theorem report_eq_ok {new events events' : List Event} {u : Unit} :
    (Traced.report new : Traced ε Unit) events = .ok u events' ↔ events' = events ++ new := by
  change EStateM.Result.ok () (events ++ new) = .ok u events' ↔ _
  simp [eq_comm]

theorem mapError_eq_ok {δ : Type} {f : δ → ε} {x : Traced δ α} {events events' : List Event} {a : α} :
    Traced.mapError f x events = .ok a events' ↔ x events = .ok a events' := by
  unfold Traced.mapError
  cases x events with
  | ok a' t => simp
  | error e t => simp

theorem mapError_eq_error {δ : Type} {f : δ → ε} {x : Traced δ α} {events events' : List Event} {e : ε}
    (h : Traced.mapError f x events = .error e events') : ∃ cause, x events = .error cause events' ∧ e = f cause := by
  unfold Traced.mapError at h
  cases hx : x events with
  | ok a t =>
    rw [hx] at h
    cases h
  | error cause t =>
    rw [hx] at h
    cases h
    exact ⟨cause, rfl, rfl⟩

end Traced

/-- A failure put under another type of error stays a failure. -/
theorem mapError_eq_ok {δ : Type} {f : δ → ε} {x : Except δ α} {a : α} : x.mapError f = .ok a ↔ x = .ok a := by
  cases x with
  | ok a' =>
    change Except.ok a' = Except.ok a ↔ Except.ok a' = Except.ok a
    simp only [Except.ok.injEq]
  | error e =>
    change Except.error (f e) = Except.ok a ↔ Except.error e = Except.ok a
    simp only [reduceCtorEq]

end CodeLift
