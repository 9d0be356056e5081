/-!
This module contains the rules for runs of programs that have a state and can fail.
-/

namespace Exec

variable {ε σ α β : Type} {m : EStateM ε σ α} {f : α → EStateM ε σ β} {s s' s'' : σ}

def endState (r : EStateM.Result ε σ α) : σ :=
  match r with
  | .ok _ s => s
  | .error _ s => s

def mapState {τ : Type} (h : σ → τ) (r : EStateM.Result ε σ α) : EStateM.Result ε τ α :=
  match r with
  | .ok a s => .ok a (h s)
  | .error e s => .error e (h s)

theorem run_pure (a : α) (s : σ) : (pure a : EStateM ε σ α).run s = .ok a s := rfl

theorem run_bind_ok {a : α} (h : m.run s = .ok a s') : (m >>= f).run s = (f a).run s' := by
  rw [EStateM.run_bind, h]

theorem run_bind_error {e : ε} (h : m.run s = .error e s')
    : (m >>= f).run s = .error e s' := by
  rw [EStateM.run_bind, h]

theorem of_run_bind_ok {b : β} (h : (m >>= f).run s = .ok b s'')
    : ∃ a s', m.run s = .ok a s' ∧ (f a).run s' = .ok b s'' := by
  cases hm : m.run s with
  | ok a s' =>
    rw [run_bind_ok hm] at h
    exact ⟨a, s', rfl, h⟩
  | error e s' =>
    rw [run_bind_error hm] at h
    cases h

-- A program keeps what its parts keep, whether they fail or not.
theorem endState_bind {P : σ → Prop} (hm : P (endState (m.run s)))
    (hf : ∀ a s', m.run s = .ok a s' → P s' → P (endState ((f a).run s')))
    : P (endState ((m >>= f).run s)) := by
  cases h : m.run s with
  | ok a s' =>
    rw [h] at hm
    rw [run_bind_ok h]
    exact hf a s' h hm
  | error e s' =>
    rw [h] at hm
    rw [run_bind_error h]
    exact hm

theorem except_bind_eq_ok {x : Except ε α} {f : α → Except ε β} {b : β}
    : (x >>= f) = .ok b ↔ ∃ a, x = .ok a ∧ f a = .ok b := by
  cases x with
  | error e => simp [Bind.bind, Except.bind]
  | ok a => simp [Bind.bind, Except.bind]

end Exec
