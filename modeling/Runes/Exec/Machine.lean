/-!
This module contains machines that take a step for every input that is possible in their state, and
the rule by which something is shown of all states of all their runs.
-/

namespace Exec

structure Machine (σ ι : Type) where
  init : σ
  step : σ → ι → Option σ

namespace Machine

variable {σ ι : Type} {M : Machine σ ι} {ok : σ → ι → Prop} {s s' : σ}

/--
The states of the runs all of whose steps are `ok`.
-/
inductive Reaches (M : Machine σ ι) (ok : σ → ι → Prop) : σ → Prop where
  | init : Reaches M ok M.init
  | step {s s' : σ} {i : ι} (hs : Reaches M ok s) (hok : ok s i) (hstep : M.step s i = some s')
      : Reaches M ok s'

def Reachable (M : Machine σ ι) (s : σ) : Prop := M.Reaches (fun _ _ => True) s

theorem Reaches.invariant {P : σ → Prop} (hinit : P M.init)
    (hstep : ∀ s i s', P s → ok s i → M.step s i = some s' → P s') (h : M.Reaches ok s)
    : P s := by
  induction h with
  | init => exact hinit
  | step _ hok hs ih => exact hstep _ _ _ ih hok hs

def run (M : Machine σ ι) (s : σ) (inputs : List ι) : Option σ :=
  match inputs with
  | [] => some s
  | i :: inputs =>
    match M.step s i with
    | some s => M.run s inputs
    | none => none

/--
Every step of a run over a list of inputs is `ok`, as far as the inputs are possible.
-/
def RunOk (M : Machine σ ι) (ok : σ → ι → Prop) (s : σ) (inputs : List ι) : Prop :=
  match inputs with
  | [] => True
  | i :: inputs => ∀ s', M.step s i = some s' → ok s i ∧ M.RunOk ok s' inputs

instance RunOk.decidable [∀ s i, Decidable (ok s i)] (s : σ)
    : (inputs : List ι) → Decidable (M.RunOk ok s inputs)
  | [] => isTrue trivial
  | i :: inputs =>
    match hstep : M.step s i with
    | some s₁ =>
      have := RunOk.decidable s₁ inputs
      decidable_of_iff (ok s i ∧ M.RunOk ok s₁ inputs)
        ⟨fun h s' hs' => Option.some.inj (hstep.symm.trans hs') ▸ h, fun h => h s₁ hstep⟩
    | none => isTrue (fun s' hs' => by rw [hstep] at hs'; cases hs')

def Always (M : Machine σ ι) (P : σ → Prop) (s : σ) (inputs : List ι) : Prop :=
  match inputs with
  | [] => P s
  | i :: inputs => P s ∧ ∀ s', M.step s i = some s' → M.Always P s' inputs

/--
The machine with something that is recorded about its inputs. It only takes the steps that the record
allows.
-/
def record {γ : Type} (M : Machine σ ι) (start : γ) (next : σ → γ → ι → Option γ)
    : Machine (σ × γ) ι where
  init := (M.init, start)
  step s i :=
    match M.step s.fst i, next s.fst s.snd i with
    | some s', some g => some (s', g)
    | _, _ => none

theorem record_step {γ : Type} {start : γ} {next : σ → γ → ι → Option γ} {s s' : σ × γ} {i : ι}
    (h : (M.record start next).step s i = some s')
    : M.step s.fst i = some s'.fst ∧ next s.fst s.snd i = some s'.snd := by
  unfold record at h
  dsimp only at h
  split at h
  . next hstep hnext =>
    cases h
    exact ⟨hstep, hnext⟩
  . cases h

theorem Reaches.run {inputs : List ι} (h : M.Reaches ok s) (hok : M.RunOk ok s inputs)
    (hrun : M.run s inputs = some s')
    : M.Reaches ok s' := by
  induction inputs generalizing s with
  | nil =>
    cases hrun
    exact h
  | cons i inputs ih =>
    unfold Machine.run at hrun
    split at hrun
    . next s₁ hstep =>
      have ⟨hnow, hlater⟩ := hok s₁ hstep
      exact ih (h.step hnow hstep) hlater hrun
    . cases hrun

theorem exists_run {P : σ → Prop} [DecidablePred P] {inputs : List ι}
    (h : (M.run s inputs).map (fun s' => decide (P s')) = some true)
    : ∃ s', M.run s inputs = some s' ∧ P s' := by
  have ⟨s', hrun, hP⟩ := Option.map_eq_some_iff.mp h
  exact ⟨s', hrun, of_decide_eq_true hP⟩

theorem runOk_true (s : σ) (inputs : List ι) : M.RunOk (fun _ _ => True) s inputs := by
  induction inputs generalizing s with
  | nil => trivial
  | cons i inputs ih => exact fun s' _ => ⟨trivial, ih s'⟩

theorem Always.now {P : σ → Prop} {inputs : List ι} (h : M.Always P s inputs) : P s := by
  cases inputs with
  | nil => exact h
  | cons i inputs => exact h.left

theorem run_cons {i : ι} {inputs : List ι} (h : M.step s i = some s')
    : M.run s (i :: inputs) = M.run s' inputs := by
  rw [run, h]

/-- What a step that is `ok` keeps, a run keeps all of whose steps are. -/
theorem run_invariant {P : σ → Prop} {inputs : List ι}
    (hstep : ∀ s i s', P s → ok s i → M.step s i = some s' → P s') (hs : P s)
    (hok : M.RunOk ok s inputs) (hrun : M.run s inputs = some s')
    : P s' := by
  induction inputs generalizing s with
  | nil =>
    cases hrun
    exact hs
  | cons i inputs ih =>
    unfold Machine.run at hrun
    split at hrun
    . next s₁ hfirst =>
      have ⟨hnow, hlater⟩ := hok s₁ hfirst
      exact ih (hstep s i s₁ hs hnow hfirst) hlater hrun
    . cases hrun

theorem run_append {inputs : List ι} (h : M.run s inputs = some s') (later : List ι)
    : M.run s (inputs ++ later) = M.run s' later := by
  induction inputs generalizing s with
  | nil =>
    cases h
    rfl
  | cons i inputs ih =>
    unfold Machine.run at h
    split at h
    . next s₁ hfirst =>
      rw [List.cons_append, run_cons hfirst]
      exact ih h
    . cases h

/-- What a step keeps of a state and the inputs so far, a run keeps. -/
theorem run_past {P : List ι → σ → Prop} {past inputs : List ι}
    (hstep : ∀ past s i s', P past s → M.step s i = some s' → P (past ++ [i]) s') (hs : P past s)
    (hrun : M.run s inputs = some s')
    : P (past ++ inputs) s' := by
  induction inputs generalizing past s with
  | nil =>
    cases hrun
    rw [List.append_nil]
    exact hs
  | cons i inputs ih =>
    unfold Machine.run at hrun
    split at hrun
    . next s₁ hfirst =>
      rw [List.append_cons]
      exact ih (hstep past s i s₁ hs hfirst) hrun
    . cases hrun

/--
If every step that is `ok` lowers a measure, where `P` holds, a run of such steps is not longer than the
measure is at its start.
-/
theorem run_length_le {P : σ → Prop} {measure : σ → Nat} {inputs : List ι}
    (hstep : ∀ s i s', P s → ok s i → M.step s i = some s' → P s' ∧ measure s' < measure s)
    (hs : P s) (hok : M.RunOk ok s inputs) (hrun : M.run s inputs = some s')
    : inputs.length + measure s' ≤ measure s := by
  induction inputs generalizing s with
  | nil =>
    cases hrun
    simp
  | cons i inputs ih =>
    unfold Machine.run at hrun
    split at hrun
    . next s₁ hfirst =>
      have ⟨hnow, hlater⟩ := hok s₁ hfirst
      have ⟨hs₁, hless⟩ := hstep s i s₁ hs hnow hfirst
      have hle := ih hs₁ hlater hrun
      rw [List.length_cons]
      omega
    . cases hrun

/--
If the steps from states that are `Good` lead to where `P` holds exactly if they are `ok`, and are
`Good` then, a run stays where `P` holds exactly if all of its steps are `ok`.
-/
theorem always_iff_runOk (Good : σ → Prop) {P : σ → Prop} (himp : ∀ s, Good s → P s)
    (hok : ∀ s i s', Good s → M.step s i = some s' → ok s i → Good s')
    (honly : ∀ s i s', Good s → M.step s i = some s' → P s' → ok s i) (hs : Good s)
    (inputs : List ι)
    : M.Always P s inputs ↔ M.RunOk ok s inputs := by
  induction inputs generalizing s with
  | nil => exact iff_of_true (himp s hs) trivial
  | cons i inputs ih =>
    constructor
    . intro ⟨_, hrest⟩ s' hstep
      have hnow := honly s i s' hs hstep (hrest s' hstep).now
      exact ⟨hnow, (ih (hok s i s' hs hstep hnow)).mp (hrest s' hstep)⟩
    . intro h
      refine ⟨himp s hs, ?_⟩
      intro s' hstep
      have ⟨hnow, hrest⟩ := h s' hstep
      exact (ih (hok s i s' hs hstep hnow)).mpr hrest

end Machine

end Exec
