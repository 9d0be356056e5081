import Runes.Term.Lifetime
import Runes.Term.Stepped

/-!
This module contains when the window callback of a terminal is registered with the event loop: all the
time from the first step on, apart from while it runs and after it has closed the window.
-/

namespace Runes
namespace Term

variable {ρ : Type} {env : Env ρ} {s s' s'' : World ρ}

/-- Only callbacks of timers and of the pty are registered. -/
def RegistersOther (s s' : World ρ) : Prop :=
  ∃ new, s'.pending = s.pending ++ new ∧ ∀ e ∈ new, e.kind ≠ .windowEvent

namespace RegistersOther

theorem of_eq (h : s'.pending = s.pending) : RegistersOther s s' := ⟨[], by simpa using h, by simp⟩

theorem refl (s : World ρ) : RegistersOther s s := .of_eq rfl

theorem trans (h : RegistersOther s s') (h' : RegistersOther s' s'') : RegistersOther s s'' := by
  have ⟨new, heq, hnew⟩ := h
  have ⟨new', heq', hnew'⟩ := h'
  refine ⟨new ++ new', by rw [heq', heq, List.append_assoc], ?_⟩
  intro e he
  exact (List.mem_append.mp he).elim (hnew e) (hnew' e)

theorem ite {c : Prop} [Decidable c] (h : c → RegistersOther s s')
    : RegistersOther s (if c then s' else s) := by
  split
  . next hc => exact h hc
  . exact refl s

theorem one {e : Entry Callback} (h : s'.pending = s.pending ++ [e]) (he : e.kind ≠ .windowEvent)
    : RegistersOther s s' :=
  ⟨[e], h, by simpa using he⟩

theorem mem_pending (h : RegistersOther s s') {e : Entry Callback} (hkind : e.kind = .windowEvent)
    (he : e ∈ s'.pending)
    : e ∈ s.pending := by
  have ⟨new, heq, hnew⟩ := h
  rw [heq] at he
  exact (List.mem_append.mp he).elim id (fun hnewer => absurd hkind (hnew e hnewer))

end RegistersOther

theorem windowCheckRecent_registersOther (env : Env ρ) (s : World ρ)
    : RegistersOther s (windowCheckRecent env s).snd := by
  unfold windowCheckRecent
  extract_lets rate now last s₁ s₂
  split
  . exact .refl s
  . split
    . exact .refl s
    . split
      . exact .one (e := ⟨s.next, .delay⟩) rfl (by simp)
      . exact .of_eq rfl

theorem windowVisualBell_registersOther (s : World ρ)
    : RegistersOther s (windowVisualBell s) := by
  unfold windowVisualBell
  extract_lets s₁ s₂ s₃
  have h₁ : RegistersOther s s₁ := .ite fun _ => .of_eq rfl
  split
  . exact h₁
  . exact h₁.trans (.one (e := ⟨s₁.next, .resetVisualBell⟩) rfl (by simp))

theorem windowAudibleBell_registersOther (s : World ρ)
    : RegistersOther s (windowAudibleBell s) := by
  unfold windowAudibleBell
  extract_lets s₁
  have h₁ : RegistersOther s s₁ := .ite fun _ => .of_eq rfl
  split
  . exact h₁.trans (.of_eq rfl)
  . exact windowVisualBell_registersOther s

theorem flushScreenFlags_registersOther (s : World ρ)
    : RegistersOther s (flushScreenFlags s) := by
  unfold flushScreenFlags
  extract_lets s₁ s₂ s₃
  have h₁ : RegistersOther s s₁ := by
    refine .ite fun _ => ?_
    exact (windowAudibleBell_registersOther s).trans (.of_eq rfl)
  have h₂ : RegistersOther s₁ s₂ := by
    refine .ite fun _ => ?_
    exact (windowVisualBell_registersOther s₁).trans (.of_eq rfl)
  have h₃ : RegistersOther s₂ s₃ := .ite fun _ => .of_eq rfl
  exact h₁.trans (h₂.trans (h₃.trans (.ite fun _ => .of_eq rfl)))

theorem displayMaybeClearSelection_registersOther (env : Env ρ) (s : World ρ)
    : RegistersOther s (displayMaybeClearSelection env s) := by
  unfold displayMaybeClearSelection
  extract_lets display grid s₁ contents
  refine .ite fun _ => ?_
  have h₁ : RegistersOther s s₁ := .of_eq rfl
  exact h₁.trans (.ite fun _ => .of_eq rfl)

theorem displayDrawScreen_registersOther (env : Env ρ) (s : World ρ)
    : RegistersOther s (displayDrawScreen env s) := by
  unfold displayDrawScreen
  extract_lets s₁ grid s₂ s₃
  have h₁ : RegistersOther s s₁ := .ite fun _ => displayMaybeClearSelection_registersOther env s
  have h₂ : RegistersOther s s₂ := .ite fun _ => h₁.trans (.of_eq rfl)
  exact h₂.trans (.of_eq rfl)

theorem windowFlush_registersOther (env : Env ρ) (s : World ρ)
    : RegistersOther s (windowFlush env s) := by
  have hrecent := windowCheckRecent_registersOther env (act .flush s)
  unfold windowFlush
  split
  . next s₁ heq =>
    rw [heq] at hrecent
    exact hrecent
  . next s₁ heq =>
    rw [heq] at hrecent
    extract_lets s₂ s₃ s₄
    have h₂ : RegistersOther s s₂ := hrecent.trans (flushScreenFlags_registersOther s₁)
    split
    . exact h₂
    . have h₃ : RegistersOther s₂ s₃ := (displayDrawScreen_registersOther env s₂).trans (.of_eq rfl)
      exact h₂.trans (h₃.trans (.of_eq rfl))

-- The identity of the callback that the input starts.
def Input.entry (input : Input) : Option Nat :=
  match input with
  | .windowReady id => some id
  | .ptyReady id _ => some id
  | .timerExpired id => some id
  | _ => none

theorem mem_delEvent {id : Nat} {e : Entry Callback}
    : e ∈ (delEvent id s).pending ↔ e ∈ s.pending ∧ e.id ≠ id := by
  simp [delEvent]

/--
Between the steps of the window callback, every other callback leaves it registered as it is.
-/
theorem Stepped.mem_pending {input : Input} {id : Nat} (h : Stepped env s input s')
    (hinput : input.entry = some id) (hidle : s'.busy = none) {e : Entry Callback}
    (hkind : e.kind = .windowEvent) (he : e ∈ s'.pending)
    : e ∈ s.pending ∧ e.id ≠ id := by
  have hflush : ∀ s₁ : World ρ, s₁.pending = (delEvent id s).pending →
      e ∈ (windowFlush env s₁).pending → e ∈ s.pending ∧ e.id ≠ id := by
    intro s₁ hpending hmem
    have hbefore := (windowFlush_registersOther env s₁).mem_pending hkind hmem
    rw [hpending] at hbefore
    exact mem_delEvent.mp hbefore
  cases h with
  | opens hidle' hmem => cases hidle
  | handles hbusy hopen => cases hinput
  | closes hbusy hclose => cases hinput
  | drains hbusy => cases hinput
  | @reads id' bytes hidle' hmem hne =>
    cases hinput
    rcases List.mem_append.mp he with he | he
    . exact hflush (ptyProcess env bytes (delEvent id s)) rfl he
    . rw [List.mem_singleton.mp he] at hkind
      cases hkind
  | ends hidle' hmem hanswer =>
    cases hinput
    exact mem_delEvent.mp he
  | delay hidle' hmem =>
    cases hinput
    exact hflush (modifyWindow ({ · with delaying := false }) (delEvent id s)) rfl he
  | resetVisualBell hidle' hmem =>
    cases hinput
    exact hflush
      (act .paintBackground (modifyWindow ({ · with visualBellIsRinging := false }) (delEvent id s)))
      rfl he
  | multiClick hidle' hmem =>
    cases hinput
    exact mem_delEvent.mp he

-- While the window callback runs, it is not registered, and no handler registers it.
theorem Stepped.not_registered {filtered : Bool} {e : Event} (hs : Alive s)
    (h : Stepped env s (.event filtered e) s') (hidle : s'.busy = none) {a : Entry Callback}
    (ha : a ∈ s'.pending)
    : a.kind ≠ .windowEvent := by
  have hchanges := windowHandleEvent_changes env filtered e s
  cases h with
  | handles hbusy hopen =>
    rw [hchanges.busy, hbusy] at hidle
    cases hidle
  | @closes id _ _ hbusy hclose =>
    unfold Alive at hs
    rw [running_of_some hbusy] at hs
    have hheld := hchanges.held hs
    have ⟨p, hp⟩ := hheld.named
    have hnone := hp.work ⟨id, .windowEvent⟩ (List.mem_singleton_self _) (Or.inl rfl)
    intro hkind
    have hmem := (hp.slots a.kind a.id).mp ha
    rw [hkind, hnone] at hmem
    cases hmem

end Term
end Runes
