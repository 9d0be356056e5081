import Runes.Term.Reacts

/-!
This module contains what a flush of the window and the other steps that its handlers are made of may
do to a terminal.
-/

namespace Runes
namespace Term

variable {ρ : Type}

theorem displayMaybeClearSelection_redraws (env : Env ρ) (s : World ρ)
    : Redraws s (displayMaybeClearSelection env s) := by
  unfold displayMaybeClearSelection
  extract_lets display grid s₁ contents
  have h₁ : Redraws s s₁ := .act trivial
  exact .ite fun _ => h₁.trans (.ite fun _ => .modifyDisplay fun _ => rfl)

theorem displayDrawScreen_redraws (env : Env ρ) (s : World ρ)
    : Redraws s (displayDrawScreen env s) := by
  unfold displayDrawScreen
  extract_lets s₁ grid s₂ s₃
  have h₁ : Redraws s s₁ := .ite fun _ => displayMaybeClearSelection_redraws env s
  have h₂ : Redraws s s₂ := .ite fun _ => h₁.trans .draw
  have h₃ : Redraws s₂ s₃ := .modifyScreen fun _ => rfl
  exact h₂.trans (h₃.trans (.modifyDisplay fun _ => rfl))

theorem windowCheckRecent_redraws (env : Env ρ) (s : World ρ)
    : Redraws s (windowCheckRecent env s).snd := by
  unfold windowCheckRecent
  extract_lets rate now last s₁
  split
  . exact .refl s
  . split
    . exact .refl s
    . next hdelaying =>
      have h₁ : Redraws s s₁ := .of_core rfl rfl
      split
      . refine h₁.trans (.arm .delay (a := .addTimer _ _) rfl rfl trivial ?_ ?_)
        . simp [Callback.IsWork]
        . intro running p hp
          have := hp.delay
          simp [core, s₁, hdelaying] at this
          exact this
      . exact h₁

theorem windowVisualBell_redraws (s : World ρ)
    : Redraws s (windowVisualBell s) := by
  unfold windowVisualBell
  extract_lets s₁ s₂ s₃
  have h₁ : Redraws s s₁ := .ite fun _ => .act trivial
  split
  . exact h₁
  . next hringing =>
    have hpaint : Redraws s₁ (act .paintForeground s₁) := .act trivial
    refine h₁.trans (hpaint.trans ?_)
    refine .arm .resetVisualBell (a := .addTimer _ _) rfl rfl trivial ?_ ?_
    . simp [Callback.IsWork]
    . intro running p hp
      have := hp.resetVisualBell
      simp [core, act, hringing] at this
      exact this

theorem windowAudibleBell_redraws (s : World ρ)
    : Redraws s (windowAudibleBell s) := by
  unfold windowAudibleBell
  extract_lets s₁
  split
  . have h₁ : Redraws s s₁ := .ite fun _ => .act trivial
    exact h₁.trans (.act trivial)
  . apply windowVisualBell_redraws s

theorem flushScreenFlags_redraws (s : World ρ)
    : Redraws s (flushScreenFlags s) := by
  unfold flushScreenFlags
  extract_lets s₁ s₂ s₃
  have h₁ : Redraws s s₁ :=
    .ite fun _ => (windowAudibleBell_redraws s).trans (.modifyScreen fun _ => rfl)
  have h₂ : Redraws s₁ s₂ :=
    .ite fun _ => (windowVisualBell_redraws s₁).trans (.modifyScreen fun _ => rfl)
  have h₃ : Redraws s₂ s₃ := .ite fun _ => (Redraws.act (by trivial)).trans (.modifyScreen fun _ => rfl)
  refine h₁.trans (h₂.trans (h₃.trans (.ite fun _ => ?_)))
  exact (Redraws.act (by trivial)).trans (.modifyScreen fun _ => rfl)

theorem windowFlush_redraws (env : Env ρ) (s : World ρ)
    : Redraws s (windowFlush env s) := by
  unfold windowFlush
  have hflush : Redraws s (act .flush s) := .act trivial
  have hrecent := hflush.trans (windowCheckRecent_redraws env _)
  split
  . next s₁ heq =>
    rw [heq] at hrecent
    exact hrecent
  . next s₁ heq =>
    rw [heq] at hrecent
    extract_lets s₂ s₃ s₄
    have h₂ : Redraws s s₂ := hrecent.trans (flushScreenFlags_redraws s₁)
    split
    . exact h₂
    . have h₃ : Redraws s₂ s₃ := (displayDrawScreen_redraws env s₂).trans (.act trivial)
      exact h₂.trans (h₃.trans (.of_core rfl rfl))

theorem displaySetSelection_redraws (env : Env ρ) (start stop : Loc) (s : World ρ)
    : Redraws s (displaySetSelection env start stop s) := by
  unfold displaySetSelection
  exact .modifyDisplay fun _ => rfl

theorem windowAcquireSelection_redraws (env : Env ρ) (s : World ρ)
    : Redraws s (windowAcquireSelection env s) := by
  unfold windowAcquireSelection
  extract_lets oldOwner s₁ gotSelection s₂ s₃
  have h₁ : Redraws s s₁ := .act (by trivial)
  have h₂ : Redraws s₁ s₂ := .of_core rfl rfl
  have h₃ : Redraws s₂ s₃ := .of_core rfl rfl
  split
  . exact .refl s
  . apply h₁.trans (h₂.trans (.ite fun _ => h₃.trans (.ite fun _ => .act (by trivial))))

theorem cancelMultiClickTimer_redraws {s : World ρ} {id : Nat}
    (hevent : s.term.w.multiClickTimerEvent = some id)
    : Redraws s
        (modifyWindow ({ · with multiClickTimerEvent := none })
          (termRefcntDec (loopTimerClear id s))) where
  held e running h := by
    have hmem := h.mem_pending_of_multiClickTimerEvent hevent
    apply (h.start hmem).finish
  shown h := ⟨h.grid, h.nonneg, h.rows, h.log⟩
  grid := rfl
  busy := rfl
  offset := rfl

theorem setMultiClickTimer_redraws {s s' : World ρ}
    (hevent : s.term.w.multiClickTimerEvent = none)
    (hcore : core s' = { core s with toLifetime := (core s).arm .multiClick })
    (hlog : s'.log =
      s.log ++ [.addTimer s.next (timerTimeout s.term.config.doubleClickRate)])
    : Redraws s s' := by
  refine .arm .multiClick hcore hlog trivial ?_ ?_
  . simp [Callback.IsWork]
  . intro running p hp
    rw [hp.multiClick]
    exact hevent

theorem restartMultiClickTimer_redraws (s : World ρ)
    : Redraws s (restartMultiClickTimer s) := by
  unfold restartMultiClickTimer
  cases hevent : s.term.w.multiClickTimerEvent with
  | none => exact setMultiClickTimer_redraws hevent rfl rfl
  | some id =>
    refine (cancelMultiClickTimer_redraws hevent).trans ?_
    apply setMultiClickTimer_redraws rfl rfl rfl

theorem scrolledOffset_bounds {grid : Grid} (hgrid : grid.Ok) (offset count : Int)
    : 0 ≤ scrolledOffset grid offset count ∧ scrolledOffset grid offset count ≤ grid.rowTop := by
  have htop := hgrid.rowTop
  have hnonneg := hgrid.nonneg
  unfold scrolledOffset
  dsimp only
  split <;> split <;> omega

end Term
end Runes
