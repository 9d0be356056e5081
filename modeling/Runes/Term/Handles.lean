import Runes.Term.Flushed

/-!
This module contains for every handler of the window, and for every step of the machine, in which
states the window is flushed in it.
-/

namespace Runes
namespace Term

variable {ρ : Type} {env : Env ρ} {s s' : World ρ}

theorem windowWriteToPty_handles (buf : List UInt8) (s : World ρ)
    : Handles env s (windowWriteToPty env buf s) := by
  unfold windowWriteToPty
  extract_lets s₁
  have h₁ : Handles env s s₁ := .act s ⟨rfl, rfl⟩
  refine h₁.trans (.ite fun _ => ?_)
  exact .flush (.of_eq rfl rfl rfl)

theorem windowVisibleScroll_handles (count : Int) (s : World ρ)
    : Handles env s (windowVisibleScroll env count s) := by
  unfold windowVisibleScroll
  extract_lets oldOffset offset s₁
  have h₁ : Handles env s s₁ := .still (.of_eq rfl rfl rfl)
  split
  . exact h₁
  . exact h₁.trans (.flush (.of_eq rfl rfl rfl))

theorem windowAcquireSelection_still (env : Env ρ) (s : World ρ)
    : Still s (windowAcquireSelection env s) := by
  unfold windowAcquireSelection
  extract_lets oldOwner s₁ gotSelection s₂ s₃
  have h₁ : Still s s₁ := .act ⟨rfl, rfl⟩
  have h₂ : Still s₁ s₂ := .of_eq rfl rfl rfl
  have h₃ : Still s₂ s₃ := .of_eq rfl rfl rfl
  split
  . exact .refl s
  . exact h₁.trans (h₂.trans (.ite fun _ => h₃.trans (.ite fun _ => .act ⟨rfl, rfl⟩)))

theorem restartMultiClickTimer_still (s : World ρ)
    : Still s (restartMultiClickTimer s) := by
  unfold restartMultiClickTimer
  cases s.term.w.multiClickTimerEvent with
  | none => exact ⟨rfl, rfl, [_], rfl, by simp [Action.IsStill, Action.isDraw, Action.isSize]⟩
  | some id => exact ⟨rfl, rfl, [_], rfl, by simp [Action.IsStill, Action.isDraw, Action.isSize]⟩

theorem windowStartSelectionLoc_handles (start : Loc) (s : World ρ)
    : Handles env s (windowStartSelectionLoc env start s) :=
  .flush (.of_eq rfl rfl rfl)

theorem windowUpdateSelectionLoc_handles (stop : Loc) (s : World ρ)
    : Handles env s (windowUpdateSelectionLoc env stop s) := by
  unfold windowUpdateSelectionLoc
  extract_lets s₁
  refine .ite fun _ => .ite fun _ => ?_
  have h₁ : Handles env s s₁ := .still (windowAcquireSelection_still env s)
  exact h₁.trans (.flush (.of_eq rfl rfl rfl))

theorem windowHandleMultiClick_handles (xpixel ypixel : Int) (s : World ρ)
    : Handles env s (windowHandleMultiClick env xpixel ypixel s) := by
  unfold windowHandleMultiClick
  extract_lets s₁ s₂ loc s₃ s₄
  have h₁ : Handles env s s₁ := .still (restartMultiClickTimer_still s)
  have h₂ : Handles env s₁ s₂ := .still (.of_eq rfl rfl rfl)
  refine h₁.trans (h₂.trans (.ite fun _ => ?_))
  split
  . have h₃ : Handles env s₂ s₃ := windowStartSelectionLoc_handles _ s₂
    exact h₃.trans (windowUpdateSelectionLoc_handles _ s₃)
  . have h₄ : Handles env s₂ s₄ := windowStartSelectionLoc_handles _ s₂
    exact h₄.trans (windowUpdateSelectionLoc_handles _ s₄)

theorem windowHandleBuiltinKeypress_handles (sym : KeySym) (state : Modifiers) (s : World ρ)
    : Handles env s (windowHandleBuiltinKeypress env sym state s).snd := by
  unfold windowHandleBuiltinKeypress
  split
  . exact .act s ⟨rfl, rfl⟩
  . exact windowVisibleScroll_handles _ s
  . exact windowVisibleScroll_handles _ s
  . exact .refl s

theorem chars_handles (e : KeyEvent) (buf : Option (List UInt8)) (s : World ρ)
    : Handles env s (windowHandleKeyEvent.chars env e buf s) := by
  unfold windowHandleKeyEvent.chars
  split
  . extract_lets s₁
    have h₁ : Handles env s s₁ := .ite fun _ => windowWriteToPty_handles [0x1b] s
    exact h₁.trans (windowWriteToPty_handles _ s₁)
  . exact .refl s

theorem symbol_handles (e : KeyEvent) (s : World ρ) (sym : KeySym) (buf : Option (List UInt8))
    : Handles env s (windowHandleKeyEvent.symbol env e s sym buf) := by
  have hbuiltin : Handles env s (windowHandleBuiltinKeypress env sym e.state s).snd :=
    windowHandleBuiltinKeypress_handles sym e.state s
  unfold windowHandleKeyEvent.symbol
  split
  . next s₁ heq =>
    rw [heq] at hbuiltin
    exact hbuiltin.trans (chars_handles e buf s₁)
  . next s₁ heq =>
    rw [heq] at hbuiltin
    split
    . exact hbuiltin.trans (windowWriteToPty_handles _ s₁)
    . exact hbuiltin.trans (chars_handles e buf s₁)

theorem windowHandleKeyEvent_handles (e : KeyEvent) (s : World ρ)
    : Handles env s (windowHandleKeyEvent env e s) := by
  unfold windowHandleKeyEvent
  refine .ite fun _ => ?_
  split
  . exact symbol_handles e s _ _
  . exact symbol_handles e s _ _
  . exact chars_handles e _ s
  . exact .refl s

theorem windowHandleBuiltinButtonPress_handles (e : ButtonEvent) (s : World ρ)
    : Handles env s (windowHandleBuiltinButtonPress env e s).snd := by
  unfold windowHandleBuiltinButtonPress
  extract_lets acted s₁ s₂
  have hacted : Handles env s acted := .act s ⟨rfl, rfl⟩
  split
  . have h₁ : Handles env acted s₁ := windowStartSelectionLoc_handles _ acted
    exact hacted.trans (h₁.trans (.still (.of_eq rfl rfl rfl)))
  . exact hacted.trans (.act acted ⟨rfl, rfl⟩)
  . exact hacted.trans (windowUpdateSelectionLoc_handles _ acted)
  . exact hacted.trans (windowVisibleScroll_handles _ acted)
  . exact hacted.trans (windowVisibleScroll_handles _ acted)
  . have h₂ : Handles env acted s₂ := windowHandleMultiClick_handles e.x e.y acted
    -- the rest does not look into the click
    clear_value s₂
    exact hacted.trans (h₂.trans (.still (.of_eq rfl rfl rfl)))
  . exact .refl s

theorem report_handles (e : ButtonEvent) (s : World ρ)
    : Handles env s (windowHandleButtonEvent.report env e s) := by
  unfold windowHandleButtonEvent.report
  extract_lets scr wanted type
  split
  . split
    . next button _ =>
      have h₁ : Handles env s (act (.mouseReport type button) s) := .act s ⟨rfl, rfl⟩
      exact h₁.trans (.ite fun _ => windowWriteToPty_handles _ _)
    . exact .refl s
  . exact windowHandleBuiltinButtonPress_handles e s

theorem windowHandleButtonEvent_handles (e : ButtonEvent) (s : World ρ)
    : Handles env s (windowHandleButtonEvent env e s) := by
  have hbuiltin : Handles env s (windowHandleBuiltinButtonPress env e s).snd :=
    windowHandleBuiltinButtonPress_handles e s
  unfold windowHandleButtonEvent
  split
  . split
    . next s₁ heq =>
      rw [heq] at hbuiltin
      exact hbuiltin
    . next s₁ heq =>
      rw [heq] at hbuiltin
      exact hbuiltin.trans (report_handles e s₁)
  . exact report_handles e s

theorem windowHandleMotionEvent_handles (e : MotionEvent) (s : World ρ)
    : Handles env s (windowHandleMotionEvent env e s) := by
  unfold windowHandleMotionEvent
  extract_lets scr loc response s₁ s₂
  have h₁ : Handles env s s₁ := .act s ⟨rfl, rfl⟩
  have h₂ : Handles env s₁ s₂ := windowWriteToPty_handles response s₁
  split
  . exact .ite fun _ => h₁.trans (h₂.trans (.still (.of_eq rfl rfl rfl)))
  . exact .ite fun _ => windowUpdateSelectionLoc_handles _ s

theorem windowHandleFocusEvent_handles (e : FocusEvent) (s : World ρ)
    : Handles env s (windowHandleFocusEvent env e s) := by
  unfold windowHandleFocusEvent
  extract_lets s₁
  have h₁ : Handles env s s₁ := .act s ⟨rfl, rfl⟩
  split
  . exact .refl s
  . split
    . exact .refl s
    . split
      . exact .refl s
      . exact h₁.trans (.flush (.of_eq rfl rfl rfl))

theorem windowHandleSelectionNotifyEvent_handles (e : SelectionEvent) (s : World ρ)
    : Handles env s (windowHandleSelectionNotifyEvent env e s) := by
  unfold windowHandleSelectionNotifyEvent
  split
  . exact .ite fun _ => .act s ⟨rfl, rfl⟩
  . extract_lets s₁ s₂
    have h₁ : Handles env s s₁ := .ite fun _ => windowWriteToPty_handles _ s
    have h₂ : Handles env s₁ s₂ := windowWriteToPty_handles _ s₁
    exact h₁.trans (h₂.trans (.ite fun _ => windowWriteToPty_handles _ s₂))

theorem windowHandleSelectionRequestEvent_handles (target : SelectionTarget) (s : World ρ)
    : Handles env s (windowHandleSelectionRequestEvent target s) := by
  have hcontents : Handles env s (windowHandleSelectionRequestEvent.contents s) := by
    unfold windowHandleSelectionRequestEvent.contents
    split
    . exact .act s ⟨rfl, rfl⟩
    . exact .refl s
  unfold windowHandleSelectionRequestEvent
  split
  . exact Handles.trans (.act s ⟨rfl, rfl⟩) (.act _ ⟨rfl, rfl⟩)
  . exact hcontents.trans (.act _ ⟨rfl, rfl⟩)
  . exact hcontents.trans (.act _ ⟨rfl, rfl⟩)
  . exact .act s ⟨rfl, rfl⟩

theorem windowHandleSelectionClearEvent_handles (s : World ρ)
    : Handles env s (windowHandleSelectionClearEvent env s) :=
  .flush (.of_eq rfl rfl rfl)

-- What a step does first. Nothing else gives the window another size or the terminal another grid.
def resized (env : Env ρ) (s : World ρ) (input : Input) : World ρ :=
  match input with
  | .event false (.configure e later) =>
    if e.border then
      windowResizeWindow env (later.getLastD e).width (later.getLastD e).height s
    else
      s
  | .ptyReady id (some (byte :: bytes)) => ptyProcess env (byte :: bytes) (delEvent id s)
  | _ => s

theorem windowHandleEvent_handles (filtered : Bool) (e : Event) (s : World ρ)
    : Handles env (resized env s (.event filtered e)) (windowHandleEvent env filtered e s).snd := by
  cases filtered with
  | true => cases e <;> exact .refl s
  | false =>
    cases e with
    | key e => exact windowHandleKeyEvent_handles e s
    | button e => exact windowHandleButtonEvent_handles e s
    | motion e => exact windowHandleMotionEvent_handles e s
    | expose => exact .flush (.refl s)
    | configure e later => exact .refl _
    | focus e => exact windowHandleFocusEvent_handles e s
    | selectionNotify e => exact windowHandleSelectionNotifyEvent_handles e s
    | selectionRequest target => exact windowHandleSelectionRequestEvent_handles target s
    | selectionClear => exact windowHandleSelectionClearEvent_handles s
    | clientMessage a =>
      cases a with
      | deleteWindow => exact .refl s
      | ping => exact .act s ⟨rfl, rfl⟩
      | other => exact .refl s
    | other => exact .refl s

theorem termRefcntDec_handles (h : Still s s')
    : Handles env s (termRefcntDec (windowFlush env s')) :=
  Handles.trans (.flush h) (.still (.of_eq rfl rfl rfl))

theorem handles_of_stepped {input : Input} (h : Stepped env s input s')
    : Handles env (resized env s input) s' := by
  cases h with
  | opens _ _ => exact .still (.of_eq rfl rfl rfl)
  | handles _ _ => exact windowHandleEvent_handles _ _ s
  | closes _ _ =>
    refine (windowHandleEvent_handles _ _ s).trans (.still ?_)
    exact Still.trans (.act (a := .hangup) ⟨rfl, rfl⟩) (.of_eq rfl rfl rfl)
  | drains _ => exact .still (.of_eq rfl rfl rfl)
  | @reads id bytes _ _ hne =>
    cases bytes with
    | nil => exact absurd rfl hne
    | cons byte bytes => exact Handles.trans (.flush (.refl _)) (.still (.of_eq rfl rfl rfl))
  | @ends id answer pty _ _ hanswer =>
    have hnone : resized env s (.ptyReady id answer) = s := by
      cases answer with
      | none => rfl
      | some bytes =>
        have hbytes : bytes = [] := hanswer
        rw [hbytes]
        rfl
    rw [hnone]
    apply Handles.still
    have hclose : Still s (act .requestClose s) := .act ⟨rfl, rfl⟩
    exact hclose.trans (.of_eq rfl rfl rfl)
  | delay _ _ =>
    exact termRefcntDec_handles (.of_eq rfl rfl rfl)
  | resetVisualBell _ _ =>
    have hpaint : Still s (act .paintBackground s) := .act ⟨rfl, rfl⟩
    exact termRefcntDec_handles (hpaint.trans (.of_eq rfl rfl rfl))
  | multiClick _ _ => exact .still (.of_eq rfl rfl rfl)

end Term
end Runes
