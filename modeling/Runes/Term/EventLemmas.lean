import Runes.Term.Does

/-!
This module contains for every event, apart from a new size of the window, what its handler does.
-/

namespace Runes
namespace Term

variable {ρ : Type}

def wantsButton (env : Env ρ) (e : ButtonEvent) (scr : Screen ρ) : Bool :=
  if e.press then env.vt100.wantsButtonPress scr else env.vt100.wantsButtonRelease scr

def builtinActs (e : ButtonEvent) : List PointerAct :=
  match e.press, e.button with
  | true, .button1 => [.builtin, .mouseDown true]
  | true, .button2 => [.builtin]
  | true, .button3 => [.builtin]
  | true, .button4 => [.builtin]
  | true, .button5 => [.builtin]
  | false, .button1 => [.builtin, .click, .mouseDown false]
  | _, _ => []

def reportActs (env : Env ρ) (e : ButtonEvent) (scr : Screen ρ) : List PointerAct :=
  if wantsButton env e scr then
    match e.button.report with
    | some button => [.report (if e.press then .press else .release) button]
    | none => []
  else
    builtinActs e

-- What the buttons cause in `runes_window_handle_button_event`.
def buttonActs (env : Env ρ) (e : ButtonEvent) (s : World ρ) : List PointerAct :=
  if e.state.shift then
    match windowHandleBuiltinButtonPress env e s with
    | (true, _) => builtinActs e
    | (false, s) => builtinActs e ++ reportActs env e s.term.scr
  else
    reportActs env e s.term.scr

def wantsMotion (env : Env ρ) (s : World ρ) : Bool :=
  env.vt100.wantsAnyMotion s.term.scr
    || (env.vt100.wantsButtonMotion s.term.scr && s.term.w.mouseDown)

def motionActs (env : Env ρ) (e : MotionEvent) (s : World ρ) : List PointerAct :=
  if wantsMotion env s then
    if reportedMousePosition e.x e.y s ≠ s.term.w.lastReportedMousePosition then
      [.report .motion e.state.report]
    else
      []
  else
    []

def eventActs (env : Env ρ) (filtered : Bool) (e : Event) (s : World ρ) : List PointerAct :=
  match filtered, e with
  | false, .button e => buttonActs env e s
  | false, .motion e => motionActs env e s
  | _, _ => []

-- The places that a built-in action selects, if it is the click with this number.
def builtinLocs (vt : VT100 ρ) (e : ButtonEvent) (clicks : UInt32) (s : World ρ) (scr : Screen ρ)
    : List Loc :=
  let loc := windowGetMousePosition e.x e.y s
  match e.press, e.button with
  | true, .button1 => [loc]
  | true, .button3 => if s.term.display.hasSelection then [loc] else []
  | false, .button1 => clickLocs vt clicks loc scr
  | _, _ => []

-- The places that a button selects. With the shift key, the built-in action may come twice.
def buttonLocs (env : Env ρ) (e : ButtonEvent) (s : World ρ) (scr : Screen ρ) : List Loc :=
  let clicks := s.term.w.multiClicks
  let builtin := windowHandleBuiltinButtonPress env e s
  if e.state.shift then
    if builtin.fst || wantsButton env e builtin.snd.term.scr then
      builtinLocs env.vt100 e (clicks + 1) s scr
    else
      builtinLocs env.vt100 e (clicks + 1) s scr ++ builtinLocs env.vt100 e (clicks + 2) s scr
  else if wantsButton env e s.term.scr then
    []
  else
    builtinLocs env.vt100 e (clicks + 1) s scr

def eventLocs (env : Env ρ) (filtered : Bool) (e : Event) (s : World ρ) (scr : Screen ρ)
    : List Loc :=
  match filtered, e with
  | false, .button e => buttonLocs env e s scr
  | false, .motion e =>
    if s.term.w.mouseDown && s.term.display.hasSelection && !wantsMotion env s then
      [windowGetMousePosition e.x e.y s]
    else
      []
  | _, _ => []

section

variable {env : Env ρ} {sel : Loc → Prop}

theorem windowHandleBuiltinKeypress_does (sym : KeySym) (state : Modifiers) (s : World ρ)
    : Does env sel [] s (windowHandleBuiltinKeypress env sym state s).snd := by
  unfold windowHandleBuiltinKeypress
  split
  . exact .act s rfl rfl
  . apply windowVisibleScroll_does _ s
  . apply windowVisibleScroll_does _ s
  . exact .refl s

theorem chars_does (e : KeyEvent) (buf : Option (List UInt8)) (s : World ρ)
    : Does env sel [] s (windowHandleKeyEvent.chars env e buf s) := by
  unfold windowHandleKeyEvent.chars
  split
  . extract_lets s₁
    have h₁ : Does env sel [] s s₁ := .ite fun _ => windowWriteToPty_does [0x1b] s
    exact h₁.trans (windowWriteToPty_does _ s₁)
  . exact .refl s

theorem windowHandleKeyEvent_does (e : KeyEvent) (s : World ρ)
    : Does env sel [] s (windowHandleKeyEvent env e s) := by
  have hsymbol : ∀ sym buf, Does env sel [] s (windowHandleKeyEvent.symbol env e s sym buf) := by
    intro sym buf
    have hbuiltin : Does env sel [] s (windowHandleBuiltinKeypress env sym e.state s).snd :=
      windowHandleBuiltinKeypress_does sym e.state s
    unfold windowHandleKeyEvent.symbol
    split
    . next s₁ heq =>
      rw [heq] at hbuiltin
      exact hbuiltin.trans (chars_does e buf s₁)
    . next s₁ heq =>
      rw [heq] at hbuiltin
      split
      . exact hbuiltin.trans (windowWriteToPty_does _ s₁)
      . exact hbuiltin.trans (chars_does e buf s₁)
  unfold windowHandleKeyEvent
  split
  . split
    . exact hsymbol _ _
    . exact hsymbol _ _
    . apply chars_does e _ s
    . exact .refl s
  . exact .refl s

theorem windowHandleBuiltinButtonPress_does (e : ButtonEvent) (s : World ρ)
    (hsel : ∀ scr : Screen ρ, scr.grid = s.term.scr.grid →
      ∀ loc ∈ builtinLocs env.vt100 e (s.term.w.multiClicks + 1) s scr, sel loc)
    : Does env sel (builtinActs e) s (windowHandleBuiltinButtonPress env e s).snd := by
  unfold windowHandleBuiltinButtonPress builtinActs
  unfold builtinLocs at hsel
  extract_lets acted s₁ s₂
  have hacted : Does env sel [.builtin] s acted := .builtin s
  cases hpress : e.press with
  | true =>
    cases hbutton : e.button with
    | button1 =>
      simp only [hpress, hbutton] at hsel
      have h₁ : Does env sel [] acted s₁ :=
        windowStartSelectionLoc_does acted (hsel _ rfl _ (List.mem_singleton_self _))
      exact hacted.trans (h₁.trans (.mouseDown true s₁))
    | button2 => exact hacted.trans (.act acted rfl rfl)
    | button3 =>
      simp only [hpress, hbutton] at hsel
      refine hacted.trans (windowUpdateSelectionLoc_does acted fun hselection => ?_)
      have hselection' : s.term.display.hasSelection = true := hselection
      apply hsel _ rfl
      rw [if_pos hselection']
      apply List.mem_singleton_self
    | button4 => exact hacted.trans (windowVisibleScroll_does _ acted)
    | button5 => exact hacted.trans (windowVisibleScroll_does _ acted)
    | other n => exact .refl s
  | false =>
    cases hbutton : e.button with
    | button1 =>
      simp only [hpress, hbutton] at hsel
      have h₂ : Does env sel [.click] acted s₂ := windowHandleMultiClick_does e.x e.y acted hsel
      exact hacted.trans (h₂.trans (.mouseDown false s₂))
    | _ => exact .refl s

theorem report_does (e : ButtonEvent) (s : World ρ)
    (hsel : wantsButton env e s.term.scr = false → ∀ scr : Screen ρ, scr.grid = s.term.scr.grid →
      ∀ loc ∈ builtinLocs env.vt100 e (s.term.w.multiClicks + 1) s scr, sel loc)
    : Does env sel (reportActs env e s.term.scr) s (windowHandleButtonEvent.report env e s) := by
  unfold windowHandleButtonEvent.report reportActs
  extract_lets scr wanted type
  have hwanted : wantsButton env e s.term.scr = wanted := rfl
  rw [hwanted] at hsel ⊢
  split
  . cases e.button.report with
    | some button =>
      have h₁ : Does env sel [.report type button] s _ := .report type button s
      suffices h : Does env sel [] (act (.mouseReport type button) s) _ from h₁.trans h
      exact .ite fun _ => windowWriteToPty_does _ _
    | none => exact .refl s
  . next hwants => exact windowHandleBuiltinButtonPress_does e s (hsel (by simpa using hwants))

-- The release of the first button is not reported as handled, but it has been counted.
theorem windowHandleBuiltinButtonPress_release (env : Env ρ) {e : ButtonEvent}
    (hpress : e.press = false) (hbutton : e.button = .button1) (s : World ρ)
    : (windowHandleBuiltinButtonPress env e s).snd.term.w.multiClicks = s.term.w.multiClicks + 1
        ∧ geometry (windowHandleBuiltinButtonPress env e s).snd = geometry s := by
  have hdoes : Does env (fun _ => True) (builtinActs e) s
      (windowHandleBuiltinButtonPress env e s).snd :=
    windowHandleBuiltinButtonPress_does e s (fun _ _ _ _ => trivial)
  constructor
  . have hclicks := congrArg Pointer.multiClicks hdoes.pointer
    simp only [builtinActs, hpress, hbutton] at hclicks
    exact hclicks
  . have hgeometry := windowHandleMultiClick_geometry env e.x e.y (act .builtinButton s)
    simp only [windowHandleBuiltinButtonPress, hpress, hbutton]
    exact hgeometry

theorem builtinLocs_again (env : Env ρ) (e : ButtonEvent) (s : World ρ)
    (hfst : (windowHandleBuiltinButtonPress env e s).fst = false) (scr : Screen ρ)
    : builtinLocs env.vt100 e ((windowHandleBuiltinButtonPress env e s).snd.term.w.multiClicks + 1)
          (windowHandleBuiltinButtonPress env e s).snd scr
        =
      builtinLocs env.vt100 e (s.term.w.multiClicks + 2) s scr := by
  cases hpress : e.press with
  | true =>
    cases hbutton : e.button with
    | other n => simp [builtinLocs, hpress, hbutton]
    | _ => simp [windowHandleBuiltinButtonPress, hpress, hbutton] at hfst
  | false =>
    cases hbutton : e.button with
    | button1 =>
      have ⟨hclicks, hgeometry⟩ := windowHandleBuiltinButtonPress_release env hpress hbutton s
      have htwo : s.term.w.multiClicks + 1 + 1 = s.term.w.multiClicks + 2 := UInt32.add_assoc _ 1 1
      unfold builtinLocs
      rw [windowGetMousePosition_congr hgeometry, hclicks, htwo]
      simp only [hpress, hbutton]
    | _ => simp [builtinLocs, hpress, hbutton]

theorem windowHandleButtonEvent_does (e : ButtonEvent) (s : World ρ)
    (hsel : ∀ scr : Screen ρ, scr.grid = s.term.scr.grid → ∀ loc ∈ buttonLocs env e s scr, sel loc)
    : Does env sel (buttonActs env e s) s (windowHandleButtonEvent env e s) := by
  have hagain := builtinLocs_again env e s
  unfold windowHandleButtonEvent buttonActs
  unfold buttonLocs at hsel
  extract_lets clicks builtin at hsel
  split
  . next hshift =>
    simp only [if_pos hshift] at hsel
    have hfirst : Does env sel (builtinActs e) s builtin.snd := by
      apply windowHandleBuiltinButtonPress_does
      intro scr hgrid loc hloc
      apply hsel scr hgrid
      split
      . exact hloc
      . exact List.mem_append_left _ hloc
    have hbuiltin : windowHandleBuiltinButtonPress env e s = (builtin.fst, builtin.snd) := rfl
    rw [hbuiltin]
    cases hhandled : builtin.fst with
    | true => exact hfirst
    | false =>
      refine hfirst.trans (report_does e builtin.snd fun hwants scr hgrid loc hloc => ?_)
      rw [hagain hhandled scr] at hloc
      apply hsel scr (hgrid.trans hfirst.reacts.grid)
      rw [hhandled, hwants]
      exact List.mem_append_right _ hloc
  . next hshift =>
    simp only [if_neg hshift] at hsel
    apply report_does e s
    intro hwants scr hgrid loc hloc
    apply hsel scr hgrid
    rw [if_neg (by simpa using hwants)]
    exact hloc

theorem wantsMotion_iff (s : World ρ)
    : wantsMotion env s = true
        ↔ env.vt100.wantsAnyMotion s.term.scr = true
          ∨ (env.vt100.wantsButtonMotion s.term.scr = true ∧ s.term.w.mouseDown = true) := by
  simp [wantsMotion]

theorem windowHandleMotionEvent_does (e : MotionEvent) (s : World ρ)
    (hsel : s.term.w.mouseDown = true → s.term.display.hasSelection = true →
      wantsMotion env s = false → sel (windowGetMousePosition e.x e.y s))
    : Does env sel (motionActs env e s) s (windowHandleMotionEvent env e s) := by
  unfold windowHandleMotionEvent motionActs
  extract_lets scr loc response s₁ s₂
  have h₁ : Does env sel [.report .motion e.state.report] s s₁ := .report _ _ s
  have h₂ : Does env sel [] s₁ s₂ := windowWriteToPty_does response s₁
  have h₃ : Does env sel [] s₂ (modifyWindow ({ · with lastReportedMousePosition := loc }) s₂) :=
    .window ⟨by simp, by simp⟩ s₂
  by_cases hwants : wantsMotion env s = true
  . rw [if_pos hwants, if_pos ((wantsMotion_iff s).mp hwants)]
    split
    . exact h₁.trans (h₂.trans h₃)
    . exact .refl s
  . rw [if_neg hwants, if_neg (fun h => hwants ((wantsMotion_iff s).mpr h))]
    have hwants' : wantsMotion env s = false := by simpa using hwants
    refine .ite fun hdown => windowUpdateSelectionLoc_does s fun hselection => ?_
    exact hsel hdown hselection hwants'

theorem windowHandleFocusEvent_does (e : FocusEvent) (s : World ρ)
    : Does env sel [] s (windowHandleFocusEvent env e s) := by
  unfold windowHandleFocusEvent
  extract_lets s₁
  have h₁ : Does env sel [] s s₁ := .act s rfl rfl
  have h₂ : Does env sel [] s₁ (modifyDisplay ({ · with unfocused := !e.focusIn }) s₁) :=
    .display ⟨by simp, by simp⟩ s₁
  split
  . exact .refl s
  . split
    . exact .refl s
    . split
      . exact .refl s
      . exact h₁.trans (h₂.trans (.flush _))

theorem windowHandleSelectionNotifyEvent_does (e : SelectionEvent) (s : World ρ)
    : Does env sel [] s (windowHandleSelectionNotifyEvent env e s) := by
  unfold windowHandleSelectionNotifyEvent
  split
  . exact .ite fun _ => .act s rfl rfl
  . extract_lets s₁ s₂
    have h₁ : Does env sel [] s s₁ := .ite fun _ => windowWriteToPty_does _ s
    have h₂ : Does env sel [] s₁ s₂ := windowWriteToPty_does _ s₁
    exact h₁.trans (h₂.trans (.ite fun _ => windowWriteToPty_does _ s₂))

theorem windowHandleSelectionClearEvent_does (s : World ρ)
    : Does env sel [] s (windowHandleSelectionClearEvent env s) := by
  unfold windowHandleSelectionClearEvent
  extract_lets s₁ s₂
  have h₁ : Does env sel [] s s₁ := .deselect s
  have h₂ : Does env sel [] s₁ s₂ := .window ⟨by simp, by simp⟩ s₁
  have h₃ : Does env sel [] s₂ (modifyDisplay ({ · with dirty := true }) s₂) :=
    .display ⟨by simp, by simp⟩ s₂
  exact h₁.trans (h₂.trans (h₃.trans (.flush _)))

theorem windowHandleSelectionRequestEvent_does (target : SelectionTarget) (s : World ρ)
    : Does env sel [] s (windowHandleSelectionRequestEvent target s) := by
  have hcontents : Does env sel [] s (windowHandleSelectionRequestEvent.contents s) := by
    unfold windowHandleSelectionRequestEvent.contents
    split
    . exact .act s rfl rfl
    . exact .refl s
  unfold windowHandleSelectionRequestEvent
  split
  . exact Does.trans (.act s rfl rfl) (.act _ rfl rfl)
  . exact hcontents.trans (.act _ rfl rfl)
  . exact hcontents.trans (.act _ rfl rfl)
  . exact .act s rfl rfl

def Event.IsConfigure (e : Event) : Prop :=
  match e with
  | .configure _ _ => True
  | _ => False

/--
What a handler does, for every event apart from a new size of the window.
-/
theorem windowHandleEvent_does (filtered : Bool) {e : Event} (s : World ρ) (he : ¬e.IsConfigure)
    (hsel : ∀ scr : Screen ρ, scr.grid = s.term.scr.grid →
      ∀ loc ∈ eventLocs env filtered e s scr, sel loc)
    : Does env sel (eventActs env filtered e s) s (windowHandleEvent env filtered e s).snd := by
  cases filtered with
  | true =>
    cases e <;> exact .refl s
  | false =>
    cases e with
    | key e => exact windowHandleKeyEvent_does e s
    | button e => exact windowHandleButtonEvent_does e s hsel
    | motion e =>
      apply windowHandleMotionEvent_does e s
      intro hdown hselection hwants
      apply hsel s.term.scr rfl
      simp [eventLocs, hdown, hselection, hwants]
    | expose => exact .flush s
    | configure e later => exact absurd trivial he
    | focus e => exact windowHandleFocusEvent_does e s
    | selectionNotify e => exact windowHandleSelectionNotifyEvent_does e s
    | selectionRequest target => exact windowHandleSelectionRequestEvent_does target s
    | selectionClear => exact windowHandleSelectionClearEvent_does s
    | clientMessage a =>
      cases a with
      | deleteWindow => exact .refl s
      | ping => exact .act s rfl rfl
      | other => exact .refl s
    | other => exact .refl s

theorem windowHandleEvent_reacts (env : Env ρ) (filtered : Bool) {e : Event} (s : World ρ)
    (he : ¬e.IsConfigure)
    : Reacts s (windowHandleEvent env filtered e s).snd :=
  (windowHandleEvent_does filtered s he (fun _ _ _ _ => trivial)).reacts

end

end Term
end Runes
