import Runes.Term.Flush

/-!
This module contains what the handlers of the window are made of: they flush the window, and between
that they take steps of a few kinds. What holds of every such step holds of every handler.
-/

namespace Runes
namespace Term

variable {ρ : Type}

-- What the buttons of the mouse may cause.
inductive PointerAct where
  | builtin
  | report (type : ReportType) (button : ReportButton)
  | mouseDown (down : Bool)
  | click
  deriving DecidableEq

structure KeepsSelection (f : RunesDisplay → RunesDisplay) : Prop where
  geometry : ∀ d, (f d).rowVisibleOffset = d.rowVisibleOffset
    ∧ (f d).fontx = d.fontx ∧ (f d).fonty = d.fonty
  selection : ∀ d, (f d).hasSelection = d.hasSelection
    ∧ (f d).selectionStart = d.selectionStart ∧ (f d).selectionEnd = d.selectionEnd

structure KeepsPointer (f : RunesWindow → RunesWindow) : Prop where
  timers : ∀ w, (f w).multiClickTimerEvent = w.multiClickTimerEvent
    ∧ (f w).delaying = w.delaying ∧ (f w).visualBellIsRinging = w.visualBellIsRinging
  pointer : ∀ w, (f w).mouseDown = w.mouseDown ∧ (f w).multiClicks = w.multiClicks

/--
What a handler does, with what the buttons cause in it. The places that it selects are `sel`.
-/
inductive Does (env : Env ρ) (sel : Loc → Prop) : List PointerAct → World ρ → World ρ → Prop where
  | refl (s : World ρ) : Does env sel [] s s
  | trans {acts acts' : List PointerAct} {s s' s'' : World ρ} (h : Does env sel acts s s')
      (h' : Does env sel acts' s' s'')
      : Does env sel (acts ++ acts') s s''
  | flush (s : World ρ) : Does env sel [] s (windowFlush env s)
  | act {a : Action} (s : World ρ) (hdraw : a.isDraw = false) (hmouse : a.isMouse = false)
      : Does env sel [] s (act a s)
  | builtin (s : World ρ) : Does env sel [.builtin] s (Term.act .builtinButton s)
  | report (type : ReportType) (button : ReportButton) (s : World ρ)
      : Does env sel [.report type button] s (Term.act (.mouseReport type button) s)
  | display {f : RunesDisplay → RunesDisplay} (hf : KeepsSelection f) (s : World ρ)
      : Does env sel [] s (modifyDisplay f s)
  | scroll {offset : Int} (s : World ρ)
      (hoffset : s.term.scr.grid.Ok → 0 ≤ offset ∧ offset ≤ s.term.scr.grid.rowTop)
      : Does env sel [] s (modifyDisplay ({ · with rowVisibleOffset := offset }) s)
  | select {start stop : Loc} (s : World ρ)
      (hstart : sel start
        ∨ (s.term.display.hasSelection = true ∧ start = s.term.display.selectionStart))
      (hstop : sel stop)
      : Does env sel [] s (displaySetSelection env start stop s)
  | deselect (s : World ρ) : Does env sel [] s (modifyDisplay ({ · with hasSelection := false }) s)
  | acquire (s : World ρ) : Does env sel [] s (windowAcquireSelection env s)
  | window {f : RunesWindow → RunesWindow} (hf : KeepsPointer f) (s : World ρ)
      : Does env sel [] s (modifyWindow f s)
  | mouseDown (down : Bool) (s : World ρ)
      : Does env sel [.mouseDown down] s (modifyWindow ({ · with mouseDown := down }) s)
  | click (s : World ρ)
      : Does env sel [.click] s
          (modifyWindow (fun w => { w with multiClicks := w.multiClicks + 1 }) s)
  | timer (s : World ρ) : Does env sel [] s (restartMultiClickTimer s)

section

variable {env : Env ρ} {sel : Loc → Prop} {acts : List PointerAct} {s s' : World ρ}

theorem Does.ite {c : Prop} [Decidable c] (h : c → Does env sel [] s s')
    : Does env sel [] s (if c then s' else s) := by
  split
  . next hc => exact h hc
  . exact refl s

theorem inGrid_of_not_isDraw {a : Action} (ha : a.isDraw = false) : a.InGrid := by
  cases a <;> trivial

theorem Does.reacts (h : Does env sel acts s s') : Reacts s s' := by
  induction h with
  | refl s => exact .refl s
  | trans h h' ih ih' => exact ih.trans ih'
  | flush s => exact (windowFlush_redraws env s).toReacts
  | act s hdraw hmouse => exact (Redraws.act (inGrid_of_not_isDraw hdraw)).toReacts
  | builtin s => exact (Redraws.act (by trivial)).toReacts
  | report type button s => exact (Redraws.act (by trivial)).toReacts
  | display hf s => exact (Redraws.modifyDisplay (fun d => (hf.geometry d).left)).toReacts
  | scroll s hoffset => exact .of_offset _ rfl hoffset rfl
  | select s hstart hstop => exact (displaySetSelection_redraws env _ _ s).toReacts
  | deselect s => exact (Redraws.modifyDisplay (by simp)).toReacts
  | acquire s => exact (windowAcquireSelection_redraws env s).toReacts
  | window hf s => exact (Redraws.modifyWindow hf.timers).toReacts
  | mouseDown down s => exact (Redraws.modifyWindow (by simp)).toReacts
  | click s => exact (Redraws.modifyWindow (by simp)).toReacts
  | timer s => exact (restartMultiClickTimer_redraws s).toReacts

theorem windowWriteToPty_does (buf : List UInt8) (s : World ρ)
    : Does env sel [] s (windowWriteToPty env buf s) := by
  unfold windowWriteToPty
  extract_lets s₁
  have h₁ : Does env sel [] s s₁ := .act s rfl rfl
  refine h₁.trans (.ite fun _ => ?_)
  have h₂ : Does env sel [] s₁ (modifyDisplay ({ · with rowVisibleOffset := 0 }) s₁) := by
    apply Does.scroll
    intro hgrid
    exact ⟨Int.le_refl 0, hgrid.nonneg⟩
  have h₃ := h₂.trans (.display (f := ({ · with dirty := true })) ⟨by simp, by simp⟩ _)
  apply h₃.trans (.flush _)

theorem windowVisibleScroll_does (count : Int) (s : World ρ)
    : Does env sel [] s (windowVisibleScroll env count s) := by
  unfold windowVisibleScroll
  extract_lets oldOffset offset s₁
  have h₁ : Does env sel [] s s₁ :=
    .scroll s (fun hgrid => scrolledOffset_bounds hgrid oldOffset count)
  split
  . exact h₁
  . have h₂ : Does env sel [] s₁ (modifyDisplay ({ · with dirty := true }) s₁) :=
      .display ⟨by simp, by simp⟩ s₁
    exact h₁.trans (h₂.trans (.flush _))

theorem windowStartSelectionLoc_does {start : Loc} (s : World ρ) (hsel : sel start)
    : Does env sel [] s (windowStartSelectionLoc env start s) :=
  Does.trans (.select s (Or.inl hsel) hsel) (.flush _)

theorem windowAcquireSelection_term (env : Env ρ) (s : World ρ)
    : ∃ owns, (windowAcquireSelection env s).term
        = (modifyWindow ({ · with ownsSelection := owns }) s).term := by
  unfold windowAcquireSelection
  extract_lets oldOwner s₁ gotSelection s₂ s₃
  split
  . exact ⟨s.term.w.ownsSelection, rfl⟩
  . split
    . refine ⟨true, ?_⟩
      split <;> rfl
    . exact ⟨s.term.w.ownsSelection, rfl⟩

theorem windowUpdateSelectionLoc_does {stop : Loc} (s : World ρ)
    (hsel : s.term.display.hasSelection = true → sel stop)
    : Does env sel [] s (windowUpdateSelectionLoc env stop s) := by
  unfold windowUpdateSelectionLoc
  extract_lets s₁
  refine .ite fun hselection => .ite fun _ => ?_
  have ⟨owns, hterm⟩ := windowAcquireSelection_term env s
  have hdisplay : s₁.term.display = s.term.display := by
    rw [hterm]
    rfl
  have h₁ : Does env sel [] s s₁ := .acquire s
  refine h₁.trans (Does.trans (.select s₁ (Or.inr ⟨?_, rfl⟩) (hsel hselection)) (.flush _))
  rw [hdisplay]
  exact hselection

end

-- What a click selects: a line or a word, if it is not the first one.
def clickLocs (vt : VT100 ρ) (clicks : UInt32) (loc : Loc) (scr : Screen ρ) : List Loc :=
  if clicks > 1 then
    if clicks % 2 ≠ 0 then
      [{ loc with col := 0 }, { loc with col := scr.grid.max.col }]
    else
      [windowBeginningOfWord vt scr loc, windowEndOfWord vt scr loc]
  else
    []

section

variable {env : Env ρ} {sel : Loc → Prop}

theorem restartMultiClickTimer_term (s : World ρ)
    : ∃ event refcnt, (restartMultiClickTimer s).term
        =
      { s.term with w := { s.term.w with multiClickTimerEvent := event }, refcnt } := by
  unfold restartMultiClickTimer
  cases s.term.w.multiClickTimerEvent with
  | none => exact ⟨_, _, rfl⟩
  | some id => exact ⟨_, _, rfl⟩

theorem windowHandleMultiClick_does (xpixel ypixel : Int) (s : World ρ)
    (hsel : ∀ scr : Screen ρ, scr.grid = s.term.scr.grid →
      ∀ loc ∈ clickLocs env.vt100 (s.term.w.multiClicks + 1)
        (windowGetMousePosition xpixel ypixel s) scr,
        sel loc)
    : Does env sel [.click] s (windowHandleMultiClick env xpixel ypixel s) := by
  unfold windowHandleMultiClick
  extract_lets s₁ s₂ loc s₃ s₄
  have ⟨event, refcnt, hterm⟩ := restartMultiClickTimer_term s
  have hclicks : s₂.term.w.multiClicks = s.term.w.multiClicks + 1 := by
    simp [s₂, s₁, hterm, modifyWindow]
  have hloc : loc = windowGetMousePosition xpixel ypixel s := by
    simp [loc, s₂, s₁, hterm, modifyWindow, windowGetMousePosition]
  have hscr : s₂.term.scr = s.term.scr := by
    simp [s₂, s₁, hterm, modifyWindow]
  have h₂ : Does env sel [.click] s s₂ := Does.trans (.timer s) (.click s₁)
  rw [← hclicks, ← hloc, ← hscr] at hsel
  suffices h : Does env sel [] s₂ _ from h₂.trans h
  refine .ite fun hmany => ?_
  unfold clickLocs at hsel
  simp only [if_pos hmany] at hsel
  split
  . next hodd =>
    simp only [if_pos hodd] at hsel
    have h₃ : Does env sel [] s₂ s₃ := windowStartSelectionLoc_does s₂ (hsel _ rfl _ (by simp))
    refine h₃.trans (windowUpdateSelectionLoc_does s₃ fun _ => ?_)
    apply hsel _ h₃.reacts.grid
    simp
  . next heven =>
    simp only [if_neg heven] at hsel
    have h₄ : Does env sel [] s₂ s₄ := windowStartSelectionLoc_does s₂ (hsel _ rfl _ (by simp))
    refine h₄.trans (windowUpdateSelectionLoc_does s₄ fun _ => ?_)
    apply hsel _ h₄.reacts.grid
    simp

end

-- What the position of the mouse depends on.
def geometry (s : World ρ) : Int × Int × Int × Grid :=
  (s.term.display.fontx, s.term.display.fonty, s.term.display.rowVisibleOffset, s.term.scr.grid)

section

variable {s s' : World ρ}

theorem windowGetMousePosition_congr (h : geometry s' = geometry s) (xpixel ypixel : Int)
    : windowGetMousePosition xpixel ypixel s' = windowGetMousePosition xpixel ypixel s := by
  simp only [geometry, Prod.mk.injEq] at h
  unfold windowGetMousePosition
  simp only [h]

theorem windowFlush_geometry (env : Env ρ) (s : World ρ)
    : geometry (windowFlush env s) = geometry s := by
  have hterm := (windowFlush_flushes env s).left.term
  have h := congrArg (fun t : RunesTerm ρ =>
    (t.display.fontx, t.display.fonty, t.display.rowVisibleOffset, t.scr.grid)) hterm
  exact h

theorem windowStartSelectionLoc_geometry (env : Env ρ) (start : Loc) (s : World ρ)
    : geometry (windowStartSelectionLoc env start s) = geometry s :=
  windowFlush_geometry env _

theorem windowUpdateSelectionLoc_geometry (env : Env ρ) (stop : Loc) (s : World ρ)
    : geometry (windowUpdateSelectionLoc env stop s) = geometry s := by
  have ⟨owns, hterm⟩ := windowAcquireSelection_term env s
  have hacquire : geometry (windowAcquireSelection env s) = geometry s := by
    unfold geometry
    rw [hterm]
    rfl
  unfold windowUpdateSelectionLoc
  split
  . split
    . exact (windowFlush_geometry env _).trans hacquire
    . rfl
  . rfl

theorem windowHandleMultiClick_geometry (env : Env ρ) (xpixel ypixel : Int) (s : World ρ)
    : geometry (windowHandleMultiClick env xpixel ypixel s) = geometry s := by
  unfold windowHandleMultiClick
  extract_lets s₁ s₂ loc s₃ s₄
  have ⟨event, refcnt, hterm⟩ := restartMultiClickTimer_term s
  have h₂ : geometry s₂ = geometry s := by
    simp [s₂, s₁, hterm, modifyWindow, geometry]
  split
  . split
    . rw [windowUpdateSelectionLoc_geometry, windowStartSelectionLoc_geometry, h₂]
    . rw [windowUpdateSelectionLoc_geometry, windowStartSelectionLoc_geometry, h₂]
  . exact h₂

end

structure Pointer where
  mouseDown : Bool
  multiClicks : UInt32
  acts : List Action

def pointer (s : World ρ) : Pointer :=
  {
    mouseDown := s.term.w.mouseDown
    multiClicks := s.term.w.multiClicks
    acts := s.log.filter Action.isMouse
  }

def Pointer.cause (p : Pointer) (a : PointerAct) : Pointer :=
  match a with
  | .builtin => { p with acts := p.acts ++ [.builtinButton] }
  | .report type button => { p with acts := p.acts ++ [.mouseReport type button] }
  | .mouseDown down => { p with mouseDown := down }
  | .click => { p with multiClicks := p.multiClicks + 1 }

section

variable {env : Env ρ} {sel : Loc → Prop} {acts : List PointerAct} {s s' : World ρ}

theorem Logs.filter_isMouse {P : Action → Prop} (h : Logs P s s')
    (hP : ∀ a, P a → a.isMouse = false)
    : s'.log.filter Action.isMouse = s.log.filter Action.isMouse := by
  have ⟨new, heq, hnew⟩ := h
  have hnil : new.filter Action.isMouse = [] := by
    rw [List.filter_eq_nil_iff]
    intro a ha hmouse
    rw [hP a (hnew a ha)] at hmouse
    cases hmouse
  rw [heq, List.filter_append, hnil, List.append_nil]

theorem pointer_eq {P : Action → Prop} (hdown : s'.term.w.mouseDown = s.term.w.mouseDown)
    (hclicks : s'.term.w.multiClicks = s.term.w.multiClicks) (h : Logs P s s')
    (hP : ∀ a, P a → a.isMouse = false)
    : pointer s' = pointer s := by
  unfold pointer
  rw [hdown, hclicks, h.filter_isMouse hP]

theorem windowFlush_pointer (env : Env ρ) (s : World ρ)
    : pointer (windowFlush env s) = pointer s := by
  have hflushes := (windowFlush_flushes env s).left
  exact pointer_eq (congrArg (·.w.mouseDown) hflushes.term)
    (congrArg (·.w.multiClicks) hflushes.term) hflushes.log (fun _ ha => ha.right)

-- Neither a step of a flush nor one of the mouse.
def Action.IsQuiet (a : Action) : Prop := a.isDraw = false ∧ a.isMouse = false

theorem windowAcquireSelection_logs (env : Env ρ) (s : World ρ)
    : Logs Action.IsQuiet s (windowAcquireSelection env s) := by
  unfold windowAcquireSelection
  extract_lets oldOwner s₁ gotSelection s₂ s₃
  have h₁ : Logs Action.IsQuiet s s₁ := .act ⟨rfl, rfl⟩
  split
  . exact .refl s
  . split
    . split
      . exact h₁.trans (.act ⟨rfl, rfl⟩)
      . exact h₁
    . exact h₁

theorem restartMultiClickTimer_logs (s : World ρ)
    : Logs Action.IsQuiet s (restartMultiClickTimer s) := by
  unfold restartMultiClickTimer
  cases s.term.w.multiClickTimerEvent with
  | none => exact ⟨_, rfl, by simp [Action.IsQuiet, Action.isDraw, Action.isMouse]⟩
  | some id => exact ⟨_, rfl, by simp [Action.IsQuiet, Action.isDraw, Action.isMouse]⟩

theorem Does.pointer (h : Does env sel acts s s')
    : pointer s' = acts.foldl Pointer.cause (pointer s) := by
  induction h with
  | refl s => rfl
  | trans h h' ih ih' => rw [ih', ih, List.foldl_append]
  | flush s => exact windowFlush_pointer env s
  | act s hdraw hmouse => exact pointer_eq rfl rfl (.act hmouse) (fun _ ha => ha)
  | builtin s => simp [Term.pointer, Term.act, Pointer.cause, Action.isMouse]
  | report type button s => simp [Term.pointer, Term.act, Pointer.cause, Action.isMouse]
  | window hf s =>
    have hpointer := hf.pointer s.term.w
    simp [Term.pointer, modifyWindow, hpointer]
  | acquire s =>
    obtain ⟨owns, hterm⟩ := windowAcquireSelection_term env s
    apply pointer_eq ?_ ?_ (windowAcquireSelection_logs env s) (fun _ ha => ha.right)
    . rw [hterm]
      rfl
    . rw [hterm]
      rfl
  | timer s =>
    obtain ⟨event, refcnt, hterm⟩ := restartMultiClickTimer_term s
    apply pointer_eq ?_ ?_ (restartMultiClickTimer_logs s) (fun _ ha => ha.right)
    . rw [hterm]
    . rw [hterm]
  | _ => rfl

end

end Term
end Runes
