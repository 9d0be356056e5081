import Runes.Term.Handles

/-!
This module contains when a terminal asks for the selection: a step of the machine does so once at most,
and it only asks again for plain text when it is told that there is no text in UTF-8.
-/

namespace Runes
namespace Term

variable {ρ : Type} {env : Env ρ} {s s' s'' : World ρ}

def Action.isConvert (a : Action) : Bool :=
  match a with
  | .convertSelection _ => true
  | _ => false

def Action.Unasked (a : Action) : Prop := a.isConvert = false

-- Neither asks for the selection nor acquires it.
def Action.Unselected (a : Action) : Prop := a.isConvert = false ∧ a ≠ .setSelectionOwner

/--
The selection is asked for once at most, as it is when the user pastes.
-/
def Asks (s s' : World ρ) : Prop :=
  ∃ new, s'.log = s.log ++ new ∧
    (new.filter Action.isConvert = [] ∨ new.filter Action.isConvert = [.convertSelection true])

theorem Logs.ite {P : Action → Prop} {c : Prop} [Decidable c] (h : c → Logs P s s')
    : Logs P s (if c then s' else s) := by
  split
  . next hc => exact h hc
  . exact .refl s

theorem Logs.unasked (h : Logs Action.Unselected s s') : Logs Action.Unasked s s' :=
  h.mono (fun _ ha => ha.left)

theorem filter_isConvert {new : List Action} (h : ∀ a ∈ new, a.Unasked)
    : new.filter Action.isConvert = [] := by
  rw [List.filter_eq_nil_iff]
  intro a ha hconvert
  cases (h a ha).symm.trans hconvert

namespace Asks

theorem of_unasked (h : Logs Action.Unasked s s') : Asks s s' := by
  obtain ⟨new, heq, hnew⟩ := h
  exact ⟨new, heq, .inl (filter_isConvert hnew)⟩

theorem left (h : Logs Action.Unasked s s') (h' : Asks s' s'') : Asks s s'' := by
  obtain ⟨new, heq, hnew⟩ := h
  obtain ⟨new', heq', hasks⟩ := h'
  refine ⟨new ++ new', by rw [heq', heq, List.append_assoc], ?_⟩
  rw [List.filter_append, filter_isConvert hnew]
  exact hasks

theorem right (h : Asks s s') (h' : Logs Action.Unasked s' s'') : Asks s s'' := by
  obtain ⟨new, heq, hasks⟩ := h
  obtain ⟨new', heq', hnew'⟩ := h'
  refine ⟨new ++ new', by rw [heq', heq, List.append_assoc], ?_⟩
  rw [List.filter_append, filter_isConvert hnew', List.append_nil]
  exact hasks

theorem refl (s : World ρ) : Asks s s := of_unasked (.refl s)

end Asks

theorem windowPaste_asks (s : World ρ) : Asks s (windowPaste s) :=
  ⟨[.convertSelection true], rfl, .inr rfl⟩

theorem unselected_of_ofFlush {a : Action} (ha : a.ofFlush = true) : a.Unselected := by
  cases a with
  | convertSelection utf8 => cases ha
  | setSelectionOwner => cases ha
  | _ => exact ⟨rfl, by simp⟩

theorem windowFlush_unselected (env : Env ρ) (s : World ρ)
    : Logs Action.Unselected s (windowFlush env s) :=
  (windowFlush_logs env s).mono (fun _ => unselected_of_ofFlush)

theorem windowWriteToPty_unselected (env : Env ρ) (buf : List UInt8) (s : World ρ)
    : Logs Action.Unselected s (windowWriteToPty env buf s) := by
  unfold windowWriteToPty
  extract_lets s₁
  have h₁ : Logs Action.Unselected s s₁ := .act ⟨rfl, by simp⟩
  refine h₁.trans (.ite fun _ => ?_)
  exact Logs.trans (.of_eq rfl) (windowFlush_unselected env _)

theorem windowVisibleScroll_unselected (env : Env ρ) (count : Int) (s : World ρ)
    : Logs Action.Unselected s (windowVisibleScroll env count s) := by
  unfold windowVisibleScroll
  extract_lets oldOffset offset s₁
  split
  . exact .of_eq rfl
  . exact Logs.trans (.of_eq rfl) (windowFlush_unselected env _)

theorem windowAcquireSelection_unasked (env : Env ρ) (s : World ρ)
    : Logs Action.Unasked s (windowAcquireSelection env s) := by
  unfold windowAcquireSelection
  extract_lets oldOwner s₁ gotSelection s₂ s₃
  have h₁ : Logs Action.Unasked s s₁ := .act rfl
  have h₂ : Logs Action.Unasked s₁ s₂ := .of_eq rfl
  have h₃ : Logs Action.Unasked s₂ s₃ := .of_eq rfl
  split
  . exact .refl s
  . exact h₁.trans (h₂.trans (.ite fun _ => h₃.trans (.ite fun _ => .act rfl)))

theorem windowStartSelectionLoc_unasked (env : Env ρ) (start : Loc) (s : World ρ)
    : Logs Action.Unasked s (windowStartSelectionLoc env start s) :=
  Logs.trans (.of_eq rfl) (windowFlush_unselected env _).unasked

theorem windowUpdateSelectionLoc_unasked (env : Env ρ) (stop : Loc) (s : World ρ)
    : Logs Action.Unasked s (windowUpdateSelectionLoc env stop s) := by
  unfold windowUpdateSelectionLoc
  extract_lets s₁
  refine .ite fun _ => .ite fun _ => ?_
  have h₁ : Logs Action.Unasked s s₁ := windowAcquireSelection_unasked env s
  exact h₁.trans (Logs.trans (.of_eq rfl) (windowFlush_unselected env _).unasked)

theorem restartMultiClickTimer_unasked (s : World ρ)
    : Logs Action.Unasked s (restartMultiClickTimer s) := by
  unfold restartMultiClickTimer
  cases s.term.w.multiClickTimerEvent with
  | none => exact ⟨_, rfl, by simp [Action.Unasked, Action.isConvert]⟩
  | some id => exact ⟨_, rfl, by simp [Action.Unasked, Action.isConvert]⟩

theorem windowHandleMultiClick_unasked (env : Env ρ) (xpixel ypixel : Int) (s : World ρ)
    : Logs Action.Unasked s (windowHandleMultiClick env xpixel ypixel s) := by
  unfold windowHandleMultiClick
  extract_lets s₁ s₂ loc s₃ s₄
  have h₁ : Logs Action.Unasked s s₁ := restartMultiClickTimer_unasked s
  have h₂ : Logs Action.Unasked s₁ s₂ := .of_eq rfl
  refine h₁.trans (h₂.trans (.ite fun _ => ?_))
  split
  . have h₃ : Logs Action.Unasked s₂ s₃ := windowStartSelectionLoc_unasked env _ s₂
    exact h₃.trans (windowUpdateSelectionLoc_unasked env _ s₃)
  . have h₄ : Logs Action.Unasked s₂ s₄ := windowStartSelectionLoc_unasked env _ s₂
    exact h₄.trans (windowUpdateSelectionLoc_unasked env _ s₄)

theorem windowHandleBuiltinKeypress_asks (env : Env ρ) (sym : KeySym) (state : Modifiers) (s : World ρ)
    : Asks s (windowHandleBuiltinKeypress env sym state s).snd := by
  unfold windowHandleBuiltinKeypress
  split
  . exact windowPaste_asks s
  . exact .of_unasked (windowVisibleScroll_unselected env _ s).unasked
  . exact .of_unasked (windowVisibleScroll_unselected env _ s).unasked
  . exact .refl s

theorem chars_unasked (env : Env ρ) (e : KeyEvent) (buf : Option (List UInt8)) (s : World ρ)
    : Logs Action.Unasked s (windowHandleKeyEvent.chars env e buf s) := by
  unfold windowHandleKeyEvent.chars
  split
  . extract_lets s₁
    have h₁ : Logs Action.Unasked s s₁ :=
      .ite fun _ => (windowWriteToPty_unselected env [0x1b] s).unasked
    exact h₁.trans (windowWriteToPty_unselected env _ s₁).unasked
  . exact .refl s

theorem windowHandleKeyEvent_asks (env : Env ρ) (e : KeyEvent) (s : World ρ)
    : Asks s (windowHandleKeyEvent env e s) := by
  have hsymbol : ∀ sym buf, Asks s (windowHandleKeyEvent.symbol env e s sym buf) := by
    intro sym buf
    have hbuiltin := windowHandleBuiltinKeypress_asks env sym e.state s
    unfold windowHandleKeyEvent.symbol
    split
    . next s₁ heq =>
      rw [heq] at hbuiltin
      exact hbuiltin.right (chars_unasked env e buf s₁)
    . next s₁ heq =>
      rw [heq] at hbuiltin
      split
      . exact hbuiltin.right (windowWriteToPty_unselected env _ s₁).unasked
      . exact hbuiltin.right (chars_unasked env e buf s₁)
  unfold windowHandleKeyEvent
  split
  . split
    . exact hsymbol _ _
    . exact hsymbol _ _
    . exact .of_unasked (chars_unasked env e _ s)
    . exact .refl s
  . exact .refl s

-- Only a press of the second button pastes, and then nothing else is done.
theorem windowHandleBuiltinButtonPress_asks (env : Env ρ) (e : ButtonEvent) (s : World ρ)
    : Asks s (windowHandleBuiltinButtonPress env e s).snd ∧
        ((windowHandleBuiltinButtonPress env e s).fst = false →
          Logs Action.Unasked s (windowHandleBuiltinButtonPress env e s).snd) := by
  unfold windowHandleBuiltinButtonPress
  extract_lets acted s₁ s₂
  have hacted : Logs Action.Unasked s acted := .act rfl
  split
  . have h₁ : Logs Action.Unasked acted s₁ := windowStartSelectionLoc_unasked env _ acted
    exact ⟨.of_unasked (hacted.trans (h₁.trans (.of_eq rfl))), by simp⟩
  . exact ⟨.left hacted (windowPaste_asks acted), by simp⟩
  . exact ⟨.of_unasked (hacted.trans (windowUpdateSelectionLoc_unasked env _ acted)), by simp⟩
  . exact ⟨.of_unasked (hacted.trans (windowVisibleScroll_unselected env _ acted).unasked), by simp⟩
  . exact ⟨.of_unasked (hacted.trans (windowVisibleScroll_unselected env _ acted).unasked), by simp⟩
  . have h₂ : Logs Action.Unasked acted s₂ := windowHandleMultiClick_unasked env e.x e.y acted
    -- the rest does not look into the click
    clear_value s₂
    have h := hacted.trans (h₂.trans (.of_eq rfl))
    exact ⟨.of_unasked h, fun _ => h⟩
  . exact ⟨.refl s, fun _ => .refl s⟩

theorem report_asks (env : Env ρ) (e : ButtonEvent) (s : World ρ)
    : Asks s (windowHandleButtonEvent.report env e s) := by
  unfold windowHandleButtonEvent.report
  extract_lets scr wanted type
  split
  . split
    . next button _ =>
      have h₁ : Logs Action.Unasked s (act (.mouseReport type button) s) := .act rfl
      apply Asks.of_unasked
      exact h₁.trans (.ite fun _ => (windowWriteToPty_unselected env _ _).unasked)
    . exact .refl s
  . exact (windowHandleBuiltinButtonPress_asks env e s).left

theorem windowHandleButtonEvent_asks (env : Env ρ) (e : ButtonEvent) (s : World ρ)
    : Asks s (windowHandleButtonEvent env e s) := by
  have hbuiltin := windowHandleBuiltinButtonPress_asks env e s
  unfold windowHandleButtonEvent
  split
  . split
    . next s₁ heq =>
      rw [heq] at hbuiltin
      exact hbuiltin.left
    . next s₁ heq =>
      rw [heq] at hbuiltin
      exact .left (hbuiltin.right rfl) (report_asks env e s₁)
  . exact report_asks env e s

theorem windowHandleMotionEvent_unasked (env : Env ρ) (e : MotionEvent) (s : World ρ)
    : Logs Action.Unasked s (windowHandleMotionEvent env e s) := by
  unfold windowHandleMotionEvent
  extract_lets scr loc response s₁ s₂
  have h₁ : Logs Action.Unasked s s₁ := .act rfl
  have h₂ : Logs Action.Unasked s₁ s₂ := (windowWriteToPty_unselected env response s₁).unasked
  split
  . exact .ite fun _ => h₁.trans (h₂.trans (.of_eq rfl))
  . exact .ite fun _ => windowUpdateSelectionLoc_unasked env _ s

theorem windowHandleFocusEvent_unasked (env : Env ρ) (e : FocusEvent) (s : World ρ)
    : Logs Action.Unasked s (windowHandleFocusEvent env e s) := by
  unfold windowHandleFocusEvent
  extract_lets s₁
  have h₁ : Logs Action.Unasked s s₁ := .act rfl
  split
  . exact .refl s
  . split
    . exact .refl s
    . split
      . exact .refl s
      . exact h₁.trans (Logs.trans (.of_eq rfl) (windowFlush_unselected env _).unasked)

theorem displayMaybeClearSelection_unasked (env : Env ρ) (s : World ρ)
    : Logs Action.Unasked s (displayMaybeClearSelection env s) := by
  apply (displayMaybeClearSelection_paints env s).log.mono
  intro a ha
  exact (unselected_of_ofFlush ha.left).left

theorem windowHandleConfigureEvent_unasked (env : Env ρ) (e : ConfigureEvent)
    (later : List ConfigureEvent) (s : World ρ)
    : Logs Action.Unasked s (windowHandleConfigureEvent env e later s) := by
  unfold windowHandleConfigureEvent
  refine .ite fun _ => ?_
  unfold windowResizeWindow
  extract_lets e width height s₁ s₂
  have h₁ : Logs Action.Unasked s s₁ := .act rfl
  have h₂ : Logs Action.Unasked s₁ s₂ := ⟨_, rfl, by simp [Action.Unasked, Action.isConvert]⟩
  exact .ite fun _ => h₁.trans (h₂.trans (displayMaybeClearSelection_unasked env s₂))

/-- What the owner of the selection does about a request. -/
theorem windowHandleSelectionRequestEvent_log (target : SelectionTarget) (s : World ρ)
    : (windowHandleSelectionRequestEvent target s).log = s.log ++
        match target with
        | .targets => [.selectionTargets, .selectionNotify false]
        | .string => s.term.display.selectionContents.toList.map .selectionContents
            ++ [.selectionNotify false]
        | .utf8String => s.term.display.selectionContents.toList.map .selectionContents
            ++ [.selectionNotify false]
        | .other => [.selectionNotify true] := by
  have hcontents : (windowHandleSelectionRequestEvent.contents s).log
      = s.log ++ s.term.display.selectionContents.toList.map .selectionContents := by
    unfold windowHandleSelectionRequestEvent.contents
    split
    . next heq => simp [heq, act]
    . next heq => simp [heq]
  cases target with
  | targets => simp [windowHandleSelectionRequestEvent, act]
  | string => simp [windowHandleSelectionRequestEvent, act, hcontents]
  | utf8String => simp [windowHandleSelectionRequestEvent, act, hcontents]
  | other => rfl

theorem unasked_of_mem_answer {contents : Option (List UInt8)} {a : Action}
    (ha : a ∈ contents.toList.map .selectionContents ++ [.selectionNotify false])
    : a.Unasked := by
  rcases List.mem_append.mp ha with ha | ha
  . obtain ⟨text, _, rfl⟩ := List.mem_map.mp ha
    rfl
  . rw [List.mem_singleton.mp ha]
    rfl

theorem windowHandleSelectionNotifyEvent_property (env : Env ρ) (buf : List UInt8) (s : World ρ)
    : Logs Action.Unselected s (windowHandleSelectionNotifyEvent env (.property buf) s) := by
  let s₁ := if s.term.scr.bracketedPaste then windowWriteToPty env (esc "[200~") s else s
  let s₂ := windowWriteToPty env buf s₁
  have h₁ : Logs Action.Unselected s s₁ := .ite fun _ => windowWriteToPty_unselected env _ s
  have h₂ : Logs Action.Unselected s₁ s₂ := windowWriteToPty_unselected env _ s₁
  exact h₁.trans (h₂.trans (.ite fun _ => windowWriteToPty_unselected env _ s₂))

def Event.isNotify (e : Event) : Bool :=
  match e with
  | .selectionNotify _ => true
  | _ => false

theorem windowHandleEvent_asks (env : Env ρ) (filtered : Bool) {e : Event}
    (he : e.isNotify = false) (s : World ρ)
    : Asks s (windowHandleEvent env filtered e s).snd := by
  cases filtered with
  | true => exact .refl s
  | false =>
    cases e with
    | key e => exact windowHandleKeyEvent_asks env e s
    | button e => exact windowHandleButtonEvent_asks env e s
    | motion e => exact .of_unasked (windowHandleMotionEvent_unasked env e s)
    | expose => exact .of_unasked (windowFlush_unselected env s).unasked
    | configure e later => exact .of_unasked (windowHandleConfigureEvent_unasked env e later s)
    | focus e => exact .of_unasked (windowHandleFocusEvent_unasked env e s)
    | selectionNotify e => cases he
    | selectionRequest target =>
      apply Asks.of_unasked
      refine ⟨_, windowHandleSelectionRequestEvent_log target s, ?_⟩
      intro a ha
      cases target with
      | targets =>
        rcases List.mem_pair.mp ha with rfl | rfl
        . rfl
        . rfl
      | string => exact unasked_of_mem_answer ha
      | utf8String => exact unasked_of_mem_answer ha
      | other =>
        rw [List.mem_singleton.mp ha]
        rfl
    | selectionClear =>
      exact .of_unasked (Logs.trans (.of_eq rfl) (windowFlush_unselected env _).unasked)
    | clientMessage a =>
      cases a with
      | deleteWindow => exact .refl s
      | ping => exact .of_unasked (.act rfl)
      | other => exact .refl s
    | other => exact .refl s

/-- An event that does not close the window is handled, and nothing else. -/
theorem eq_of_step_event {e : Event} (hopen : (windowHandleEvent env false e s).fst = false)
    (h : step env s (.event false e) = some s')
    : s' = (windowHandleEvent env false e s).snd := by
  cases stepped h with
  | handles _ _ => rfl
  | closes _ hclose => cases hopen.symm.trans hclose

def Input.isNotify (input : Input) : Bool :=
  match input with
  | .event _ e => e.isNotify
  | _ => false

theorem Stepped.asks {input : Input} (h : Stepped env s input s') (hinput : input.isNotify = false)
    : Asks s s' := by
  cases h with
  | opens _ _ => exact .of_unasked (.of_eq rfl)
  | handles _ _ => exact windowHandleEvent_asks env _ hinput s
  | @closes _ filtered e _ _ =>
    refine (windowHandleEvent_asks env filtered hinput s).right ?_
    exact Logs.trans (.act (a := .hangup) rfl) (.of_eq rfl)
  | drains _ => exact .of_unasked (.of_eq rfl)
  | @reads id bytes _ _ _ =>
    have hflush := (windowFlush_unselected env (ptyProcess env bytes (delEvent id s))).unasked
    exact .of_unasked (Logs.trans (.of_eq rfl) (hflush.trans (.of_eq rfl)))
  | ends _ _ _ => exact .of_unasked (Logs.trans (.act (a := .requestClose) rfl) (.of_eq rfl))
  | delay _ _ =>
    apply Asks.of_unasked
    unfold windowDelayCb
    extract_lets s₁
    have h₁ : Logs Action.Unasked s s₁ := .of_eq rfl
    exact h₁.trans ((windowFlush_unselected env s₁).unasked.trans (.of_eq rfl))
  | resetVisualBell _ _ =>
    apply Asks.of_unasked
    unfold windowResetVisualBell
    extract_lets s₁ s₂
    have h₂ : Logs Action.Unasked s s₂ := Logs.trans (.of_eq rfl) (.act (a := .paintBackground) rfl)
    exact h₂.trans ((windowFlush_unselected env s₂).unasked.trans (.of_eq rfl))
  | multiClick _ _ => exact .of_unasked (.of_eq rfl)

end Term
end Runes
