import Runes.Term.Canvas
import Runes.Term.Lifetime
import Runes.Term.Stepped

/-!
This module contains that the window of a terminal shows the screen as it is, whenever no timer is pending
that flushes it again.
-/

namespace Runes
namespace Term

variable {ρ : Type} {env : Env ρ} {s s' s'' : World ρ}

/-- What a terminal does can be done by strokes on its canvas. -/
def Strokes (env : Env ρ) (s s' : World ρ) : Prop :=
  ∀ c : Canvas ρ, c.world = s →
    ∃ c', Relation.ReflTransGen (Stroke env) c c' ∧ c'.world = s'

theorem Canvas.flush_world (env : Env ρ) (c : Canvas ρ)
    : (c.flush env).world = windowFlush env c.world := by
  unfold Canvas.flush
  split
  . rfl
  . extract_lets s buffer cursor
    split
    . rfl
    . rfl

theorem Unnoticed.of_term (hdisplay : s'.term.display = s.term.display) (hscr : s'.term.scr = s.term.scr)
    (hdelaying : s'.term.w.delaying = s.term.w.delaying)
    (hringing : s'.term.w.visualBellIsRinging = s.term.w.visualBellIsRinging)
    (hlog : Logs Action.KeepsPaint s s')
    : Unnoticed s s' where
  toUnseen := .of_term hdisplay (by rw [hscr]) (by rw [hscr]) (by rw [hscr])
    (hlog.mono fun _ ha => ha.left)
  delaying := hdelaying
  ringing := hringing
  paint := hlog

theorem Touches.of_unseen (h : Unseen s s') : Touches env s s' :=
  ⟨Or.inr ⟨h.marked, h.look⟩, h.upToDate, h.log⟩

-- Wherever the window is scrolled to, the display is marked.
theorem Touches.scroll (offset : Int) (s : World ρ)
    : Touches env s (modifyDisplay ({ · with rowVisibleOffset := offset, dirty := true }) s) where
  marked := Or.inl (Bool.or_true _)
  upToDate htext hs hdirty := KeepsText.copied ⟨rfl, rfl, rfl, rfl, rfl⟩ htext (hs hdirty)
  log := .of_eq rfl

namespace Strokes

theorem refl (s : World ρ) : Strokes env s s := fun c hc => ⟨c, .refl, hc⟩

theorem trans (h : Strokes env s s') (h' : Strokes env s' s'') : Strokes env s s'' := by
  intro c hc
  obtain ⟨c₁, hpaint, hworld⟩ := h c hc
  obtain ⟨c₂, hpaint', hworld'⟩ := h' c₁ hworld
  exact ⟨c₂, hpaint.trans hpaint', hworld'⟩

theorem ite {c : Prop} [Decidable c] (h : c → Strokes env s s')
    : Strokes env s (if c then s' else s) := by
  split
  . next hc => exact h hc
  . exact refl s

theorem quiet (h : Unnoticed s s') : Strokes env s s' := by
  rintro c rfl
  exact ⟨_, .single (.quiet h), rfl⟩

theorem flush (h : Touches env s s') : Strokes env s (windowFlush env s') := by
  rintro c rfl
  exact ⟨_, .single (.flush h), Canvas.flush_world env _⟩

theorem resize (width height : Int) (s : World ρ)
    : Strokes env s (windowResizeWindow env width height s) := by
  rintro c rfl
  exact ⟨_, .single (.resize width height), rfl⟩

theorem act {a : Action} (s : World ρ) (ha : a.KeepsPaint) : Strokes env s (act a s) :=
  quiet (.of_term rfl rfl rfl rfl (.act ha))

theorem modifyWindow {f : RunesWindow → RunesWindow} (s : World ρ)
    (hf : ∀ w, (f w).delaying = w.delaying ∧ (f w).visualBellIsRinging = w.visualBellIsRinging)
    : Strokes env s (modifyWindow f s) :=
  quiet (.of_term rfl rfl (hf s.term.w).left (hf s.term.w).right (.of_eq rfl))

end Strokes

section Window

theorem windowWriteToPty_strokes (buf : List UInt8) (s : World ρ)
    : Strokes env s (windowWriteToPty env buf s) := by
  unfold windowWriteToPty
  extract_lets s₁
  have h₁ : Strokes env s s₁ := .act s ⟨fun _ => rfl, fun _ => rfl⟩
  exact h₁.trans (.ite fun _ => .flush (.scroll 0 s₁))

theorem windowVisibleScroll_strokes (count : Int) (s : World ρ)
    : Strokes env s (windowVisibleScroll env count s) := by
  unfold windowVisibleScroll
  extract_lets oldOffset offset s₁
  split
  . next hsame =>
    have heq : s₁ = s := by
      unfold s₁ modifyDisplay
      rw [hsame]
    rw [heq]
    exact .refl s
  . exact .flush (.scroll offset s)

theorem displaySetSelection_touches (start stop : Loc) (s : World ρ)
    : Touches env s (displaySetSelection env start stop s) := by
  refine ⟨Or.inl ?_, fun _ _ _ => displaySetSelection_copied start stop s, .of_eq rfl⟩
  unfold marked displaySetSelection modifyDisplay
  exact Bool.or_true _

theorem windowStartSelectionLoc_strokes (start : Loc) (s : World ρ)
    : Strokes env s (windowStartSelectionLoc env start s) :=
  .flush (displaySetSelection_touches start start s)

theorem windowAcquireSelection_strokes (s : World ρ) : Strokes env s (windowAcquireSelection env s) := by
  unfold windowAcquireSelection
  extract_lets oldOwner s₁ gotSelection s₂ s₃
  have h₁ : Strokes env s s₁ := .act s ⟨fun _ => rfl, fun _ => rfl⟩
  have h₂ : Strokes env s₁ s₂ := .quiet (.of_term rfl rfl rfl rfl (.of_eq rfl))
  have h₃ : Strokes env s₂ s₃ := .modifyWindow s₂ fun _ => ⟨rfl, rfl⟩
  split
  . exact .refl s
  . exact h₁.trans (h₂.trans (.ite fun _ => h₃.trans (.ite fun _ => .act s₃ ⟨fun _ => rfl, fun _ => rfl⟩)))

theorem windowUpdateSelectionLoc_strokes (stop : Loc) (s : World ρ)
    : Strokes env s (windowUpdateSelectionLoc env stop s) := by
  unfold windowUpdateSelectionLoc
  extract_lets s₁
  have h₁ : Strokes env s s₁ := windowAcquireSelection_strokes s
  exact .ite fun _ => .ite fun _ => h₁.trans (.flush (displaySetSelection_touches _ stop s₁))

theorem restartMultiClickTimer_strokes (s : World ρ) : Strokes env s (restartMultiClickTimer s) := by
  refine .quiet ?_
  unfold restartMultiClickTimer
  cases s.term.w.multiClickTimerEvent with
  | none =>
    exact .of_term rfl rfl rfl rfl ⟨_, rfl, List.forall_mem_singleton.mpr ⟨fun _ => rfl, fun _ => rfl⟩⟩
  | some id =>
    exact .of_term rfl rfl rfl rfl ⟨_, rfl, List.forall_mem_singleton.mpr ⟨fun _ => rfl, fun _ => rfl⟩⟩

theorem windowHandleMultiClick_strokes (xpixel ypixel : Int) (s : World ρ)
    : Strokes env s (windowHandleMultiClick env xpixel ypixel s) := by
  unfold windowHandleMultiClick
  extract_lets s₁ s₂ loc s₃ s₄
  have h₁ : Strokes env s s₁ := restartMultiClickTimer_strokes s
  have h₂ : Strokes env s₁ s₂ := .modifyWindow s₁ fun _ => ⟨rfl, rfl⟩
  refine h₁.trans (h₂.trans (.ite fun _ => ?_))
  split
  . exact (windowStartSelectionLoc_strokes _ s₂).trans (windowUpdateSelectionLoc_strokes _ s₃)
  . exact (windowStartSelectionLoc_strokes _ s₂).trans (windowUpdateSelectionLoc_strokes _ s₄)

end Window

section Events

theorem windowHandleBuiltinKeypress_strokes (sym : KeySym) (state : Modifiers) (s : World ρ)
    : Strokes env s (windowHandleBuiltinKeypress env sym state s).snd := by
  unfold windowHandleBuiltinKeypress
  split
  . exact .act s ⟨fun _ => rfl, fun _ => rfl⟩
  . exact windowVisibleScroll_strokes _ s
  . exact windowVisibleScroll_strokes _ s
  . exact .refl s

theorem chars_strokes (e : KeyEvent) (buf : Option (List UInt8)) (s : World ρ)
    : Strokes env s (windowHandleKeyEvent.chars env e buf s) := by
  unfold windowHandleKeyEvent.chars
  split
  . extract_lets s₁
    have h₁ : Strokes env s s₁ := .ite fun _ => windowWriteToPty_strokes [0x1b] s
    exact h₁.trans (windowWriteToPty_strokes _ s₁)
  . exact .refl s

theorem windowHandleKeyEvent_strokes (e : KeyEvent) (s : World ρ)
    : Strokes env s (windowHandleKeyEvent env e s) := by
  have hsymbol : ∀ sym buf, Strokes env s (windowHandleKeyEvent.symbol env e s sym buf) := by
    intro sym buf
    have hbuiltin : Strokes env s (windowHandleBuiltinKeypress env sym e.state s).snd :=
      windowHandleBuiltinKeypress_strokes sym e.state s
    unfold windowHandleKeyEvent.symbol
    split
    . next s₁ heq =>
      rw [heq] at hbuiltin
      exact hbuiltin.trans (chars_strokes e buf s₁)
    . next s₁ heq =>
      rw [heq] at hbuiltin
      split
      . exact hbuiltin.trans (windowWriteToPty_strokes _ s₁)
      . exact hbuiltin.trans (chars_strokes e buf s₁)
  unfold windowHandleKeyEvent
  split
  . split
    . exact hsymbol _ _
    . exact hsymbol _ _
    . exact chars_strokes e _ s
    . exact .refl s
  . exact .refl s

theorem windowHandleBuiltinButtonPress_strokes (e : ButtonEvent) (s : World ρ)
    : Strokes env s (windowHandleBuiltinButtonPress env e s).snd := by
  unfold windowHandleBuiltinButtonPress
  extract_lets acted s₁ s₂
  have hacted : Strokes env s acted := .act s ⟨fun _ => rfl, fun _ => rfl⟩
  split
  . have h₁ : Strokes env acted s₁ := windowStartSelectionLoc_strokes _ acted
    exact hacted.trans (h₁.trans (.modifyWindow (f := ({ · with mouseDown := true })) s₁
      fun _ => ⟨rfl, rfl⟩))
  . exact hacted.trans (.act acted ⟨fun _ => rfl, fun _ => rfl⟩)
  . exact hacted.trans (windowUpdateSelectionLoc_strokes _ acted)
  . exact hacted.trans (windowVisibleScroll_strokes _ acted)
  . exact hacted.trans (windowVisibleScroll_strokes _ acted)
  . have h₂ : Strokes env acted s₂ := windowHandleMultiClick_strokes e.x e.y acted
    exact hacted.trans (h₂.trans (.modifyWindow (f := ({ · with mouseDown := false })) s₂
      fun _ => ⟨rfl, rfl⟩))
  . exact .refl s

theorem report_strokes (e : ButtonEvent) (s : World ρ)
    : Strokes env s (windowHandleButtonEvent.report env e s) := by
  unfold windowHandleButtonEvent.report
  extract_lets scr wanted type
  split
  . cases e.button.report with
    | some button =>
      have h₁ : Strokes env s (act (.mouseReport type button) s) := .act s ⟨fun _ => rfl, fun _ => rfl⟩
      exact h₁.trans (.ite fun _ => windowWriteToPty_strokes _ _)
    | none => exact .refl s
  . exact windowHandleBuiltinButtonPress_strokes e s

theorem windowHandleButtonEvent_strokes (e : ButtonEvent) (s : World ρ)
    : Strokes env s (windowHandleButtonEvent env e s) := by
  have hbuiltin : Strokes env s (windowHandleBuiltinButtonPress env e s).snd :=
    windowHandleBuiltinButtonPress_strokes e s
  unfold windowHandleButtonEvent
  split
  . split
    . next s₁ heq =>
      rw [heq] at hbuiltin
      exact hbuiltin
    . next s₁ heq =>
      rw [heq] at hbuiltin
      exact hbuiltin.trans (report_strokes e s₁)
  . exact report_strokes e s

theorem windowHandleMotionEvent_strokes (e : MotionEvent) (s : World ρ)
    : Strokes env s (windowHandleMotionEvent env e s) := by
  unfold windowHandleMotionEvent
  extract_lets scr loc response s₁ s₂
  have h₁ : Strokes env s s₁ := .act s ⟨fun _ => rfl, fun _ => rfl⟩
  have h₂ : Strokes env s₁ s₂ := windowWriteToPty_strokes response s₁
  split
  . split
    . exact h₁.trans (h₂.trans (.modifyWindow s₂ fun _ => ⟨rfl, rfl⟩))
    . exact .refl s
  . exact .ite fun _ => windowUpdateSelectionLoc_strokes _ s

-- Only the cursor looks different without the focus.
theorem windowHandleFocusEvent_strokes (e : FocusEvent) (s : World ρ)
    : Strokes env s (windowHandleFocusEvent env e s) := by
  unfold windowHandleFocusEvent
  extract_lets s₁
  have h₁ : Strokes env s s₁ := .act s ⟨fun _ => rfl, fun _ => rfl⟩
  split
  . exact .refl s
  . split
    . exact .refl s
    . split
      . exact .refl s
      . refine h₁.trans (.flush ⟨Or.inr ⟨rfl, rfl⟩, fun htext hs hdirty => ?_, .of_eq rfl⟩)
        exact KeepsText.copied ⟨rfl, rfl, rfl, rfl, rfl⟩ htext (hs hdirty)

theorem windowHandleSelectionNotifyEvent_strokes (e : SelectionEvent) (s : World ρ)
    : Strokes env s (windowHandleSelectionNotifyEvent env e s) := by
  unfold windowHandleSelectionNotifyEvent
  split
  . exact .ite fun _ => .act s ⟨fun _ => rfl, fun _ => rfl⟩
  . extract_lets s₁ s₂
    have h₁ : Strokes env s s₁ := .ite fun _ => windowWriteToPty_strokes _ s
    have h₂ : Strokes env s₁ s₂ := windowWriteToPty_strokes _ s₁
    exact h₁.trans (h₂.trans (.ite fun _ => windowWriteToPty_strokes _ s₂))

theorem windowHandleSelectionClearEvent_strokes (s : World ρ)
    : Strokes env s (windowHandleSelectionClearEvent env s) :=
  .flush ⟨Or.inl (Bool.or_true _), fun _ _ _ => copied_of_not_hasSelection rfl, .of_eq rfl⟩

theorem windowHandleSelectionRequestEvent_strokes (target : SelectionTarget) (s : World ρ)
    : Strokes env s (windowHandleSelectionRequestEvent target s) := by
  have hact {a : Action} (s : World ρ) (ha : a.KeepsPaint) : Strokes env s (act a s) := .act s ha
  have hcontents : Strokes env s (windowHandleSelectionRequestEvent.contents s) := by
    unfold windowHandleSelectionRequestEvent.contents
    split
    . exact hact s ⟨fun _ => rfl, fun _ => rfl⟩
    . exact .refl s
  unfold windowHandleSelectionRequestEvent
  split
  . exact (hact s ⟨fun _ => rfl, fun _ => rfl⟩).trans (hact _ ⟨fun _ => rfl, fun _ => rfl⟩)
  . exact hcontents.trans (hact _ ⟨fun _ => rfl, fun _ => rfl⟩)
  . exact hcontents.trans (hact _ ⟨fun _ => rfl, fun _ => rfl⟩)
  . exact hact s ⟨fun _ => rfl, fun _ => rfl⟩

theorem windowHandleConfigureEvent_strokes (e : ConfigureEvent) (later : List ConfigureEvent)
    (s : World ρ)
    : Strokes env s (windowHandleConfigureEvent env e later s) := by
  unfold windowHandleConfigureEvent
  exact .ite fun _ => .resize _ _ s

theorem windowHandleEvent_strokes (filtered : Bool) (e : Event) (s : World ρ)
    : Strokes env s (windowHandleEvent env filtered e s).snd := by
  cases filtered with
  | true => exact .refl s
  | false =>
    cases e with
    | key e => exact windowHandleKeyEvent_strokes e s
    | button e => exact windowHandleButtonEvent_strokes e s
    | motion e => exact windowHandleMotionEvent_strokes e s
    | expose => exact .flush (.of_unseen (.refl s))
    | configure e later => exact windowHandleConfigureEvent_strokes e later s
    | focus e => exact windowHandleFocusEvent_strokes e s
    | selectionNotify e => exact windowHandleSelectionNotifyEvent_strokes e s
    | selectionRequest target => exact windowHandleSelectionRequestEvent_strokes target s
    | selectionClear => exact windowHandleSelectionClearEvent_strokes s
    | clientMessage a =>
      cases a with
      | deleteWindow => exact .refl s
      | ping => exact .act s ⟨fun _ => rfl, fun _ => rfl⟩
      | other => exact .refl s
    | other => exact .refl s

end Events

section Steps

theorem ptyProcess_touches (hmarks : env.vt100.Marks) (bytes : List UInt8) (s : World ρ)
    : Touches env s (ptyProcess env bytes s) := by
  refine ⟨?_, fun htext => ptyProcess_upToDate htext bytes, .of_eq rfl⟩
  have hprocess := hmarks.processString s.term.scr (s.term.pty.readbuf ++ bytes)
  cases hmarked : marked (ptyProcess env bytes s) with
  | true => exact Or.inl rfl
  | false =>
    unfold marked at hmarked
    rw [Bool.or_eq_false_iff] at hmarked
    obtain ⟨hdirty, hshape⟩ := hprocess hmarked.left
    refine Or.inr ⟨?_, ?_⟩
    . unfold marked
      rw [hdirty]
      exact hmarked.right.symm
    . have hlook : look (ptyProcess env bytes s).term = { look s.term with
          shape := (env.vt100.processString s.term.scr (s.term.pty.readbuf ++ bytes)).fst.grid.shape }
          := rfl
      rw [hlook, hshape]
      rfl

theorem termRefcntDec_strokes (s : World ρ) : Strokes env s (termRefcntDec s) :=
  .quiet (.of_term rfl rfl rfl rfl (.of_eq rfl))

theorem delEvent_strokes (id : Nat) (s : World ρ) : Strokes env s (delEvent id s) :=
  .quiet (.of_term rfl rfl rfl rfl (.of_eq rfl))

theorem strokes_step (hmarks : env.vt100.Marks) {input : Input} (h : step env s input = some s')
    : Strokes env s s' := by
  cases stepped h with
  | opens _ _ => exact .quiet (.of_term rfl rfl rfl rfl (.of_eq rfl))
  | handles _ _ => exact windowHandleEvent_strokes _ _ s
  | closes _ _ =>
    refine (windowHandleEvent_strokes _ _ s).trans (.quiet (.of_term rfl rfl rfl rfl ?_))
    exact ⟨_, rfl, List.forall_mem_singleton.mpr ⟨fun _ => rfl, fun _ => rfl⟩⟩
  | drains _ => exact .quiet (.of_term rfl rfl rfl rfl (.of_eq rfl))
  | @reads id bytes _ _ _ =>
    have hread : Strokes env (delEvent id s) (windowFlush env (ptyProcess env bytes (delEvent id s))) :=
      .flush (ptyProcess_touches hmarks bytes _)
    exact (delEvent_strokes id s).trans (hread.trans (.quiet (.of_term rfl rfl rfl rfl (.of_eq rfl))))
  | ends _ _ _ =>
    refine .quiet (.of_term rfl rfl rfl rfl ?_)
    exact ⟨_, rfl, List.forall_mem_singleton.mpr ⟨fun _ => rfl, fun _ => rfl⟩⟩
  | @delay id _ _ =>
    have hflush : Strokes env (delEvent id s)
        (windowFlush env (modifyWindow ({ · with delaying := false }) (delEvent id s))) :=
      .flush (.of_unseen (.of_term rfl rfl rfl rfl (.of_eq rfl)))
    exact (delEvent_strokes id s).trans (hflush.trans (termRefcntDec_strokes _))
  | @resetVisualBell id _ _ =>
    have hflush : Strokes env (delEvent id s) (windowFlush env (act .paintBackground
        (modifyWindow ({ · with visualBellIsRinging := false }) (delEvent id s)))) :=
      .flush (.of_unseen (.of_term rfl rfl rfl rfl (.act fun _ => rfl)))
    exact (delEvent_strokes id s).trans (hflush.trans (termRefcntDec_strokes _))
  | multiClick _ _ => exact .quiet (.of_term rfl rfl rfl rfl (.of_eq rfl))

end Steps

def blank (env : Env ρ) (start : Start) : Canvas ρ :=
  { world := (machine env start).init, buffer := none, painted := none }

/-- The canvases of a terminal that starts with an empty window. -/
def Canvas.Drawn (env : Env ρ) (start : Start) (c : Canvas ρ) : Prop :=
  Relation.ReflTransGen (Stroke env) (blank env start) c

theorem blank_ok (env : Env ρ) (start : Start) : (blank env start).Ok := by
  have hlog : drawnInSize (blank env start).world.log = false := rfl
  refine ⟨fun hdrawn => ?_, fun hdrawn => ?_⟩
  . exact absurd (hlog.symm.trans hdrawn) (by decide)
  . exact absurd (hlog.symm.trans hdrawn) (by decide)

theorem Canvas.Drawn.ok {start : Start} {c : Canvas ρ} (h : c.Drawn env start) : c.Ok := by
  induction h with
  | refl => exact blank_ok env start
  | tail _ hstroke ih => exact hstroke.ok ih

theorem exists_drawn {start : Start} (hmarks : env.vt100.Marks) (h : (machine env start).Reachable s)
    : ∃ c : Canvas ρ, c.Drawn env start ∧ c.world = s := by
  apply h.invariant (P := fun s => ∃ c : Canvas ρ, c.Drawn env start ∧ c.world = s)
  . exact ⟨_, .refl, rfl⟩
  . rintro s input s' ⟨c, hdrawn, hworld⟩ _ hstep
    obtain ⟨c', hpaint, hworld'⟩ := strokes_step hmarks hstep c hworld
    exact ⟨c', hdrawn.trans hpaint, hworld'⟩

theorem Alive.timers_off (h : Alive s)
    (hpending : ∀ e ∈ s.pending, e.kind ≠ .delay ∧ e.kind ≠ .resetVisualBell)
    : s.term.w.delaying = false ∧ s.term.w.visualBellIsRinging = false := by
  obtain ⟨p, hp⟩ := h.named
  have hnone {kind : Callback} (hkind : ∀ e ∈ s.pending, e.kind ≠ kind) : (p kind).isSome = false := by
    rw [Bool.eq_false_iff, Ne, hp.slots.isSome_iff]
    rintro ⟨e, he, hkind'⟩
    exact hkind e he hkind'
  constructor
  . exact hp.delay.symm.trans (hnone fun e he => (hpending e he).left)
  . exact hp.resetVisualBell.symm.trans (hnone fun e he => (hpending e he).right)

theorem Canvas.Drawn.shows {start : Start} {c : Canvas ρ} (hdrawn : c.Drawn env start)
    (h : (machine env start).Reachable c.world)
    (hpending : ∀ e ∈ c.world.pending, e.kind ≠ .delay ∧ e.kind ≠ .resetVisualBell)
    (hsize : drawnInSize c.world.log = true)
    : marked c.world = false ∧ screenShown c.world.log = true
        ∧ c.painted = some ⟨some (look c.world.term), displayDrawCursor c.world.term⟩ := by
  obtain ⟨hdelaying, hringing⟩ := (Reachable.alive h).timers_off hpending
  obtain ⟨hmarked, hshown, hpainted⟩ := hdrawn.ok.painted hsize hdelaying hringing
  rw [hdrawn.ok.buffer hsize hmarked] at hpainted
  exact ⟨hmarked, hshown, hpainted⟩

/--
As long as neither of the timers is pending that flush the window, it shows the screen as it is: the rows
that it has scrolled to, with what is selected of them, and the cursor. Only in a new size this waits
until the screen is drawn again.
-/
theorem shows_screen {start : Start} (hmarks : env.vt100.Marks)
    (h : (machine env start).Reachable s)
    (hpending : ∀ e ∈ s.pending, e.kind ≠ .delay ∧ e.kind ≠ .resetVisualBell)
    (hsize : drawnInSize s.log = true)
    : marked s = false ∧ screenShown s.log = true
        ∧
      (∃ c : Canvas ρ, c.Drawn env start ∧ c.world = s)
        ∧
      ∀ c : Canvas ρ, c.Drawn env start → c.world = s →
        c.painted = some ⟨some (look s.term), displayDrawCursor s.term⟩ := by
  obtain ⟨c, hdrawn, rfl⟩ := exists_drawn hmarks h
  obtain ⟨hmarked, hshown, _⟩ := hdrawn.shows h hpending hsize
  refine ⟨hmarked, hshown, ⟨c, hdrawn, rfl⟩, ?_⟩
  intro c' hdrawn' hworld
  rw [← hworld] at h hpending hsize ⊢
  exact (hdrawn'.shows h hpending hsize).right.right

namespace Plain

theorem vt100_marks : vt100.Marks := ⟨fun _ _ h => by cases h⟩

def button1 : ButtonEvent := { press := true, button := .button1, state := noModifiers, x := 0, y := 0 }

def drag : MotionEvent := { state := noModifiers, x := 2, y := 0 }

-- Two columns are selected, and then there is output.
def selectsAndScrolls : List Input :=
  [.windowReady 0, .event false .expose, .event false (.button button1), .event false (.motion drag),
    .drained, .ptyReady 1 (some [0x0a])]

end Plain

theorem shows_screen_selection
    : ∃ s, (machine Plain.env Plain.start).run (machine Plain.env Plain.start).init
          Plain.selectsAndScrolls = some s
        ∧ (look s.term).selection = some (⟨0, 0⟩, ⟨0, 2⟩)
        ∧ displayDrawCursor s.term = some ⟨1, 0, Plain.cell, false⟩
        ∧ ∀ c : Canvas Unit, c.Drawn Plain.env Plain.start → c.world = s →
            c.painted = some ⟨some (look s.term), displayDrawCursor s.term⟩ := by
  obtain ⟨s, hrun, hpending, hsize, hselection, hcursor⟩ : ∃ s,
      (machine Plain.env Plain.start).run (machine Plain.env Plain.start).init
          Plain.selectsAndScrolls = some s ∧
        (∀ e ∈ s.pending, e.kind ≠ .delay ∧ e.kind ≠ .resetVisualBell) ∧
          drawnInSize s.log = true ∧ (look s.term).selection = some (⟨0, 0⟩, ⟨0, 2⟩) ∧
            displayDrawCursor s.term = some ⟨1, 0, Plain.cell, false⟩ :=
    Exec.Machine.exists_run (by decide +kernel)
  have hreach := Exec.Machine.Reaches.init.run (Exec.Machine.runOk_true _ _) hrun
  obtain ⟨_, _, _, hpainted⟩ := shows_screen Plain.vt100_marks hreach hpending hsize
  exact ⟨s, hrun, hselection, hcursor, hpainted⟩

end Term
end Runes
