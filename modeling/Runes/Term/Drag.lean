import Runes.Term.Mouse

/-!
This module contains when the window knows whether the first button is held, which it needs to report
motions and to select text.
-/

namespace Runes
namespace Term

section

variable {ρ : Type} {env : Env ρ} {s s' : World ρ}

/-- Whether the first button is held after an event. It is pressed and released in turns. -/
def nextHeld (held : Bool) (input : Input) : Option Bool :=
  match input with
  | .event false (.button e) =>
    match e.button with
    | .button1 => if e.press = held then none else some e.press
    | _ => some held
  | _ => some held

def heldMachine (env : Env ρ) (start : Start) : Exec.Machine (World ρ × Bool) Input :=
  (machine env start).record false fun _ held input => nextHeld held input

def motionResponse (env : Env ρ) (e : MotionEvent) (s : World ρ) : List UInt8 :=
  env.vt100.formatMouseReportingResponse s.term.scr
    {
      loc := reportedMousePosition e.x e.y s
      type := .motion
      button := e.state.report
      shift := e.state.shift
      mod1 := e.state.mod1
      control := e.state.control
    }

def SameSelection (s s' : World ρ) : Prop :=
  s'.term.display.selectionStart = s.term.display.selectionStart
    ∧ s'.term.display.selectionEnd = s.term.display.selectionEnd

/--
The window knows whether the first button is held. So the motions with the button are reported, if the
program wants that, and those without it select nothing.
-/
structure MouseFollows (env : Env ρ) (s : World ρ × Bool) : Prop where
  mouseDown : s.fst.term.w.mouseDown = s.snd
  reported : s.snd = true → env.vt100.wantsButtonMotion s.fst.term.scr = true →
    ∀ e : MotionEvent,
      reportedMousePosition e.x e.y s.fst ≠ s.fst.term.w.lastReportedMousePosition →
        Happens (.write (motionResponse env e s.fst)) s.fst (windowHandleMotionEvent env e s.fst)
  unselected : s.snd = false →
    ∀ e : MotionEvent, SameSelection s.fst (windowHandleMotionEvent env e s.fst)

-- The events of the first button go to the built-in handler.
def ReachesBuiltin (env : Env ρ) (s : World ρ × Bool) (input : Input) : Prop :=
  match input with
  | .event false (.button e) =>
    e.button = .button1 → e.state.shift = true ∨ wantsButton env e s.fst.term.scr = false
  | _ => True

theorem windowWriteToPty_writes (env : Env ρ) (buf : List UInt8) (s : World ρ)
    : Happens (.write buf) s (windowWriteToPty env buf s) ∧ SameSelection s (windowWriteToPty env buf s)
    := by
  unfold windowWriteToPty
  extract_lets s₁
  have hwrite : Happens (.write buf) s s₁ := happens_act _ s
  split
  . have hflushes := (windowFlush_flushes env
      (modifyDisplay ({ · with rowVisibleOffset := 0, dirty := true }) s₁)).left
    exact ⟨hflushes.log.happens_left hwrite, hflushes.selectionStart, hflushes.selectionEnd⟩
  . exact ⟨hwrite, rfl, rfl⟩

theorem motion_reported {e : MotionEvent} (hdown : s.term.w.mouseDown = true)
    (hwants : env.vt100.wantsButtonMotion s.term.scr = true)
    (hnew : reportedMousePosition e.x e.y s ≠ s.term.w.lastReportedMousePosition)
    : Happens (.write (motionResponse env e s)) s (windowHandleMotionEvent env e s) := by
  have hreport : Logs (fun _ => True) s (act (.mouseReport .motion e.state.report) s) := .act trivial
  have hwrite := (windowWriteToPty_writes env (motionResponse env e s)
    (act (.mouseReport .motion e.state.report) s)).left
  unfold windowHandleMotionEvent
  dsimp only
  rw [if_pos (Or.inr ⟨hwants, hdown⟩), if_pos hnew]
  exact hreport.happens_right hwrite

theorem motion_unselected (hdown : s.term.w.mouseDown = false) (e : MotionEvent)
    : SameSelection s (windowHandleMotionEvent env e s) := by
  unfold windowHandleMotionEvent
  extract_lets scr loc response s₁ s₂
  split
  . split
    . exact (windowWriteToPty_writes env response s₁).right
    . exact ⟨rfl, rfl⟩
  . rw [hdown]
    exact ⟨rfl, rfl⟩

theorem mouseFollows_of_mouseDown {s : World ρ × Bool} (h : s.fst.term.w.mouseDown = s.snd)
    : MouseFollows env s where
  mouseDown := h
  reported hheld hwants _ hnew := motion_reported (h.trans hheld) hwants hnew
  unselected hheld e := motion_unselected (h.trans hheld) e

section

variable (p : Pointer) (e : ButtonEvent)

def ButtonEvent.heldAfter (e : ButtonEvent) (held : Bool) : Bool :=
  match e.button with
  | .button1 => e.press
  | _ => held

theorem builtinActs_mouseDown
    : ((builtinActs e).foldl Pointer.cause p).mouseDown = e.heldAfter p.mouseDown := by
  unfold builtinActs ButtonEvent.heldAfter
  cases e.press <;> cases e.button <;> rfl

theorem reportActs_mouseDown (env : Env ρ) (scr : Screen ρ)
    : ((reportActs env e scr).foldl Pointer.cause p).mouseDown
        = if wantsButton env e scr then p.mouseDown else e.heldAfter p.mouseDown := by
  unfold reportActs
  split
  . cases e.button.report <;> rfl
  . apply builtinActs_mouseDown

theorem heldAfter_idem (held : Bool) : e.heldAfter (e.heldAfter held) = e.heldAfter held := by
  unfold ButtonEvent.heldAfter
  cases e.button <;> rfl

theorem buttonActs_mouseDown (env : Env ρ) (s : World ρ)
    : ((buttonActs env e s).foldl Pointer.cause p).mouseDown
        = if e.state.shift || !wantsButton env e s.term.scr then
            e.heldAfter p.mouseDown
          else
            p.mouseDown := by
  unfold buttonActs
  split
  . next hshift =>
    rw [hshift, Bool.true_or, if_pos rfl]
    split
    . apply builtinActs_mouseDown
    . rw [List.foldl_append, reportActs_mouseDown, builtinActs_mouseDown, heldAfter_idem, ite_self]
  . next hshift =>
    rw [eq_false_of_ne_true hshift, Bool.false_or, reportActs_mouseDown]
    cases wantsButton env e s.term.scr <;> rfl

end

theorem mouseDown_of_stepped {input : Input} (h : Stepped env s input s')
    : s'.term.w.mouseDown
        = ((stepActs env s input).foldl Pointer.cause (pointer s)).mouseDown := by
  rcases h.pointer with hpointer | ⟨⟨id, hinput, _⟩, hpointer⟩
  . exact congrArg Pointer.mouseDown hpointer
  . subst hinput
    exact congrArg Pointer.mouseDown hpointer

theorem motionActs_mouseDown (env : Env ρ) (e : MotionEvent) (s : World ρ) (p : Pointer)
    : ((motionActs env e s).foldl Pointer.cause p).mouseDown = p.mouseDown := by
  unfold motionActs
  split
  . split <;> rfl
  . rfl

theorem buttonEvent_held {held held' : Bool} {e : ButtonEvent}
    (hnext : nextHeld held (.event false (.button e)) = some held')
    : held' = e.heldAfter held ∧ (e.button = .button1 → held' ≠ held) := by
  unfold nextHeld at hnext
  unfold ButtonEvent.heldAfter
  dsimp only at hnext
  cases hbutton : e.button with
  | button1 =>
    rw [hbutton] at hnext
    dsimp only at hnext
    split at hnext
    . cases hnext
    . next hne =>
      have heq := Option.some.inj hnext
      exact ⟨heq.symm, fun _ => heq ▸ hne⟩
  | _ =>
    rw [hbutton] at hnext
    exact ⟨(Option.some.inj hnext).symm, by simp⟩

theorem heldMachine_button {start : Start} {s s' : World ρ × Bool} {e : ButtonEvent}
    (hs : s.fst.term.w.mouseDown = s.snd)
    (h : (heldMachine env start).step s (.event false (.button e)) = some s')
    : s'.fst.term.w.mouseDown = s'.snd ↔ ReachesBuiltin env s (.event false (.button e)) := by
  have ⟨hstep, hnext⟩ := Exec.Machine.record_step h
  have ⟨hheld, hturn⟩ := buttonEvent_held hnext
  have hstepped : Stepped env s.fst (.event false (.button e)) s'.fst := stepped hstep
  have hdown := (mouseDown_of_stepped hstepped).trans (buttonActs_mouseDown _ e env s.fst)
  have hs' : (pointer s.fst).mouseDown = s.snd := hs
  rw [hs'] at hdown
  unfold ReachesBuiltin
  dsimp only
  rw [hdown]
  by_cases hbuiltin : e.state.shift = true ∨ wantsButton env e s.fst.term.scr = false
  . rw [if_pos (by simpa using hbuiltin)]
    exact iff_of_true hheld.symm (fun _ => hbuiltin)
  . rw [if_neg (by simpa using hbuiltin)]
    constructor
    . intro heq hbutton
      exact absurd heq.symm (hturn hbutton)
    . intro hreaches
      by_cases hbutton : e.button = .button1
      . exact absurd (hreaches hbutton) hbuiltin
      . rw [hheld]
        unfold ButtonEvent.heldAfter
        cases hkind : e.button with
        | button1 => exact absurd hkind hbutton
        | _ => rfl

theorem heldMachine_step {start : Start} {s s' : World ρ × Bool} {input : Input}
    (hs : s.fst.term.w.mouseDown = s.snd) (h : (heldMachine env start).step s input = some s')
    : s'.fst.term.w.mouseDown = s'.snd ↔ ReachesBuiltin env s input := by
  have ⟨hstep, hnext⟩ := Exec.Machine.record_step h
  have hdown := mouseDown_of_stepped (stepped hstep)
  have hother : (stepActs env s.fst input).foldl Pointer.cause (pointer s.fst) = pointer s.fst →
      nextHeld s.snd input = some s.snd → s'.fst.term.w.mouseDown = s'.snd := by
    intro hacts hsame
    rw [hnext] at hsame
    rw [hdown, hacts, Option.some.inj hsame]
    exact hs
  cases input with
  | event filtered e =>
    cases filtered with
    | true => cases e <;> exact iff_of_true (hother rfl rfl) trivial
    | false =>
      cases e with
      | button e => exact heldMachine_button hs h
      | motion e =>
        refine iff_of_true ?_ trivial
        have hheld := Option.some.inj hnext
        have hmotion := hdown.trans (motionActs_mouseDown env e s.fst (pointer s.fst))
        exact hmotion.trans (hs.trans hheld)
      | _ => exact iff_of_true (hother rfl rfl) trivial
  | _ => exact iff_of_true (hother rfl rfl) trivial

/--
In every run in which the first button is pressed and released in turns, the window knows in every
state whether it is held, exactly if every one of its events goes to the built-in handler, because of
the shift key or because the program does not want it then.
-/
theorem mouseFollows_iff (env : Env ρ) (start : Start) (inputs : List Input)
    : (heldMachine env start).Always (MouseFollows env) (heldMachine env start).init inputs
        ↔ (heldMachine env start).RunOk (ReachesBuiltin env) (heldMachine env start).init inputs := by
  apply Exec.Machine.always_iff_runOk (fun s => s.fst.term.w.mouseDown = s.snd)
  . exact fun s hs => mouseFollows_of_mouseDown hs
  . exact fun s input s' hs hstep hok => (heldMachine_step hs hstep).mpr hok
  . exact fun s input s' hs hstep hfollows => (heldMachine_step hs hstep).mp hfollows.mouseDown
  . rfl

end

namespace Drag

def buttonMotion : List UInt8 := [0x1b, 0x5b, 0x3f, 0x31, 0x30, 0x30, 0x32, 0x68]

/-- A libvt100 for programs that ask for reports of the buttons and of motions with a button held. -/
def vt100 : VT100 Bool where
  screenNew row col := { Plain.screen row col with rest := false }
  setScrollbackLength scr _ := scr
  setWindowSize scr row col :=
    { scr with grid := Plain.grid scr.grid.cur ⟨row, col⟩ scr.grid.rowCount, dirty := true }
  processString scr buf := ({ scr with rest := buf = buttonMotion, dirty := true }, buf.length)
  getStringPlaintext _ _ _ := some []
  cellAt scr row col := (scr.grid.rows (row + scr.grid.rowTop)).cells col
  wantsButtonPress scr := scr.rest
  wantsButtonRelease scr := scr.rest
  wantsAnyMotion _ := false
  wantsButtonMotion scr := scr.rest
  formatMouseReportingResponse _ _ := [0x1b, 0x5b, 0x4d]
  charWidth _ := 1
  utf8Skip _ := 1
  utf8GetChar bytes := (bytes.headD 0).toUInt32
  isspace uc := uc = 0x20

def env : Env Bool :=
  { vt100, clock := fun n => ⟨n, 0⟩, selectionOwner := fun _ => 1, window := 1 }

-- The program asks for motions, the button is pressed, and the mouse moves to another cell.
def inputs : List Input :=
  [
    .ptyReady 1 (some buttonMotion),
    .windowReady 0,
    .event false
      (.button { press := true, button := .button1, state := Plain.noModifiers, x := 0, y := 0 }),
    .event false (.motion { state := { Plain.noModifiers with button1 := true }, x := 5, y := 1 })
  ]

end Drag

theorem not_mouseFollows_drag
    : ∃ s, (heldMachine Drag.env Plain.start).run (heldMachine Drag.env Plain.start).init
          Drag.inputs = some s
        ∧ s.snd = true
        ∧ s.fst.term.w.mouseDown = false
        ∧ .mouseReport .press .left ∈ s.fst.log
        ∧ .mouseReport .motion .left ∉ s.fst.log
        ∧ ¬MouseFollows Drag.env s := by
  let M := heldMachine Drag.env Plain.start
  have ⟨s, hrun, hheld, hdown, hpress, hmotion⟩ : ∃ s, M.run M.init Drag.inputs = some s
      ∧ s.snd = true ∧ s.fst.term.w.mouseDown = false ∧ .mouseReport .press .left ∈ s.fst.log
      ∧ .mouseReport .motion .left ∉ s.fst.log :=
    Exec.Machine.exists_run (by decide +kernel)
  refine ⟨s, hrun, hheld, hdown, hpress, hmotion, ?_⟩
  intro hfollows
  have hmouse := hfollows.mouseDown
  rw [hheld, hdown] at hmouse
  cases hmouse

end Term
end Runes
