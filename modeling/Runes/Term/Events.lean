import Runes.Term.Keys
import Runes.Term.Window

/-!
This module contains the handlers of `window-xlib.c` for the events of the X server. Times, serial
numbers and windows other than the one of the terminal are left out, and the text of a key is that
of the last call of `Xutf8LookupString`, for which the buffer was large enough.
-/

namespace Runes
namespace Term

inductive Lookup where
  | both (sym : KeySym) (buf : List UInt8)
  | keySym (sym : KeySym)
  | chars (buf : List UInt8)
  | none

structure KeyEvent where
  press : Bool
  state : Modifiers
  lookup : Lookup

inductive Button where
  | button1
  | button2
  | button3
  | button4
  | button5
  | other (n : Nat)

structure ButtonEvent where
  press : Bool
  button : Button
  state : Modifiers
  x : Int
  y : Int

structure MotionEvent where
  state : Modifiers
  x : Int
  y : Int

-- `XConfigureEvent`, for `border_w` or for the window inside of it
structure ConfigureEvent where
  border : Bool
  width : Int
  height : Int

structure FocusEvent where
  focusIn : Bool
  -- The `detail` is `NotifyPointer`.
  notifyPointer : Bool

inductive SelectionEvent where
  -- The `property` is `None`.
  | none (utf8 : Bool)
  -- What `XGetWindowProperty` returns for the property.
  | property (buf : List UInt8)

inductive SelectionTarget where
  | targets
  | string
  | utf8String
  | other

inductive ClientMessage where
  | deleteWindow
  | ping
  | other

inductive Event where
  | key (e : KeyEvent)
  | button (e : ButtonEvent)
  | motion (e : MotionEvent)
  | expose
  -- With the events that `XCheckTypedWindowEvent` takes from the queue.
  | configure (e : ConfigureEvent) (later : List ConfigureEvent)
  | focus (e : FocusEvent)
  | selectionNotify (e : SelectionEvent)
  | selectionRequest (target : SelectionTarget)
  | selectionClear
  | clientMessage (a : ClientMessage)
  | other

variable {ρ : Type}

def windowHandleBuiltinKeypress (env : Env ρ) (sym : KeySym) (state : Modifiers) (s : World ρ)
    : Bool × World ρ :=
  let page := s.term.scr.grid.max.row - 1
  match sym, state.shift with
  | .insert, true => (true, windowPaste s)
  | .pageUp, true => (true, windowVisibleScroll env page s)
  | .pageDown, true => (true, windowVisibleScroll env (-page) s)
  | _, _ => (false, s)

def windowHandleKeyEvent (env : Env ρ) (e : KeyEvent) (s : World ρ) : World ρ :=
  if e.press then
    match e.lookup with
    | .both sym buf => symbol sym (some buf)
    | .keySym sym => symbol sym none
    | .chars buf => chars (some buf) s
    | .none => s
  else
    s
where
  -- The case `XLookupChars`, which is not reached after `XLookupKeySym`.
  chars (buf : Option (List UInt8)) (s : World ρ) : World ρ :=
    match buf with
    | some buf =>
      let s := if e.state.mod1 then windowWriteToPty env [0x1b] s else s
      windowWriteToPty env buf s
    | none => s
  symbol (sym : KeySym) (buf : Option (List UInt8)) : World ρ :=
    match windowHandleBuiltinKeypress env sym e.state s with
    | (true, s) => chars buf s
    | (false, s) =>
      match windowFindKeySequence s.term.scr sym e.state with
      | some key => windowWriteToPty env key.str s
      | none => chars buf s

def windowHandleBuiltinButtonPress (env : Env ρ) (e : ButtonEvent) (s : World ρ)
    : Bool × World ρ :=
  let acted := act .builtinButton s
  match e.press, e.button with
  | true, .button1 =>
    let s := windowStartSelection env e.x e.y acted
    (true, modifyWindow ({ · with mouseDown := true }) s)
  | true, .button2 => (true, windowPaste acted)
  | true, .button3 => (true, windowUpdateSelection env e.x e.y acted)
  | true, .button4 => (true, windowVisibleScroll env s.term.config.scrollLines acted)
  | true, .button5 => (true, windowVisibleScroll env (-s.term.config.scrollLines) acted)
  | false, .button1 =>
    let s := windowHandleMultiClick env e.x e.y acted
    (false, modifyWindow ({ · with mouseDown := false }) s)
  | _, _ => (false, s)

def Button.report (button : Button) : Option ReportButton :=
  match button with
  | .button1 => some .left
  | .button2 => some .middle
  | .button3 => some .right
  | .button4 => some .scrollUp
  | .button5 => some .scrollDown
  | .other _ => none

def reportedMousePosition (xpixel ypixel : Int) (s : World ρ) : Loc :=
  let loc := windowGetMousePosition xpixel ypixel s
  { loc with row := loc.row - s.term.scr.grid.rowTop }

def windowHandleButtonEvent (env : Env ρ) (e : ButtonEvent) (s : World ρ) : World ρ :=
  if e.state.shift then
    match windowHandleBuiltinButtonPress env e s with
    | (true, s) => s
    | (false, s) => report s
  else
    report s
where
  report (s : World ρ) : World ρ :=
    let scr := s.term.scr
    let wanted :=
      if e.press then env.vt100.wantsButtonPress scr else env.vt100.wantsButtonRelease scr
    if wanted then
      match e.button.report with
      | some button =>
        let type := if e.press then .press else .release
        let response :=
          env.vt100.formatMouseReportingResponse scr
            {
              loc := reportedMousePosition e.x e.y s
              type
              button
              shift := e.state.shift
              mod1 := e.state.mod1
              control := e.state.control
            }
        let s := act (.mouseReport type button) s
        if 0 < response.length ∧ response.length < 32 then
          windowWriteToPty env response s
        else
          s
      | none => s
    else
      (windowHandleBuiltinButtonPress env e s).snd

def Modifiers.report (state : Modifiers) : ReportButton :=
  if state.button1 then
    .left
  else if state.button2 then
    .middle
  else if state.button3 then
    .right
  else
    .none

def windowHandleMotionEvent (env : Env ρ) (e : MotionEvent) (s : World ρ) : World ρ :=
  let scr := s.term.scr
  if env.vt100.wantsAnyMotion scr ∨ (env.vt100.wantsButtonMotion scr ∧ s.term.w.mouseDown) then
    let loc := reportedMousePosition e.x e.y s
    if loc ≠ s.term.w.lastReportedMousePosition then
      let response :=
        env.vt100.formatMouseReportingResponse scr
          {
            loc
            type := .motion
            button := e.state.report
            shift := e.state.shift
            mod1 := e.state.mod1
            control := e.state.control
          }
      let s := act (.mouseReport .motion e.state.report) s
      let s := windowWriteToPty env response s
      modifyWindow ({ · with lastReportedMousePosition := loc }) s
    else
      s
  else if s.term.w.mouseDown then
    windowUpdateSelection env e.x e.y s
  else
    s

def windowHandleExposeEvent (env : Env ρ) (s : World ρ) : World ρ := windowFlush env s

def windowHandleConfigureEvent (env : Env ρ) (e : ConfigureEvent) (later : List ConfigureEvent)
    (s : World ρ)
    : World ρ :=
  if e.border then
    let e := later.getLastD e
    windowResizeWindow env e.width e.height s
  else
    s

def windowHandleFocusEvent (env : Env ρ) (e : FocusEvent) (s : World ρ) : World ρ :=
  if e.notifyPointer then
    s
  else if e.focusIn ∧ ¬s.term.display.unfocused then
    s
  else if ¬e.focusIn ∧ s.term.display.unfocused then
    s
  else
    let s := windowClearUrgent s
    windowFlush env (modifyDisplay ({ · with unfocused := !e.focusIn }) s)

def windowHandleSelectionNotifyEvent (env : Env ρ) (e : SelectionEvent) (s : World ρ)
    : World ρ :=
  match e with
  | .none utf8 => if utf8 then act (.convertSelection false) s else s
  | .property buf =>
    let s :=
      if s.term.scr.bracketedPaste then windowWriteToPty env (esc "[200~") s else s
    let s := windowWriteToPty env buf s
    if s.term.scr.bracketedPaste then windowWriteToPty env (esc "[201~") s else s

def windowHandleSelectionClearEvent (env : Env ρ) (s : World ρ) : World ρ :=
  let s := modifyDisplay ({ · with hasSelection := false }) s
  let s := modifyWindow ({ · with ownsSelection := false }) s
  windowFlush env (modifyDisplay ({ · with dirty := true }) s)

def windowHandleSelectionRequestEvent (target : SelectionTarget) (s : World ρ) : World ρ :=
  match target with
  | .targets => act (.selectionNotify false) (act .selectionTargets s)
  | .string => act (.selectionNotify false) (contents s)
  | .utf8String => act (.selectionNotify false) (contents s)
  | .other => act (.selectionNotify true) s
where
  contents (s : World ρ) : World ρ :=
    match s.term.display.selectionContents with
    | some contents => act (.selectionContents contents) s
    | none => s

def windowHandleEvent (env : Env ρ) (filtered : Bool) (e : Event) (s : World ρ)
    : Bool × World ρ :=
  if filtered then
    (false, s)
  else
    match e with
    | .key e => (false, windowHandleKeyEvent env e s)
    | .button e => (false, windowHandleButtonEvent env e s)
    | .motion e => (false, windowHandleMotionEvent env e s)
    | .expose => (false, windowHandleExposeEvent env s)
    | .configure e later => (false, windowHandleConfigureEvent env e later s)
    | .focus e => (false, windowHandleFocusEvent env e s)
    | .selectionNotify e => (false, windowHandleSelectionNotifyEvent env e s)
    | .selectionRequest target => (false, windowHandleSelectionRequestEvent target s)
    | .selectionClear => (false, windowHandleSelectionClearEvent env s)
    | .clientMessage .deleteWindow => (true, s)
    | .clientMessage .ping => (false, act .replyPing s)
    | .clientMessage .other => (false, s)
    | .other => (false, s)

end Term
end Runes
