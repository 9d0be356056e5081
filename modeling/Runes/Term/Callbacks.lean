import Runes.Exec.Machine
import Runes.Term.Events

/-!
This module contains the callbacks of a terminal and the machine that runs them: whenever no callback
is running, the event loop starts one of those that are pending, in any order. The callback of the
window takes one event after the other, which are steps of their own.
-/

namespace Runes
namespace Term

variable {ρ : Type}

structure Start where
  config : RunesConfig
  fontx : Int
  fonty : Int
  width : Int
  height : Int

def windowNew : RunesWindow :=
  {
    lastRedraw := ⟨0, 0⟩
    multiClicks := 0
    multiClickTimerEvent := none
    lastReportedMousePosition := ⟨-1, -1⟩
    ownsSelection := false
    visualBellIsRinging := false
    delaying := false
    mouseDown := false
  }

def displayNew (fontx fonty : Int) : RunesDisplay :=
  {
    glyphBuf := 0
    rowVisibleOffset := 0
    xpixel := 0
    ypixel := 0
    fontx
    fonty
    selectionStart := ⟨0, 0⟩
    selectionEnd := ⟨0, 0⟩
    selectionContents := none
    unfocused := false
    hasSelection := false
    dirty := false
  }

def ptyNew : RunesPty := { readbuf := [], readlen := 0 }

def termNew (env : Env ρ) (start : Start) : World ρ :=
  let config := start.config
  let scr := env.vt100.screenNew config.defaultRows config.defaultCols
  let scr := env.vt100.setScrollbackLength scr config.scrollbackLength
  let term :=
    {
      config
      display := displayNew start.fontx start.fonty
      w := windowNew
      pty := ptyNew
      scr
      refcnt := 0
    }
  termSetWindowSize env start.width start.height
    {
      term
      pending := []
      next := 0
      busy := none
      deletes := 0
      log := []
      ticks := 0
      queries := 0
    }

def windowInitLoop (s : World ρ) : World ρ := loopStartWork .windowEvent (termRefcntInc s)

def ptyInitLoop (s : World ρ) : World ρ := loopStartWork .ptyInput (termRefcntInc s)

def termRegisterWithLoop (s : World ρ) : World ρ := ptyInitLoop (windowInitLoop s)

-- The end of `runes_window_event_cb` after an event that closes the window.
def windowClose (s : World ρ) : World ρ := termRefcntDec (act .hangup s)

/--
`runes_pty_input_cb`, and whether it wants to be called again. The answer of `read` is `none` for an
error, and without bytes at the end of the file.
-/
def ptyInputCb (env : Env ρ) (answer : Option (List UInt8)) (s : World ρ) : Bool × World ρ :=
  let readlen : Int :=
    match answer with
    | some bytes => bytes.length
    | none => -1
  let pty := { s.term.pty with readlen }
  if readlen > 0 then
    let buf := pty.readbuf ++ answer.getD []
    let (scr, processed) := env.vt100.processString s.term.scr buf
    let pty := { pty with readbuf := buf.drop processed }
    (true, windowFlush env (modifyTerm ({ · with scr, pty }) s))
  else
    let s := modifyTerm ({ · with pty }) s
    (false, termRefcntDec (act .requestClose s))

def windowDelayCb (env : Env ρ) (s : World ρ) : World ρ :=
  let s := modifyWindow ({ · with delaying := false }) s
  termRefcntDec (windowFlush env s)

def windowResetVisualBell (env : Env ρ) (s : World ρ) : World ρ :=
  let s := modifyWindow ({ · with visualBellIsRinging := false }) s
  let s := act .paintBackground s
  termRefcntDec (windowFlush env s)

def windowMultiClickCb (s : World ρ) : World ρ :=
  termRefcntDec (modifyWindow ({ · with multiClicks := 0, multiClickTimerEvent := none }) s)

inductive Input where
  -- The connection to the X server is readable, and the callback of the window starts.
  | windowReady (id : Nat)
  -- The callback of the window finds an event.
  | event (filtered : Bool) (e : Event)
  -- The callback of the window finds no event and ends.
  | drained
  -- The pty is readable, with the answer of `read`.
  | ptyReady (id : Nat) (answer : Option (List UInt8))
  | timerExpired (id : Nat)

def ready (id : Nat) (s : World ρ) : Option (Entry Callback) :=
  match s.busy with
  | some _ => none
  | none => s.pending.find? (fun e => e.id = id)

def readdEvent (e : Entry Callback) (s : World ρ) : World ρ :=
  { s with pending := s.pending ++ [e] }

def readRoom (pty : RunesPty) : Nat := readBufferLength - pty.remaininglen

def stepWindowReady (id : Nat) (s : World ρ) : Option (World ρ) :=
  match ready id s with
  | some ⟨id, .windowEvent⟩ => some { delEvent id s with busy := some id }
  | _ => none

def stepEvent (env : Env ρ) (filtered : Bool) (e : Event) (s : World ρ) : Option (World ρ) :=
  match s.busy with
  | some _ =>
    match windowHandleEvent env filtered e s with
    | (true, s) => some { windowClose s with busy := none }
    | (false, s) => some s
  | none => none

def stepDrained (s : World ρ) : Option (World ρ) :=
  match s.busy with
  | some id => some { readdEvent ⟨id, .windowEvent⟩ s with busy := none }
  | none => none

def stepPtyReady (env : Env ρ) (id : Nat) (answer : Option (List UInt8)) (s : World ρ)
    : Option (World ρ) :=
  match ready id s with
  | some ⟨id, .ptyInput⟩ =>
    if (answer.getD []).length ≤ readRoom s.term.pty then
      match ptyInputCb env answer (delEvent id s) with
      | (true, s) => some (readdEvent ⟨id, .ptyInput⟩ s)
      | (false, s) => some s
    else
      none
  | _ => none

def stepTimerExpired (env : Env ρ) (id : Nat) (s : World ρ) : Option (World ρ) :=
  match ready id s with
  | some ⟨id, .delay⟩ => some (windowDelayCb env (delEvent id s))
  | some ⟨id, .resetVisualBell⟩ => some (windowResetVisualBell env (delEvent id s))
  | some ⟨id, .multiClick⟩ => some (windowMultiClickCb (delEvent id s))
  | _ => none

def step (env : Env ρ) (s : World ρ) (input : Input) : Option (World ρ) :=
  match input with
  | .windowReady id => stepWindowReady id s
  | .event filtered e => stepEvent env filtered e s
  | .drained => stepDrained s
  | .ptyReady id answer => stepPtyReady env id answer s
  | .timerExpired id => stepTimerExpired env id s

def machine (env : Env ρ) (start : Start) : Exec.Machine (World ρ) Input where
  init := termRegisterWithLoop (termNew env start)
  step := step env

end Term
end Runes
