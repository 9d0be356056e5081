import Runes.Refs.Holders
import Runes.Term.Screen

/-!
This module contains the state of a terminal with its window, its display, its pty and the callbacks
of it that the event loop knows, and the operations that touch the loop and the reference count,
from `loop.c` and `term.c`.
-/

namespace Runes
namespace Term

structure Timespec where
  sec : Int
  nsec : Int
  deriving DecidableEq

structure Timeval where
  sec : Int
  usec : Int
  deriving DecidableEq

structure RunesConfig where
  defaultRows : Int
  defaultCols : Int
  scrollLines : Int
  scrollbackLength : Int
  redrawRate : Int
  doubleClickRate : Int
  audibleBell : Bool
  bellIsUrgent : Bool

structure RunesDisplay where
  -- How many columns `glyph_buf` has room for.
  glyphBuf : Int
  rowVisibleOffset : Int
  -- `xpixel` and `ypixel` are never assigned.
  xpixel : Int
  ypixel : Int
  fontx : Int
  fonty : Int
  selectionStart : Loc
  selectionEnd : Loc
  selectionContents : Option (List UInt8)
  unfocused : Bool
  hasSelection : Bool
  dirty : Bool

structure RunesWindow where
  lastRedraw : Timespec
  multiClicks : UInt32
  multiClickTimerEvent : Option Nat
  lastReportedMousePosition : Loc
  ownsSelection : Bool
  visualBellIsRinging : Bool
  delaying : Bool
  mouseDown : Bool

-- `struct runes_pty`. The rest of the last read is at the start of `readbuf`.
structure RunesPty where
  readbuf : List UInt8
  readlen : Int

def readBufferLength : Nat := 4096

def RunesPty.remaininglen (pty : RunesPty) : Nat := pty.readbuf.length

structure RunesTerm (ρ : Type) where
  config : RunesConfig
  display : RunesDisplay
  w : RunesWindow
  pty : RunesPty
  scr : Screen ρ
  refcnt : Int

inductive Callback where
  | windowEvent
  | ptyInput
  | delay
  | resetVisualBell
  | multiClick
  deriving DecidableEq

inductive Action where
  | write (buf : List UInt8)
  -- `ioctl` with `TIOCSWINSZ`, whose numbers are an `unsigned short` each
  | setWindowSize (row col xpixel ypixel : Int)
  | hangup
  -- The event that asks the window itself to close
  | requestClose
  | replyPing
  | bell
  | setUrgent
  | clearUrgent
  | setTitle (name : List UInt8)
  | setIconName (name : List UInt8)
  | resize (width height : Int)
  | paintForeground
  | paintBackground
  | convertSelection (utf8 : Bool)
  | setSelectionOwner
  | sendSelectionClear (window : Nat)
  | selectionTargets
  | selectionContents (contents : List UInt8)
  | selectionNotify (refused : Bool)
  | addTimer (id : Nat) (timeout : Timeval)
  | drawRows (rows : List Int) (rowCount : Int)
  -- What follows only says what the code has come to: a call of `runes_window_flush`, the end of a
  -- draw, the text of the selection that libvt100 is asked for with the size of the grid then, a
  -- report that is formatted and a built-in action of a button.
  | flush
  | redrawn
  | selectionText (start stop : Loc) (rowCount maxCol : Int)
  | mouseReport (type : ReportType) (button : ReportButton)
  | builtinButton
  deriving DecidableEq

/-- A terminal, what the loop knows of it, and what has happened. -/
structure World (ρ : Type) where
  term : RunesTerm ρ
  pending : List (Entry Callback)
  -- The identity of the callback that is registered next.
  next : Nat
  -- The identity of the window callback, while it takes events.
  busy : Option Nat
  -- How often `runes_term_delete` was called.
  deletes : Nat
  log : List Action
  ticks : Nat
  queries : Nat

structure Env (ρ : Type) where
  vt100 : VT100 ρ
  clock : Nat → Timespec
  selectionOwner : Nat → Nat
  window : Nat

variable {ρ : Type}

def act (a : Action) (s : World ρ) : World ρ := { s with log := s.log ++ [a] }

def modifyTerm (f : RunesTerm ρ → RunesTerm ρ) (s : World ρ) : World ρ :=
  { s with term := f s.term }

def modifyDisplay (f : RunesDisplay → RunesDisplay) (s : World ρ) : World ρ :=
  { s with term := { s.term with display := f s.term.display } }

def modifyWindow (f : RunesWindow → RunesWindow) (s : World ρ) : World ρ :=
  { s with term := { s.term with w := f s.term.w } }

def modifyScreen (f : Screen ρ → Screen ρ) (s : World ρ) : World ρ :=
  { s with term := { s.term with scr := f s.term.scr } }

def termRefcntInc (s : World ρ) : World ρ :=
  { s with term := { s.term with refcnt := s.term.refcnt + 1 } }

def termRefcntDec (s : World ρ) : World ρ :=
  let refcnt := s.term.refcnt - 1
  {
    s with
    term := { s.term with refcnt := refcnt }
    deletes := if refcnt ≤ 0 then s.deletes + 1 else s.deletes
  }

def addEvent (cb : Callback) (s : World ρ) : World ρ :=
  { s with pending := s.pending ++ [⟨s.next, cb⟩], next := s.next + 1 }

def delEvent (id : Nat) (s : World ρ) : World ρ :=
  { s with pending := s.pending.filter (fun e => e.id ≠ id) }

def loopStartWork (cb : Callback) (s : World ρ) : World ρ := addEvent cb s

def timerTimeout (timeout : Int) : Timeval :=
  go 0 timeout
where
  go (sec timeout : Int) : Timeval :=
    if timeout ≥ 1000 then
      go (sec + 1) (timeout - 1000)
    else
      { sec, usec := timeout * 1000 }
  termination_by timeout.toNat

-- `runes_loop_timer_set`. What it returns is the number of the event, `s.next`.
def loopTimerSet (timeout : Int) (cb : Callback) (s : World ρ) : World ρ :=
  addEvent cb (act (.addTimer s.next (timerTimeout timeout)) s)

def loopTimerClear (id : Nat) (s : World ρ) : World ρ := delEvent id s

end Term
end Runes
