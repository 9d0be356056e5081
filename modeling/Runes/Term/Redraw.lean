import Runes.Term.State

/-!
This module contains how the screen is drawn, not more often than the redraw rate allows, and the
bells, see `window-xlib.c` and `display.c`. Pixels and the cursor, which is painted over the screen,
are left out.
-/

namespace Runes
namespace Term

variable {ρ : Type}

def displayMaybeClearSelection (env : Env ρ) (s : World ρ) : World ρ :=
  let display := s.term.display
  if display.hasSelection then
    let grid := s.term.scr.grid
    let s :=
      act
        (.selectionText display.selectionStart display.selectionEnd grid.rowCount grid.max.col)
        s
    let contents :=
      env.vt100.getStringPlaintext s.term.scr display.selectionStart display.selectionEnd
    -- The first test of the source is on the lengths, a `NULL` buffer has none.
    if contents = none ∨ contents.getD [] ≠ display.selectionContents.getD [] then
      modifyDisplay ({ · with hasSelection := false }) s
    else
      s
  else
    s

def visibleRows (grid : Grid) (rowVisibleOffset : Int) : List Int :=
  if 0 < grid.max.col then
    (List.range grid.max.row.toNat).map (fun (r : Nat) => r + grid.rowTop - rowVisibleOffset)
  else
    []

def displayDrawScreen (env : Env ρ) (s : World ρ) : World ρ :=
  let s :=
    if s.term.scr.dirty ∨ s.term.display.dirty then
      let s := if s.term.scr.dirty then displayMaybeClearSelection env s else s
      let grid := s.term.scr.grid
      act (.drawRows (visibleRows grid s.term.display.rowVisibleOffset) grid.rowCount) s
    else
      s
  let s := modifyScreen ({ · with dirty := false }) s
  modifyDisplay ({ · with dirty := false }) s

def subtractRate (now : Timespec) (rate : Int) : Timespec :=
  if rate ≥ 1000 then
    subtractRate { now with sec := now.sec - 1 } (rate - 1000)
  else
    borrow { now with nsec := now.nsec - rate * 1000000 }
termination_by rate.toNat
where
  borrow (now : Timespec) : Timespec :=
    if now.nsec < 0 then
      borrow { sec := now.sec - 1, nsec := now.nsec + 1000000000 }
    else
      now
  termination_by (-now.nsec).toNat

def windowCheckRecent (env : Env ρ) (s : World ρ) : Bool × World ρ :=
  let rate := s.term.config.redrawRate
  if rate = 0 then
    (false, s)
  else if s.term.w.delaying then
    (true, s)
  else
    let now := subtractRate (env.clock s.ticks) rate
    let last := s.term.w.lastRedraw
    let s := { s with ticks := s.ticks + 1 }
    if now.sec < last.sec ∨ (now.sec = last.sec ∧ now.nsec < last.nsec) then
      let s := loopTimerSet rate .delay (termRefcntInc s)
      (true, modifyWindow ({ · with delaying := true }) s)
    else
      (false, s)

def windowSetUrgent (s : World ρ) : World ρ := act .setUrgent s

def windowClearUrgent (s : World ρ) : World ρ := act .clearUrgent s

def windowVisualBell (s : World ρ) : World ρ :=
  let s := if s.term.config.bellIsUrgent then windowSetUrgent s else s
  if s.term.w.visualBellIsRinging then
    s
  else
    let s := modifyWindow ({ · with visualBellIsRinging := true }) s
    let s := act .paintForeground s
    loopTimerSet 20 .resetVisualBell (termRefcntInc s)

def windowAudibleBell (s : World ρ) : World ρ :=
  if s.term.config.audibleBell then
    let s := if s.term.config.bellIsUrgent then windowSetUrgent s else s
    act .bell s
  else
    windowVisualBell s

-- What `runes_window_flush` does about the bells and the names that the program has set.
def flushScreenFlags (s : World ρ) : World ρ :=
  let s :=
    if s.term.scr.audibleBell then
      modifyScreen ({ · with audibleBell := false }) (windowAudibleBell s)
    else
      s
  let s :=
    if s.term.scr.visualBell then
      modifyScreen ({ · with visualBell := false }) (windowVisualBell s)
    else
      s
  let s :=
    if s.term.scr.updateTitle then
      modifyScreen ({ · with updateTitle := false }) (act (.setTitle s.term.scr.title) s)
    else
      s
  if s.term.scr.updateIconName then
    modifyScreen ({ · with updateIconName := false }) (act (.setIconName s.term.scr.iconName) s)
  else
    s

def windowFlush (env : Env ρ) (s : World ρ) : World ρ :=
  match windowCheckRecent env (act .flush s) with
  | (true, s) => s
  | (false, s) =>
    let s := flushScreenFlags s
    if s.term.w.visualBellIsRinging then
      s
    else
      let s := act .redrawn (displayDrawScreen env s)
      let s := modifyWindow ({ · with lastRedraw := env.clock s.ticks }) s
      { s with ticks := s.ticks + 1 }

end Term
end Runes
