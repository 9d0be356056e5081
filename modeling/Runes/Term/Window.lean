import Runes.Term.Redraw

/-!
This module contains what the window does to the terminal: it writes to the pty, scrolls, selects
text and changes the size of the screen.
-/

namespace Runes
namespace Term

variable {ρ : Type}

def ptyWrite (buf : List UInt8) (s : World ρ) : World ρ := act (.write buf) s

def windowWriteToPty (env : Env ρ) (buf : List UInt8) (s : World ρ) : World ρ :=
  let s := ptyWrite buf s
  if s.term.display.rowVisibleOffset ≠ 0 then
    windowFlush env (modifyDisplay ({ · with rowVisibleOffset := 0, dirty := true }) s)
  else
    s

def scrolledOffset (grid : Grid) (offset count : Int) : Int :=
  let max := grid.rowCount - grid.max.row
  let offset := offset + count
  let offset := if offset < 0 then 0 else offset
  if offset > max then max else offset

def windowVisibleScroll (env : Env ρ) (count : Int) (s : World ρ) : World ρ :=
  let oldOffset := s.term.display.rowVisibleOffset
  let offset := scrolledOffset s.term.scr.grid oldOffset count
  let s := modifyDisplay ({ · with rowVisibleOffset := offset }) s
  if offset = oldOffset then
    s
  else
    windowFlush env (modifyDisplay ({ · with dirty := true }) s)

def windowPaste (s : World ρ) : World ρ := act (.convertSelection true) s

def displaySetSelection (env : Env ρ) (start stop : Loc) (s : World ρ) : World ρ :=
  let contents :=
    if stop.row < start.row ∨ (stop.row = start.row ∧ stop.col < start.col) then
      env.vt100.getStringPlaintext s.term.scr stop start
    else
      env.vt100.getStringPlaintext s.term.scr start stop
  modifyDisplay
    ({ · with
        hasSelection := true
        selectionStart := start
        selectionEnd := stop
        selectionContents := contents
        dirty := true })
    s

def windowAcquireSelection (env : Env ρ) (s : World ρ) : World ρ :=
  if s.term.w.ownsSelection then
    s
  else
    let oldOwner := env.selectionOwner s.queries
    let s := act .setSelectionOwner s
    let gotSelection := env.selectionOwner (s.queries + 1) = env.window
    let s := { s with queries := s.queries + 2 }
    if gotSelection then
      let s := modifyWindow ({ · with ownsSelection := true }) s
      if oldOwner ≠ env.window then act (.sendSelectionClear oldOwner) s else s
    else
      s

def windowStartSelectionLoc (env : Env ρ) (start : Loc) (s : World ρ) : World ρ :=
  windowFlush env (displaySetSelection env start start s)

def windowUpdateSelectionLoc (env : Env ρ) (stop : Loc) (s : World ρ) : World ρ :=
  if s.term.display.hasSelection then
    if s.term.display.selectionEnd ≠ stop then
      let s := windowAcquireSelection env s
      windowFlush env (displaySetSelection env s.term.display.selectionStart stop s)
    else
      s
  else
    s

def clampBelow (n max : Int) : Int :=
  if n < 0 then 0 else if n > max - 1 then max - 1 else n

def windowGetMousePosition (xpixel ypixel : Int) (s : World ρ) : Loc :=
  let display := s.term.display
  let grid := s.term.scr.grid
  let row := clampBelow (ypixel.tdiv display.fonty) grid.max.row
  let col := clampBelow (xpixel.tdiv display.fontx) grid.max.col
  { row := row - display.rowVisibleOffset + grid.rowCount - grid.max.row, col }

def windowStartSelection (env : Env ρ) (xpixel ypixel : Int) (s : World ρ) : World ρ :=
  windowStartSelectionLoc env (windowGetMousePosition xpixel ypixel s) s

def windowUpdateSelection (env : Env ρ) (xpixel ypixel : Int) (s : World ρ) : World ρ :=
  windowUpdateSelectionLoc env (windowGetMousePosition xpixel ypixel s) s

def windowIsWordChar (vt : VT100 ρ) (scr : Screen ρ) (row col : Int) : Bool :=
  let prev : Loc :=
    if col > 0 then
      ⟨row, col - 1⟩
    else if row > 0 ∧ (scr.grid.rows (row - 1 + scr.grid.rowTop)).wrapped then
      ⟨row - 1, scr.grid.max.col - 1⟩
    else
      ⟨row, col⟩
  let prev := vt.cellAt scr prev.row prev.col
  let c := if prev.isWide then prev else vt.cellAt scr row col
  match c.contents with
  | [] => false
  | byte :: bytes =>
    if vt.utf8Skip byte < (byte :: bytes).length then
      true
    else
      let uc := vt.utf8GetChar (byte :: bytes)
      vt.charWidth uc ≠ 0 ∧ !vt.isspace uc

def windowBeginningOfWord (vt : VT100 ρ) (scr : Screen ρ) (loc : Loc) : Loc :=
  let loc := { loc with row := loc.row - scr.grid.rowTop }
  let prev := go loc.row loc.col loc
  { prev with row := prev.row + scr.grid.rowTop }
where
  go (row col : Int) (prev : Loc) : Loc :=
    if windowIsWordChar vt scr row col then
      if col - 1 < 0 then
        if row - 1 + scr.grid.rowTop < 0 then
          ⟨row, col⟩
        else if (scr.grid.rows (row - 1 + scr.grid.rowTop)).wrapped then
          go (row - 1) (scr.grid.max.col - 1) ⟨row, col⟩
        else
          ⟨row, col⟩
      else
        go row (col - 1) ⟨row, col⟩
    else
      prev
  termination_by ((row + scr.grid.rowTop).toNat, col.toNat)
  decreasing_by
    . apply Prod.Lex.left
      omega
    . apply Prod.Lex.right
      omega

def windowEndOfWord (vt : VT100 ρ) (scr : Screen ρ) (loc : Loc) : Loc :=
  let last := go (loc.row - scr.grid.rowTop) loc.col
  { last with row := last.row + scr.grid.rowTop }
where
  go (row col : Int) : Loc :=
    if windowIsWordChar vt scr row col then
      if col + 1 ≥ scr.grid.max.col then
        if (scr.grid.rows (row + scr.grid.rowTop)).wrapped then
          if row + 1 ≥ scr.grid.max.row then
            ⟨row + 1, col + 1⟩
          else
            go (row + 1) 0
        else
          ⟨row, col + 1⟩
      else
        go row (col + 1)
    else
      ⟨row, col⟩
  termination_by ((scr.grid.max.row - row).toNat, (scr.grid.max.col - col).toNat)
  decreasing_by
    . apply Prod.Lex.left
      omega
    . apply Prod.Lex.right
      omega

def restartMultiClickTimer (s : World ρ) : World ρ :=
  let s :=
    match s.term.w.multiClickTimerEvent with
    | some id => termRefcntDec (loopTimerClear id s)
    | none => s
  let s := termRefcntInc s
  let event := s.next
  let s := loopTimerSet s.term.config.doubleClickRate .multiClick s
  modifyWindow ({ · with multiClickTimerEvent := some event }) s

def windowHandleMultiClick (env : Env ρ) (xpixel ypixel : Int) (s : World ρ) : World ρ :=
  let s := restartMultiClickTimer s
  let s := modifyWindow (fun w => { w with multiClicks := w.multiClicks + 1 }) s
  if s.term.w.multiClicks > 1 then
    let loc := windowGetMousePosition xpixel ypixel s
    if s.term.w.multiClicks % 2 ≠ 0 then
      let s := windowStartSelectionLoc env { loc with col := 0 } s
      windowUpdateSelectionLoc env { loc with col := s.term.scr.grid.max.col } s
    else
      let s := windowStartSelectionLoc env (windowBeginningOfWord env.vt100 s.term.scr loc) s
      windowUpdateSelectionLoc env (windowEndOfWord env.vt100 s.term.scr loc) s
  else
    s

def termSetWindowSize (env : Env ρ) (xpixel ypixel : Int) (s : World ρ) : World ρ :=
  let row := ypixel.tdiv s.term.display.fonty
  let col := xpixel.tdiv s.term.display.fontx
  let s := act (.setWindowSize (row % 65536) (col % 65536) (xpixel % 65536) (ypixel % 65536)) s
  let s := modifyDisplay ({ · with glyphBuf := col }) s
  modifyScreen (fun scr => env.vt100.setWindowSize scr row col) s

def windowDimension (n : Int) : Int := if n < 1 ∨ n ≥ 65535 then 1 else n

def windowResizeWindow (env : Env ρ) (width height : Int) (s : World ρ) : World ρ :=
  let width := windowDimension width
  let height := windowDimension height
  if width ≠ s.term.display.xpixel ∨ height ≠ s.term.display.ypixel then
    let s := act (.resize (width - 4) (height - 4)) s
    let s := termSetWindowSize env (width - 4) (height - 4) s
    displayMaybeClearSelection env s
  else
    s

end Term
end Runes
