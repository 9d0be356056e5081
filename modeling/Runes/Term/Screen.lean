import Runes.Display.Draw

/-!
This module contains the screen of libvt100, as far as the terminal reads and writes it. The library
itself is not a part of the sources, so what it computes is a parameter.
-/

namespace Runes
namespace Term

export Display (Loc Cell)

structure Row where
  cells : Int → Cell
  wrapped : Bool

structure Grid where
  cur : Loc
  max : Loc
  rowCount : Int
  rowTop : Int
  rows : Int → Row

structure Grid.Ok (g : Grid) : Prop where
  rowTop : g.rowTop = g.rowCount - g.max.row
  nonneg : 0 ≤ g.rowTop

-- `VT100Screen`. What only libvt100 looks at is in `rest`.
structure Screen (ρ : Type) where
  grid : Grid
  title : List UInt8
  iconName : List UInt8
  updateTitle : Bool
  updateIconName : Bool
  audibleBell : Bool
  visualBell : Bool
  hideCursor : Bool
  applicationKeypad : Bool
  applicationCursor : Bool
  bracketedPaste : Bool
  dirty : Bool
  rest : ρ

inductive ReportType where
  | press
  | release
  | motion
  deriving DecidableEq

inductive ReportButton where
  | left
  | middle
  | right
  | scrollUp
  | scrollDown
  | none
  deriving DecidableEq

structure Report where
  loc : Loc
  type : ReportType
  button : ReportButton
  shift : Bool
  mod1 : Bool
  control : Bool

/--
The functions of libvt100 that the terminal calls, and those of GLib that it asks about text.
-/
structure VT100 (ρ : Type) where
  screenNew : Int → Int → Screen ρ
  setScrollbackLength : Screen ρ → Int → Screen ρ
  setWindowSize : Screen ρ → Int → Int → Screen ρ
  -- The screen afterwards and the number of bytes that were processed.
  processString : Screen ρ → List UInt8 → Screen ρ × Nat
  -- The buffer with the text between two places, unless it is `NULL`.
  getStringPlaintext : Screen ρ → Loc → Loc → Option (List UInt8)
  cellAt : Screen ρ → Int → Int → Cell
  wantsButtonPress : Screen ρ → Bool
  wantsButtonRelease : Screen ρ → Bool
  wantsAnyMotion : Screen ρ → Bool
  wantsButtonMotion : Screen ρ → Bool
  formatMouseReportingResponse : Screen ρ → Report → List UInt8
  charWidth : UInt32 → Int
  -- `g_utf8_skip`
  utf8Skip : UInt8 → Nat
  utf8GetChar : List UInt8 → UInt32
  isspace : UInt32 → Bool

variable {ρ : Type}

/--
What is assumed of libvt100: it keeps the grid in shape when it processes output and when the size
of the window changes.
-/
structure VT100.Lawful (vt : VT100 ρ) : Prop where
  processString : ∀ scr buf, (vt.processString scr buf).fst.grid.Ok
  setWindowSize : ∀ scr row col, (vt.setWindowSize scr row col).grid.Ok

namespace Plain

def cell : Cell :=
  {
    contents := []
    isWide := false
    attrs :=
      {
        fgcolor := ⟨.default, 0⟩
        bgcolor := ⟨.default, 0⟩
        bold := false
        italic := false
        underline := false
        inverse := false
      }
  }

def grid (cur max : Loc) (rowCount : Int) : Grid :=
  let rowCount := if rowCount < max.row then max.row else rowCount
  {
    cur
    max
    rowCount
    rowTop := rowCount - max.row
    rows := fun _ => { cells := fun _ => cell, wrapped := false }
  }

theorem grid_ok (cur max : Loc) (rowCount : Int) : (grid cur max rowCount).Ok := by
  constructor
  . rfl
  . unfold grid
    dsimp only
    split <;> omega

def screen (row col : Int) : Screen Unit :=
  {
    grid := grid ⟨0, 0⟩ ⟨row, col⟩ row
    title := []
    iconName := []
    updateTitle := false
    updateIconName := false
    audibleBell := false
    visualBell := false
    hideCursor := false
    applicationKeypad := false
    applicationCursor := false
    bracketedPaste := false
    dirty := true
    rest := ()
  }

def alternateScreen : List UInt8 := [0x1b, 0x5b, 0x3f, 0x34, 0x37, 0x68]

def lineFeeds (g : Grid) (n : Nat) : Grid :=
  let row := g.cur.row + n
  let last := g.max.row - 1
  if row > last then
    grid { g.cur with row := last } g.max (g.rowCount + (row - last))
  else
    grid { g.cur with row } g.max g.rowCount

def process (g : Grid) (buf : List UInt8) : Grid :=
  if buf = alternateScreen then
    grid ⟨0, 0⟩ g.max g.max.row
  else
    lineFeeds g (buf.count 0x0a)

/--
A libvt100 for programs that print nothing but line feeds and switch to the alternate screen.
-/
def vt100 : VT100 Unit where
  screenNew row col := screen row col
  setScrollbackLength scr _ := scr
  setWindowSize scr row col :=
    { scr with grid := grid scr.grid.cur ⟨row, col⟩ scr.grid.rowCount, dirty := true }
  processString scr buf := ({ scr with grid := process scr.grid buf, dirty := true }, buf.length)
  getStringPlaintext _ _ _ := some []
  cellAt scr row col := (scr.grid.rows (row + scr.grid.rowTop)).cells col
  wantsButtonPress _ := false
  wantsButtonRelease _ := false
  wantsAnyMotion _ := false
  wantsButtonMotion _ := false
  formatMouseReportingResponse _ _ := []
  charWidth _ := 1
  utf8Skip _ := 1
  utf8GetChar bytes := (bytes.headD 0).toUInt32
  isspace uc := uc = 0x20

theorem vt100_lawful : vt100.Lawful where
  processString scr buf := by
    dsimp only [vt100, process, lineFeeds]
    split
    . apply grid_ok
    . split <;> exact grid_ok _ _ _
  setWindowSize _ _ _ := grid_ok _ _ _

end Plain

end Term
end Runes
