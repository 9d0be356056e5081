import Runes.Display.Cairo

/-!
This module contains the functions of `display.c` that draw the cells of a row. Fonts and glyph indices
are left out, and so are pixels.
-/

namespace Runes
namespace Display

inductive ColorKind where
  | default
  | idx (idx : UInt8)
  | rgb (r g b : UInt8)
  deriving DecidableEq

structure Color where
  kind : ColorKind
  id : UInt32
  deriving DecidableEq

def Color.isRgb (c : Color) : Bool :=
  match c.kind with
  | .rgb _ _ _ => true
  | _ => false

structure Attrs where
  fgcolor : Color
  bgcolor : Color
  bold : Bool
  italic : Bool
  underline : Bool
  inverse : Bool
  deriving DecidableEq

structure Cell where
  contents : List UInt8
  isWide : Bool
  attrs : Attrs
  deriving DecidableEq

def Cell.width (cell : Cell) : Int := if cell.isWide then 2 else 1

structure Loc where
  row : Int
  col : Int
  deriving DecidableEq

structure Config where
  fgdefault : Pattern
  bgdefault : Pattern
  colors : UInt8 → Pattern
  boldIsBright : Bool
  boldIsBold : Bool

/--
What drawing reads of a terminal besides its configuration. The last two are answers of libvt100 and
of Pango: the last column of a row that has contents, and whether the cells come out as wide as they
should.
-/
structure View where
  rowTop : Int
  maxCol : Int
  rowVisibleOffset : Int
  hasSelection : Bool
  selectionStart : Loc
  selectionEnd : Loc
  rowMaxCol : Int → Int
  glyphsAreMonospace : List Cell → Bool

inductive Drawn where
  | rectangle (pattern : Pattern) (row col width height : Int)
  | glyphs (pattern : Pattern) (cells : List Cell) (row col : Int)

def locIsBetween (loc start stop : Loc) : Bool :=
  if stop.row < start.row ∨ (stop.row = start.row ∧ stop.col < start.col) then
    go stop start
  else
    go start stop
where
  go (start stop : Loc) : Bool :=
    if loc.row < start.row ∨ loc.row > stop.row then
      false
    else if loc.row = start.row ∧ loc.col < start.col then
      false
    else if loc.row = stop.row ∧ loc.col ≥ stop.col then
      false
    else
      true

-- The end of a selection behind the contents of its row counts as the end of the row.
def clampToRow (v : View) (loc bound : Loc) : Loc :=
  if loc.row = bound.row ∧ bound.col > v.rowMaxCol bound.row then
    { bound with col := v.maxCol }
  else
    bound

def locIsSelected (v : View) (loc : Loc) : Bool :=
  if v.hasSelection then
    locIsBetween loc (clampToRow v loc v.selectionStart) (clampToRow v loc v.selectionEnd)
  else
    false

-- The row of the grid that is shown in a row of the window.
def screenRow (v : View) (row : Int) : Int := row + v.rowTop - v.rowVisibleOffset

def paintRectangle (cr : Cairo Drawn) (pattern : Pattern) (row col width height : Int)
    : Cairo Drawn :=
  let cr := cr.save
  let cr := cr.setSource pattern
  let cr := cr.draw (.rectangle pattern row col width height)
  cr.restore

-- The part of the glyph functions that draws.
def showGlyphs (cr : Cairo Drawn) (pattern : Pattern) (cells : List Cell) (row col : Int)
    : Cairo Drawn :=
  let cr := cr.save
  let cr := cr.setSource pattern
  let cr := cr.draw (.glyphs pattern cells row col)
  cr.restore

def drawGlyphsFast (cr : Cairo Drawn) (pattern : Pattern) (cells : List Cell) (row col : Int)
    : Cairo Drawn :=
  if cells.any (fun cell => cell.contents.length > 1) then
    cr
  else
    showGlyphs cr pattern cells row col

def isFast (config : Config) (cells : List Cell) : Bool :=
  match cells with
  | [] => true
  | first :: _ =>
    !((first.attrs.bold && config.boldIsBold) || first.attrs.italic || first.attrs.underline)
      && cells.all (fun cell => cell.contents.length ≤ 1)

-- `runes_display_draw_glyphs` for one cell. Its slow function comes back to this one only for more
-- than one cell.
def drawGlyph (config : Config) (cr : Cairo Drawn) (pattern : Pattern) (cell : Cell) (row col : Int)
    : Cairo Drawn :=
  if isFast config [cell] then
    drawGlyphsFast cr pattern [cell] row col
  else
    showGlyphs cr pattern [cell] row col

def drawGlyphsEach (config : Config) (cr : Cairo Drawn) (pattern : Pattern) (cells : List Cell)
    (row col : Int)
    : Cairo Drawn :=
  match cells with
  | [] => cr
  | cell :: cells =>
    drawGlyphsEach config (drawGlyph config cr pattern cell row col) pattern cells row
      (col + cell.width)

def drawGlyphs (config : Config) (v : View) (cr : Cairo Drawn) (pattern : Pattern)
    (cells : List Cell) (row col : Int)
    : Cairo Drawn :=
  if isFast config cells then
    drawGlyphsFast cr pattern cells row col
  else if cells.length > 1 ∧ !v.glyphsAreMonospace cells then
    drawGlyphsEach config cr pattern cells row col
  else
    showGlyphs cr pattern cells row col

-- What a pattern paints: it is one of the configuration, or it is created for a colour of a cell.
inductive Paint where
  | pattern (p : Pattern)
  | rgb (r g b : UInt8)
  deriving DecidableEq

def backgroundPaint (config : Config) (attrs : Attrs) : Paint :=
  match attrs.bgcolor.kind with
  | .default => .pattern config.bgdefault
  | .idx idx => .pattern (config.colors idx)
  | .rgb r g b => .rgb r g b

def foregroundPaint (config : Config) (attrs : Attrs) : Paint :=
  match attrs.fgcolor.kind with
  | .default => .pattern config.fgdefault
  | .idx idx =>
    .pattern (config.colors (if config.boldIsBright ∧ attrs.bold ∧ idx < 8 then idx + 8 else idx))
  | .rgb r g b => .rgb r g b

-- The pattern, and whether it is a custom one.
def takePattern (cr : Cairo Drawn) (paint : Paint) : Pattern × Bool × Cairo Drawn :=
  match paint with
  | .pattern p => (p, false, cr)
  | .rgb r g b =>
    let (p, cr) := cr.createRgb r g b
    (p, true, cr)

structure Colors (α : Type) where
  bg : α
  fg : α
  deriving DecidableEq

def Colors.exchange {α : Type} (colors : Colors α) : Colors α := ⟨colors.fg, colors.bg⟩

def Config.defaults (config : Config) : Colors Pattern := ⟨config.bgdefault, config.fgdefault⟩

-- The colours of empty cells.
def blankColors {α : Type} (selected : Bool) (defaults : Colors α) : Colors α :=
  if selected then defaults.exchange else defaults

-- What becomes of the colours of cells with these attributes. Where they are to be exchanged but are the
-- same, it is the default ones that are exchanged.
def shownColors {α : Type} (selected : Bool) (attrs : Attrs) (defaults colors : Colors α) : Colors α :=
  if attrs.inverse ^^ selected then
    if attrs.fgcolor.id = attrs.bgcolor.id then
      defaults.exchange
    else
      colors.exchange
  else
    colors

def drawRun (config : Config) (v : View) (cr : Cairo Drawn) (row col : Int) (width : Int)
    (cells : List Cell)
    : Cairo Drawn :=
  let selected := locIsSelected v ⟨screenRow v row, col⟩
  match cells with
  | [] =>
    let colors := blankColors selected config.defaults
    paintRectangle cr colors.bg row col width 1
  | first :: _ =>
    let attrs := first.attrs
    let (bg, bgIsCustom, cr) := takePattern cr (backgroundPaint config attrs)
    let (fg, fgIsCustom, cr) := takePattern cr (foregroundPaint config attrs)
    let colors := shownColors selected attrs config.defaults ⟨bg, fg⟩
    let cr := paintRectangle cr colors.bg row col width 1
    let cr := drawGlyphs config v cr colors.fg cells row col
    -- the flags are those of the patterns before they were exchanged
    let cr := if bgIsCustom then cr.destroy colors.bg else cr
    if fgIsCustom then cr.destroy colors.fg else cr

-- The loop of `runes_display_draw_string`. The calls for single cells do not come back to it.
def drawEach (config : Config) (v : View) (cr : Cairo Drawn) (row col : Int) (cells : List Cell)
    : Cairo Drawn :=
  match cells with
  | [] => cr
  | cell :: cells =>
    drawEach config v (drawRun config v cr row col cell.width [cell]) row (col + cell.width) cells

def isSplit (v : View) (row col : Int) (width : Int) (cells : List Cell) : Bool :=
  let loc := ⟨screenRow v row, col⟩
  let eloc := ⟨screenRow v row, col + width⟩
  cells.length > 1
    && v.hasSelection
    && (v.selectionStart.row ≠ v.selectionEnd.row || v.selectionStart.col ≠ v.selectionEnd.col)
    && (locIsBetween v.selectionStart loc eloc || locIsBetween v.selectionEnd loc eloc)

def drawString (config : Config) (v : View) (cr : Cairo Drawn) (row col : Int) (width : Int)
    (cells : List Cell)
    : Cairo Drawn :=
  if width = 0 then
    cr
  else if isSplit v row col width cells then
    drawEach config v cr row col cells
  else
    drawRun config v cr row col width cells

end Display
end Runes
