import Runes.Display.Draw

/-!
This module contains what the drawing functions draw, as lists.
-/

namespace Runes
namespace Display

section

variable {α : Type} {selected : Bool} {attrs : Attrs} (defaults colors : Colors α)

theorem shownColors_of_stay (h : (attrs.inverse ^^ selected) = false)
    : shownColors selected attrs defaults colors = colors := by
  unfold shownColors
  rw [h, if_neg Bool.false_ne_true]

theorem shownColors_of_same (h : (attrs.inverse ^^ selected) = true)
    (hid : attrs.fgcolor.id = attrs.bgcolor.id)
    : shownColors selected attrs defaults colors = defaults.exchange := by
  unfold shownColors
  rw [h, if_pos rfl, if_pos hid]

theorem shownColors_of_differ (h : (attrs.inverse ^^ selected) = true)
    (hid : attrs.fgcolor.id ≠ attrs.bgcolor.id)
    : shownColors selected attrs defaults colors = colors.exchange := by
  unfold shownColors
  rw [h, if_pos rfl, if_neg hid]

end

section

variable (config : Config) (v : View) (cr : Cairo Drawn) (row col : Int)

theorem paintRectangle_eq (pattern : Pattern) (width height : Int)
    : paintRectangle cr pattern row col width height
        = cr.drawAll [.rectangle pattern row col width height] :=
  Cairo.restore_draw_setSource_save cr pattern _

theorem showGlyphs_eq (pattern : Pattern) (cells : List Cell)
    : showGlyphs cr pattern cells row col = cr.drawAll [.glyphs pattern cells row col] :=
  Cairo.restore_draw_setSource_save cr pattern _

variable {config} in
theorem length_contents_of_isFast {cells : List Cell} (h : isFast config cells = true) {cell : Cell}
    (hcell : cell ∈ cells) : cell.contents.length ≤ 1 := by
  cases cells with
  | nil => cases hcell
  | cons first rest =>
    unfold isFast at h
    rw [Bool.and_eq_true, List.all_eq_true] at h
    simpa using h.right cell hcell

-- The fast function draws nothing for longer contents, but it is not called for them.
theorem drawGlyphsFast_eq (pattern : Pattern) {cells : List Cell} (h : isFast config cells = true)
    : drawGlyphsFast cr pattern cells row col = cr.drawAll [.glyphs pattern cells row col] := by
  unfold drawGlyphsFast
  rw [if_neg, showGlyphs_eq]
  rw [List.any_eq_true]
  rintro ⟨cell, hcell, hlong⟩
  have := length_contents_of_isFast h hcell
  rw [decide_eq_true_iff] at hlong
  omega

theorem drawGlyph_eq (pattern : Pattern) (cell : Cell)
    : drawGlyph config cr pattern cell row col = cr.drawAll [.glyphs pattern [cell] row col] := by
  unfold drawGlyph
  split
  . next h => apply drawGlyphsFast_eq config cr row col pattern h
  . apply showGlyphs_eq

def eachGlyph (pattern : Pattern) (cells : List Cell) (row col : Int) : List Drawn :=
  match cells with
  | [] => []
  | cell :: cells => .glyphs pattern [cell] row col :: eachGlyph pattern cells row (col + cell.width)

theorem drawGlyphsEach_eq (pattern : Pattern) (cells : List Cell)
    : drawGlyphsEach config cr pattern cells row col = cr.drawAll (eachGlyph pattern cells row col) := by
  induction cells generalizing cr col with
  | nil => exact cr.drawAll_nil.symm
  | cons cell cells ih =>
    unfold drawGlyphsEach eachGlyph
    rw [ih, drawGlyph_eq, Cairo.drawAll_drawAll]
    rfl

-- The cells of a run are drawn one by one if they are too wide in another font.
def isEach (cells : List Cell) : Bool :=
  !isFast config cells && decide (cells.length > 1) && !v.glyphsAreMonospace cells

def glyphEvents (pattern : Pattern) (cells : List Cell) : List Drawn :=
  if isEach config v cells then
    eachGlyph pattern cells row col
  else
    [.glyphs pattern cells row col]

theorem drawGlyphs_eq (pattern : Pattern) (cells : List Cell)
    : drawGlyphs config v cr pattern cells row col
        = cr.drawAll (glyphEvents config v row col pattern cells) := by
  unfold drawGlyphs glyphEvents isEach
  cases hfast : isFast config cells with
  | true =>
    rw [if_pos rfl, drawGlyphsFast_eq config cr row col pattern hfast]
    rfl
  | false =>
    rw [if_neg (by simp)]
    by_cases heach : cells.length > 1 ∧ (!v.glyphsAreMonospace cells) = true
    . rw [if_pos heach, if_pos (by simpa using heach), drawGlyphsEach_eq]
    . rw [if_neg heach, if_neg (by simpa using heach), showGlyphs_eq]

/-- The patterns of a run as they are when it is painted. -/
def runPatterns (attrs : Attrs) (selected : Bool) : Colors Pattern :=
  let (bg, _, cr) := takePattern cr (backgroundPaint config attrs)
  let (fg, _, _) := takePattern cr (foregroundPaint config attrs)
  shownColors selected attrs config.defaults ⟨bg, fg⟩

theorem takePattern_drawn (paint : Paint) : (takePattern cr paint).2.2.drawn = cr.drawn := by
  cases paint with
  | pattern p => rfl
  | rgb r g b => rfl

theorem takePattern_keeps (paint : Paint) : cr.Keeps (takePattern cr paint).2.2 := by
  cases paint with
  | pattern p => exact .refl cr
  | rgb r g b => exact .createRgb cr r g b

theorem destroy_drawn (custom : Bool) (p : Pattern)
    : (if custom = true then cr.destroy p else cr).drawn = cr.drawn := by
  split <;> rfl

theorem destroy_keeps (custom : Bool) (p : Pattern)
    : cr.Keeps (if custom = true then cr.destroy p else cr) := by
  split
  . exact .of_eq rfl rfl
  . exact .refl cr

/-- A run is a rectangle in its background with its glyphs in front of it. -/
theorem drawRun_cons_drawn (width : Int) (first : Cell) (cells : List Cell)
    : let patterns := runPatterns config cr first.attrs (locIsSelected v ⟨screenRow v row, col⟩)
      (drawRun config v cr row col width (first :: cells)).drawn
        = cr.drawn ++ .rectangle patterns.bg row col width 1
            :: glyphEvents config v row col patterns.fg (first :: cells) := by
  unfold drawRun runPatterns
  dsimp only
  rw [destroy_drawn, destroy_drawn, drawGlyphs_eq, paintRectangle_eq, Cairo.drawAll_drawAll,
    Cairo.drawAll_drawn, takePattern_drawn, takePattern_drawn]
  rfl

theorem drawRun_nil (width : Int)
    : drawRun config v cr row col width []
        = cr.drawAll [.rectangle
            (blankColors (locIsSelected v ⟨screenRow v row, col⟩) config.defaults).bg
            row col width 1] := by
  unfold drawRun
  apply paintRectangle_eq

end

end Display
end Runes
