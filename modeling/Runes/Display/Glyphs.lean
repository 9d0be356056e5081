import Runes.Display.Batch

/-!
This module contains where the glyphs of a row are put if they are drawn without Pango.
-/

namespace Runes
namespace Display

-- The glyphs that `runes_display_draw_glyphs_fast` shows, with their `x`.
def fastGlyphs (fontx col : Int) (cells : List Cell) : List (Cell × Int) :=
  cells.mapIdx (fun i cell => (cell, (col + i) * fontx))

def Drawn.fastGlyphs (config : Config) (fontx : Int) (d : Drawn) : List (Cell × Int) :=
  match d with
  | .rectangle _ _ _ _ _ => []
  | .glyphs _ cells _ col => if isFast config cells then Display.fastGlyphs fontx col cells else []

-- Where the cells are by their columns.
def cellPlaces (fontx : Int) (items : List Item) : List (Cell × Int) :=
  items.map (fun i => (i.cell, i.col * fontx))

section

variable (config : Config) (v : View) (fontx : Int)

/--
All the glyphs that are shown without Pango have the places of their cells. If the cells can be shown
like this, then all of them are.
-/
structure Places (col : Int) (cells : List Cell) (events : List Drawn) : Prop where
  sublist : (events.flatMap (Drawn.fastGlyphs config fontx)).Sublist
    (cellPlaces fontx (itemsFrom col cells))
  all : isFast config cells = true →
    events.flatMap (Drawn.fastGlyphs config fontx) = cellPlaces fontx (itemsFrom col cells)

variable {config v fontx} {row col : Int} {cells : List Cell}

theorem fastGlyphs_eq (hnarrow : ∀ cell ∈ cells, cell.isWide = false) (col : Int)
    : fastGlyphs fontx col cells = cellPlaces fontx (itemsFrom col cells) := by
  induction cells generalizing col with
  | nil => rfl
  | cons cell cells ih =>
    rw [List.forall_mem_cons] at hnarrow
    have hwidth : cell.width = 1 := by simp [Cell.width, hnarrow.left]
    have hrest := ih hnarrow.right (col + 1)
    unfold fastGlyphs at hrest ⊢
    unfold itemsFrom cellPlaces
    unfold cellPlaces at hrest
    rw [List.mapIdx_cons, List.map_cons, hwidth, ← hrest]
    congr 1
    . simp
    . congr 1
      funext i cell
      congr 2
      omega

-- Only one byte fits into a narrow cell that is shown without Pango.
def NarrowBytes (cells : List Cell) : Prop :=
  ∀ cell ∈ cells, cell.contents.length ≤ 1 → cell.isWide = false

theorem fastGlyphs_of_isFast (hnarrow : NarrowBytes cells) (hfast : isFast config cells = true)
    (pattern : Pattern) (row col : Int)
    : Drawn.fastGlyphs config fontx (.glyphs pattern cells row col)
        = cellPlaces fontx (itemsFrom col cells) := by
  unfold Drawn.fastGlyphs
  dsimp only
  rw [if_pos hfast]
  apply fastGlyphs_eq
  intro cell hcell
  exact hnarrow cell hcell (length_contents_of_isFast hfast hcell)

theorem places_glyphs (hnarrow : NarrowBytes cells) (pattern : Pattern) (row col : Int)
    : Places config fontx col cells [.glyphs pattern cells row col] := by
  by_cases hfast : isFast config cells = true
  . have heq : [Drawn.glyphs pattern cells row col].flatMap (Drawn.fastGlyphs config fontx)
        = cellPlaces fontx (itemsFrom col cells) := by
      rw [List.flatMap_singleton, fastGlyphs_of_isFast hnarrow hfast]
    exact ⟨by rw [heq], fun _ => heq⟩
  . refine ⟨?_, fun h => absurd h hfast⟩
    rw [List.flatMap_singleton]
    unfold Drawn.fastGlyphs
    simp [hfast]

-- Cells that are drawn one after the other.
theorem Places.cons {cell : Cell} {events events' : List Drawn} (h : Places config fontx col [cell] events)
    (h' : (events'.flatMap (Drawn.fastGlyphs config fontx)).Sublist
      (cellPlaces fontx (itemsFrom (col + cell.width) cells)))
    : ((events ++ events').flatMap (Drawn.fastGlyphs config fontx)).Sublist
        (cellPlaces fontx (itemsFrom col (cell :: cells))) := by
  rw [List.flatMap_append]
  exact h.sublist.append h'

theorem places_eachGlyph (hnarrow : NarrowBytes cells) (pattern : Pattern) (row col : Int)
    : ((eachGlyph pattern cells row col).flatMap (Drawn.fastGlyphs config fontx)).Sublist
        (cellPlaces fontx (itemsFrom col cells)) := by
  induction cells generalizing col with
  | nil => apply List.Sublist.refl
  | cons cell cells ih =>
    have ⟨hcell, hcells⟩ := List.forall_mem_cons.mp hnarrow
    have hsingle : NarrowBytes [cell] := List.forall_mem_singleton.mpr hcell
    apply (places_glyphs hsingle pattern row col).cons (ih hcells (col + cell.width))

theorem places_glyphEvents (hnarrow : NarrowBytes cells) (pattern : Pattern) (row col : Int)
    : Places config fontx col cells (glyphEvents config v row col pattern cells) := by
  unfold glyphEvents
  split
  . next heach =>
    refine ⟨places_eachGlyph hnarrow pattern row col, ?_⟩
    intro hfast
    simp [isEach, hfast] at heach
  . apply places_glyphs hnarrow

theorem places_drawRun (hnarrow : NarrowBytes cells) (cr : Cairo Drawn) (width : Int)
    : ∃ events, (drawRun config v cr row col width cells).drawn = cr.drawn ++ events
        ∧ Places config fontx col cells events := by
  cases cells with
  | nil =>
    refine ⟨_, congrArg Cairo.drawn (drawRun_nil config v cr row col width), ?_⟩
    exact ⟨List.Sublist.refl _, fun _ => rfl⟩
  | cons first cells =>
    refine ⟨_, drawRun_cons_drawn config v cr row col width first cells, ?_⟩
    have hglyphs (pattern : Pattern) : Places config fontx col (first :: cells)
        (glyphEvents config v row col pattern (first :: cells)) :=
      places_glyphEvents hnarrow pattern row col
    exact ⟨(hglyphs _).sublist, (hglyphs _).all⟩

theorem places_drawEach (hnarrow : NarrowBytes cells) (cr : Cairo Drawn) (row col : Int)
    : ∃ events, (drawEach config v cr row col cells).drawn = cr.drawn ++ events
        ∧ (events.flatMap (Drawn.fastGlyphs config fontx)).Sublist
          (cellPlaces fontx (itemsFrom col cells))
        ∧ ((∀ cell ∈ cells, isFast config [cell] = true) →
          events.flatMap (Drawn.fastGlyphs config fontx) = cellPlaces fontx (itemsFrom col cells)) := by
  induction cells generalizing cr col with
  | nil => exact ⟨[], by simp [drawEach], List.Sublist.refl _, fun _ => rfl⟩
  | cons cell cells ih =>
    have ⟨hcell, hcells⟩ := List.forall_mem_cons.mp hnarrow
    have hsingle : NarrowBytes [cell] := List.forall_mem_singleton.mpr hcell
    have ⟨events, hdrawn, hplaces⟩ : ∃ events,
        (drawRun config v cr row col cell.width [cell]).drawn = cr.drawn ++ events
          ∧ Places config fontx col [cell] events :=
      places_drawRun hsingle cr cell.width
    have ⟨events', hdrawn', hsub, hall⟩ := ih hcells
      (drawRun config v cr row col cell.width [cell]) (col + cell.width)
    refine ⟨events ++ events', ?_, hplaces.cons hsub, ?_⟩
    . unfold drawEach
      rw [hdrawn', hdrawn, List.append_assoc]
    . intro hfast
      rw [List.forall_mem_cons] at hfast
      rw [List.flatMap_append, hplaces.all hfast.left, hall hfast.right]
      rfl

theorem isFast_of_mem (hsame : ∀ a ∈ cells, ∀ b ∈ cells, SameLook a b)
    (hfast : isFast config cells = true) {cell : Cell} (hcell : cell ∈ cells)
    : isFast config [cell] = true := by
  have hlen := length_contents_of_isFast hfast hcell
  cases cells with
  | nil => cases hcell
  | cons first cells =>
    have hlook := hsame first List.mem_cons_self cell hcell
    unfold isFast at hfast ⊢
    rw [Bool.and_eq_true] at hfast ⊢
    rw [← hlook.bold, ← hlook.italic, ← hlook.underline]
    exact ⟨hfast.left, by simpa using hlen⟩

theorem places_drawString (hnarrow : NarrowBytes cells)
    (hsame : ∀ a ∈ cells, ∀ b ∈ cells, SameLook a b) (cr : Cairo Drawn) (row col : Int) {width : Int}
    (hwidth : width ≠ 0)
    : ∃ events, (drawString config v cr row col width cells).drawn = cr.drawn ++ events
        ∧ Places config fontx col cells events := by
  unfold drawString
  rw [if_neg hwidth]
  split
  . have ⟨events, hdrawn, hsub, hall⟩ : ∃ events,
        (drawEach config v cr row col cells).drawn = cr.drawn ++ events
          ∧ (events.flatMap (Drawn.fastGlyphs config fontx)).Sublist
            (cellPlaces fontx (itemsFrom col cells))
          ∧ ((∀ cell ∈ cells, isFast config [cell] = true) →
            events.flatMap (Drawn.fastGlyphs config fontx)
              = cellPlaces fontx (itemsFrom col cells)) :=
      places_drawEach hnarrow cr row col
    refine ⟨events, hdrawn, hsub, ?_⟩
    intro hfast
    apply hall
    intro cell hcell
    apply isFast_of_mem hsame hfast hcell
  . apply places_drawRun hnarrow

theorem drawRow_eq_drawnRuns (cr : Cairo Drawn)
    : drawRow config v cr row cells
        = (drawnRuns cells).foldl
          (fun cr run => drawString config v cr row run.col run.width run.cells) cr := by
  unfold drawRow drawnRuns
  rw [List.foldl_filter]
  congr
  funext cr run
  by_cases h : run.width = 0
  . simp [drawString, h]
  . simp [h]

theorem WellFormed.narrowBytes (h : WellFormed cells) : NarrowBytes cells := by
  intro cell hcell hlen
  have ⟨i, hi⟩ := List.getElem?_of_mem hcell
  cases hwide : cell.isWide with
  | false => rfl
  | true =>
    have := (h.wide i cell hi hwide).left
    omega

/--
The runs of a row lie side by side from its first to its last column. Together they are handed its cells
with contents, each one once, in their order and at their columns. The glyphs of a run that are shown
without Pango are at the columns of their cells.
-/
theorem drawnRuns_complete (h : WellFormed cells)
    : SideBySide 0 (drawnRuns cells) cells.length
        ∧
      ((drawnRuns cells).flatMap Run.items).filter hasContents
          = (cellItems 0 cells).filter hasContents
        ∧
      ∀ run ∈ drawnRuns cells, ∀ config v cr row fontx, ∃ events,
        (drawString config v cr row run.col run.width run.cells).drawn = cr.drawn ++ events
          ∧ Places config fontx run.col run.cells events := by
  have hchunks := chunks_rowRuns h.narrow
  have ⟨htiled, hitems⟩ := rowItems_wellFormed cells 0 h
  have hlt : ∀ i ∈ rowItems 0 cells, i.col < (cells.length : Int) := by
    intro i hi
    have := rowItems_col_lt cells 0 hi
    omega
  refine ⟨?_, ?_, ?_⟩
  . have hside := hchunks.sideBySide htiled hlt
    have hstart : min 0 (cells.length : Int) = 0 := by omega
    have hend : min (0 + (cells.length : Int)) cells.length = cells.length := by omega
    rwa [hstart, hend] at hside
  . rw [← hitems, ← hchunks.items_eq htiled hlt]
    rfl
  . intro run hrun config v cr row fontx
    have ⟨hmem, hwidth⟩ := List.mem_filter.mp hrun
    have ⟨hcells, hsame⟩ := run_cells run hmem
    apply places_drawString _ hsame cr row run.col (by simpa using hwidth)
    intro cell hcell
    exact h.narrowBytes cell (hcells cell hcell)

end

namespace WideRow

def wide : Cell := { Gap.cell [0xe3, 0x81, 0x82] with isWide := true }

-- A letter, a wide character with its right half, an empty cell and a letter.
def cells : List Cell := [Gap.cell [0x61], wide, Gap.cell [], Gap.cell [], Gap.cell [0x62]]

theorem wellFormed : WellFormed cells where
  narrow := by
    unfold Narrow
    decide
  wide i cell hi hwide := by
    match i, hi with
    | 0, hi =>
      cases hi
      cases hwide
    | 1, hi =>
      cases hi
      exact ⟨by decide, Gap.cell [], rfl, rfl⟩
    | 2, hi =>
      cases hi
      cases hwide
    | 3, hi =>
      cases hi
      cases hwide
    | 4, hi =>
      cases hi
      cases hwide

end WideRow

theorem drawnRuns_complete_wideRow
    : SideBySide 0 (drawnRuns WideRow.cells) 5
        ∧ ((drawnRuns WideRow.cells).flatMap Run.items).filter hasContents
          = [⟨0, Gap.cell [0x61]⟩, ⟨1, WideRow.wide⟩, ⟨4, Gap.cell [0x62]⟩] := by
  have ⟨hside, hitems, _⟩ := drawnRuns_complete WideRow.wellFormed
  exact ⟨hside, hitems.trans (by decide)⟩

end Display
end Runes
