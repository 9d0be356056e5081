import Mathlib.Data.List.Forall2
import Runes.Display.Colors
import Runes.Raster.Layers

/-!
This module contains which pixels a row is drawn in: the rectangles behind its runs, with the colours that
they are filled in, make up a picture in which each pixel has the colour of its cell.
-/

namespace Runes
namespace Display

open Raster

/-- What `cairo_rectangle` is given by `runes_display_paint_rectangle`. -/
def Drawn.layer (fontx fonty : Int) (d : Drawn) : Option (Rect × Pattern) :=
  match d with
  | .rectangle pattern row col width height =>
    some (.ofCells fontx fonty row col height width, pattern)
  | .glyphs _ _ _ _ => none

def Cairo.layers (fontx fonty : Int) (cr : Cairo Drawn) : List (Rect × Pattern) :=
  cr.drawn.filterMap (Drawn.layer fontx fonty)

/--
The rectangles that are filled on the way from one context to another, each with a pattern of its colour.
-/
structure Lays (fontx fonty : Int) (cr cr' : Cairo Drawn) (want : List (Rect × Paint)) : Prop where
  keeps : cr.Keeps cr'
  layers : ∃ new, cr'.layers fontx fonty = cr.layers fontx fonty ++ new
    ∧ List.Forall₂ (fun w n => n.fst = w.fst ∧ w.snd.IsOf cr' n.snd) want new

namespace Lays

variable {fontx fonty : Int} {cr cr' cr'' : Cairo Drawn} {want want' : List (Rect × Paint)}

theorem refl (cr : Cairo Drawn) : Lays fontx fonty cr cr [] where
  keeps := .refl cr
  layers := ⟨[], (List.append_nil _).symm, .nil⟩

theorem trans (h : Lays fontx fonty cr cr' want) (h' : Lays fontx fonty cr' cr'' want')
    : Lays fontx fonty cr cr'' (want ++ want') where
  keeps := h.keeps.trans h'.keeps
  layers := by
    obtain ⟨new, heq, hnew⟩ := h.layers
    obtain ⟨new', heq', hnew'⟩ := h'.layers
    refine ⟨new ++ new', by rw [heq', heq, List.append_assoc], ?_⟩
    apply List.rel_append _ hnew'
    apply hnew.imp
    intro w n hn
    exact ⟨hn.left, hn.right.mono h'.keeps⟩

theorem foldl {β : Type} {f : Cairo Drawn → β → Cairo Drawn} {g : β → List (Rect × Paint)}
    (h : ∀ cr x, Lays fontx fonty cr (f cr x) (g x)) (xs : List β) (cr : Cairo Drawn)
    : Lays fontx fonty cr (xs.foldl f cr) (xs.flatMap g) := by
  induction xs generalizing cr with
  | nil => exact refl cr
  | cons x xs ih =>
    rw [List.foldl_cons, List.flatMap_cons]
    exact (h cr x).trans (ih (f cr x))

end Lays

def leafLayer (config : Config) (v : View) (fontx fonty row : Int) (leaf : Run) : Rect × Paint :=
  (.ofCells fontx fonty row leaf.col 1 leaf.width,
    (runColors config (locIsSelected v ⟨screenRow v row, leaf.col⟩) leaf.cells).bg)

def rowLayers (config : Config) (v : View) (fontx fonty row : Int) (cells : List Cell)
    : List (Rect × Paint) :=
  (rowLeaves v row cells).map (leafLayer config v fontx fonty row)

section

variable (config : Config) (v : View) (fontx fonty row : Int)

theorem eachGlyph_layers (pattern : Pattern) (cells : List Cell) (col : Int)
    : (eachGlyph pattern cells row col).filterMap (Drawn.layer fontx fonty) = [] := by
  induction cells generalizing col with
  | nil => rfl
  | cons cell cells ih =>
    unfold eachGlyph
    exact ih (col + cell.width)

theorem glyphEvents_layers (pattern : Pattern) (cells : List Cell) (col : Int)
    : (glyphEvents config v row col pattern cells).filterMap (Drawn.layer fontx fonty) = [] := by
  unfold glyphEvents
  split
  . apply eachGlyph_layers
  . rfl

theorem drawLeaf_lays (cr : Cairo Drawn) (leaf : Run)
    : Lays fontx fonty cr (drawLeaf config v row cr leaf) [leafLayer config v fontx fonty row leaf] where
  keeps := drawLeaf_keeps config v cr row leaf
  layers := by
    obtain ⟨patterns, hdrawn, hbg, _⟩ := drawLeaf_colors config v cr row leaf
    refine ⟨[(.ofCells fontx fonty row leaf.col 1 leaf.width, patterns.bg)], ?_, .cons ⟨rfl, hbg⟩ .nil⟩
    have hglyphs : (if leaf.cells = [] then []
          else glyphEvents config v row leaf.col patterns.fg leaf.cells).filterMap
        (Drawn.layer fontx fonty) = [] := by
      split
      . rfl
      . apply glyphEvents_layers
    unfold Cairo.layers
    rw [hdrawn, List.filterMap_append, List.filterMap_cons, hglyphs]
    rfl

/-- A row fills the rectangles of its leaves. -/
theorem drawRow_lays (cr : Cairo Drawn) (cells : List Cell)
    : Lays fontx fonty cr (drawRow config v cr row cells) (rowLayers config v fontx fonty row cells) := by
  have hlays := Lays.foldl (drawLeaf_lays config v fontx fonty row) (rowLeaves v row cells) cr
  rw [← List.map_eq_flatMap] at hlays
  rw [drawRow_eq]
  exact hlays

end

/-- The colours of a cell. The empty ones are drawn without their attributes, apart from the one in column 0. -/
def cellColors (config : Config) (selected : Bool) (i : Item) : Colors Paint :=
  runColors config selected (if isEmpty i.cell ∧ i.col ≠ 0 then [] else [i.cell])

section

variable {config : Config} {v : View} {fontx fonty row x y : Int} {cells : List Cell} {leaf run : Run}
  {i : Item} {c : Int} {kindOf : UInt32 → ColorKind}

theorem attrColors_of_ids (hids : IdsTell kindOf cells) {first cell : Cell} (hfirst : first ∈ cells)
    (hcell : cell ∈ cells) (h : SameLook first cell) (selected : Bool)
    : attrColors config selected first.attrs = attrColors config selected cell.attrs := by
  obtain ⟨hfg, hbg⟩ := hids first hfirst
  obtain ⟨hfg', hbg'⟩ := hids cell hcell
  unfold attrColors shownColors backgroundPaint foregroundPaint
  rw [hfg, hbg, hfg', hbg', h.fgcolor, h.bgcolor, h.bold, h.inverse]

theorem TextChunk.cellColors_eq {cols : Int} {chunk : List Item} (h : TextChunk cols run chunk)
    (hi : i ∈ chunk) (selected : Bool)
    : cellColors config selected i = attrColors config selected i.cell.attrs := by
  unfold cellColors
  rw [if_neg]
  . rfl
  . rintro ⟨hempty, hcol⟩
    exact hcol (h.first i hi hempty)

/-- A text run that is drawn as a whole has the colours of any of its cells. -/
theorem TextChunk.runColors_eq {cols : Int} {chunk : List Item} (h : TextChunk cols run chunk)
    (hids : IdsTell kindOf cells) (hrun : run ∈ rowRuns cells) (hi : i ∈ chunk) (selected : Bool)
    : runColors config selected run.cells = cellColors config selected i := by
  obtain ⟨hcells, hsame⟩ := run_cells run hrun
  have hcell : i.cell ∈ run.cells := by
    rw [h.cells]
    exact List.mem_map_of_mem hi
  rw [h.cellColors_eq hi]
  cases hfirst : run.cells with
  | nil =>
    rw [hfirst] at hcell
    cases hcell
  | cons first rest =>
    have hmem : first ∈ run.cells := by
      rw [hfirst]
      exact List.mem_cons_self
    exact attrColors_of_ids hids (hcells first hmem) (hcells i.cell hcell)
      (hsame first hmem i.cell hcell) selected

/-- What covers a column of a cell is the cell itself, a run of text with it, or a run of empty cells. -/
theorem rowLeaves_cases (hnarrow : ∀ cell ∈ cells, Narrow cell) (hi : i ∈ rowItems 0 cells)
    (hc : i.Covers c) (hleaf : leaf ∈ rowLeaves v row cells) (hcovers : leaf.Covers c)
    : (∃ run ∈ rowRuns cells, ∃ chunk, TextChunk cells.length run chunk ∧ i ∈ chunk
          ∧ (leaf.cells = run.cells ∨ leaf.cells = [i.cell]))
        ∨
      (∃ chunk, BlankChunk leaf chunk ∧ i ∈ chunk ∧ leaf ∈ drawnRuns cells) := by
  obtain ⟨run, hrun, hmem⟩ := List.mem_flatMap.mp hleaf
  obtain ⟨_, htiled, _⟩ := rowItems_tiled cells 0
  have hwidth : run.width ≠ 0 := by
    intro hzero
    unfold leaves at hmem
    rw [if_pos hzero] at hmem
    cases hmem
  obtain ⟨chunk, hsub, hchunk⟩ := (chunks_rowRuns hnarrow).exists_chunk hrun hwidth
  have hunique : ∀ j ∈ chunk, j.Covers c → j = i := fun j hj hcj =>
    htiled.covers_unique (hsub j hj) hi hcj hc
  rcases hchunk with htext | hblank
  . left
    refine ⟨run, hrun, chunk, htext, ?_⟩
    obtain ⟨stop, htiled', hstop⟩ := htext.tiled
    unfold leaves at hmem
    rw [if_neg hwidth] at hmem
    split at hmem
    . rw [htext.cells] at hmem
      obtain ⟨j, hj, rfl⟩ := (mem_cellRuns htiled').mp hmem
      rw [← hunique j hj hcovers]
      exact ⟨hj, Or.inr rfl⟩
    . rw [List.mem_singleton.mp hmem] at hcovers ⊢
      have hright := hcovers.right
      obtain ⟨j, hj, hcj⟩ := htiled'.exists_covers hcovers.left (by omega)
      rw [← hunique j hj hcj]
      exact ⟨hj, Or.inl rfl⟩
  . right
    rw [hblank.leaves_eq] at hmem
    rw [List.mem_singleton.mp hmem] at hcovers ⊢
    obtain ⟨j, hj, hcol, hempty⟩ := hblank.item_at hcovers.left hcovers.right
    have hpos := width_pos j.cell
    rw [← hunique j hj ⟨by omega, by omega⟩]
    exact ⟨chunk, hblank, hj, List.mem_filter.mpr ⟨hrun, by simpa using hwidth⟩⟩

theorem runColors_of_leaf (hnarrow : ∀ cell ∈ cells, Narrow cell) (hids : IdsTell kindOf cells)
    (hi : i ∈ rowItems 0 cells) (hc : i.Covers c)
    (hleaf : leaf ∈ rowLeaves v row cells) (hcovers : leaf.Covers c) (selected : Bool)
    : runColors config selected leaf.cells = cellColors config selected i := by
  rcases rowLeaves_cases hnarrow hi hc hleaf hcovers with ⟨run, hrun, chunk, htext, hmem, heq⟩ | hblank
  . rcases heq with heq | heq
    . rw [heq]
      exact htext.runColors_eq hids hrun hmem selected
    . rw [heq, htext.cellColors_eq hmem]
      rfl
  . obtain ⟨chunk, hblank, hmem, _⟩ := hblank
    have hpos := hblank.pos
    have hbounds := hblank.tiled.bounds hmem
    rw [hblank.cells]
    unfold cellColors
    rw [if_pos ⟨hblank.empty i hmem, by omega⟩]

-- Only one run covers a column of an empty cell, and it has no cells.
theorem leaf_of_blank (hnarrow : ∀ cell ∈ cells, Narrow cell) (hi : i ∈ rowItems 0 cells)
    (hc : i.Covers c) (hempty : isEmpty i.cell = true) (hcol : i.col ≠ 0)
    (hleaf : leaf ∈ rowLeaves v row cells) (hcovers : leaf.Covers c)
    : leaf ∈ drawnRuns cells ∧ leaf.cells = [] := by
  rcases rowLeaves_cases hnarrow hi hc hleaf hcovers with ⟨run, _, chunk, htext, hmem, _⟩ | hblank
  . exact absurd (htext.first i hmem hempty) hcol
  . obtain ⟨chunk, hblank, _, hdrawn⟩ := hblank
    exact ⟨hdrawn, hblank.cells⟩

theorem drawnRuns_unique (hnarrow : ∀ cell ∈ cells, Narrow cell) {run' : Run}
    (hrun : run ∈ drawnRuns cells) (hrun' : run' ∈ drawnRuns cells) (hc : run.Covers c)
    (hc' : run'.Covers c)
    : run = run' := by
  obtain ⟨_, htiled, _⟩ := rowItems_tiled cells 0
  have hside := (chunks_rowRuns hnarrow).sideBySide htiled (by
    intro j hj
    have hlt := rowItems_col_lt cells 0 hj
    omega)
  exact hside.covers_unique hrun hrun' hc hc'

section Row

variable (hfontx : 0 < fontx) (hfonty : 0 < fonty)
include hfontx hfonty

theorem leaf_of_contains {layer : Rect × Paint} (hlayer : layer ∈ rowLayers config v fontx fonty row cells)
    (hcontains : layer.fst.contains x y = true)
    : y / fonty = row ∧ ∃ leaf ∈ rowLeaves v row cells, leaf.Covers (x / fontx)
        ∧ layer = leafLayer config v fontx fonty row leaf := by
  obtain ⟨leaf, hleaf, rfl⟩ := List.mem_map.mp hlayer
  obtain ⟨hcovers, hrow⟩ := (contains_ofCells hfontx hfonty).mp hcontains
  exact ⟨by omega, leaf, hleaf, hcovers, rfl⟩

theorem contains_of_leaf (hy : y / fonty = row) (hleaf : leaf ∈ rowLeaves v row cells)
    (hcovers : leaf.Covers (x / fontx))
    : ∃ layer ∈ rowLayers config v fontx fonty row cells, layer.fst.contains x y = true :=
  ⟨leafLayer config v fontx fonty row leaf, List.mem_map_of_mem hleaf,
    (contains_ofCells hfontx hfonty).mpr ⟨hcovers, by omega⟩⟩

-- The rectangles over a pixel have the background of its cell.
theorem layer_of_contains (hnarrow : ∀ cell ∈ cells, Narrow cell) (hids : IdsTell kindOf cells)
    (hmatches : HighlightMatches v row cells) (hi : i ∈ rowItems 0 cells) (hc : i.Covers (x / fontx))
    (hlt : x / fontx < cells.length) {layer : Rect × Paint}
    (hlayer : layer ∈ rowLayers config v fontx fonty row cells)
    (hcontains : layer.fst.contains x y = true)
    : layer.snd = (cellColors config (locIsSelected v ⟨screenRow v row, i.col⟩) i).bg := by
  obtain ⟨_, leaf, hleaf, hcovers, rfl⟩ := leaf_of_contains hfontx hfonty hlayer hcontains
  have hselected := (hmatches i hi _ hc hlt _).mp ⟨leaf, hleaf, hcovers, rfl⟩
  unfold leafLayer
  dsimp only
  rw [runColors_of_leaf hnarrow hids hi hc hleaf hcovers, hselected]

theorem rowLayers_pixel (hnarrow : ∀ cell ∈ cells, Narrow cell) (hids : IdsTell kindOf cells)
    (hmatches : HighlightMatches v row cells) (hi : i ∈ rowItems 0 cells) (hc : i.Covers (x / fontx))
    (hlt : x / fontx < cells.length) (hy : y / fonty = row)
    : Picture.blank.fillAll (rowLayers config v fontx fonty row cells) x y
        = some (cellColors config (locIsSelected v ⟨screenRow v row, i.col⟩) i).bg := by
  obtain ⟨leaf, hleaf, hcovers, _⟩ := (hmatches i hi _ hc hlt _).mpr rfl
  have hpixel : ∃ k, Picture.blank.fillAll (rowLayers config v fontx fonty row cells) x y = some k
      ∧ k = (cellColors config (locIsSelected v ⟨screenRow v row, i.col⟩) i).bg := by
    apply Picture.fillAll_of_mem
    . intro layer hlayer hcontains
      exact layer_of_contains hfontx hfonty hnarrow hids hmatches hi hc hlt hlayer hcontains
    . exact contains_of_leaf hfontx hfonty hy hleaf hcovers
  obtain ⟨k, heq, rfl⟩ := hpixel
  exact heq

-- A run of empty cells is drawn in the colours of its first one.
theorem blank_pixel (hnarrow : ∀ cell ∈ cells, Narrow cell) (hi : i ∈ rowItems 0 cells)
    (hc : i.Covers (x / fontx)) (hempty : isEmpty i.cell = true) (hcol : i.col ≠ 0)
    (hleaf : leaf ∈ rowLeaves v row cells) (hcovers : leaf.Covers (x / fontx)) (hy : y / fonty = row)
    : Picture.blank.fillAll (rowLayers config v fontx fonty row cells) x y
        = some (blankColors (locIsSelected v ⟨screenRow v row, leaf.col⟩) (defaultColors config)).bg := by
  obtain ⟨hdrawn, hcells⟩ := leaf_of_blank hnarrow hi hc hempty hcol hleaf hcovers
  have hpixel : ∃ k, Picture.blank.fillAll (rowLayers config v fontx fonty row cells) x y = some k
      ∧ k = (blankColors (locIsSelected v ⟨screenRow v row, leaf.col⟩) (defaultColors config)).bg := by
    apply Picture.fillAll_of_mem
    . intro layer hlayer hcontains
      obtain ⟨_, leaf', hleaf', hcovers', rfl⟩ := leaf_of_contains hfontx hfonty hlayer hcontains
      obtain ⟨hdrawn', _⟩ := leaf_of_blank hnarrow hi hc hempty hcol hleaf' hcovers'
      rw [drawnRuns_unique hnarrow hdrawn' hdrawn hcovers' hcovers]
      unfold leafLayer
      rw [hcells]
      rfl
    . exact contains_of_leaf hfontx hfonty hy hleaf hcovers
  obtain ⟨k, heq, rfl⟩ := hpixel
  exact heq

end Row

theorem blank_selected (hdiffer : config.fgdefault ≠ config.bgdefault) {cr : Cairo Drawn} {p : Pattern}
    {s s' : Bool} (h : (blankColors s (defaultColors config)).bg.IsOf cr p)
    (h' : (blankColors s' (defaultColors config)).bg.IsOf cr p)
    : s = s' := by
  have hback (s : Bool) (h : (blankColors s (defaultColors config)).bg.IsOf cr p)
      : p = if s then config.fgdefault else config.bgdefault := by
    cases s with
    | false => exact h
    | true => exact h
  have heq := (hback s h).symm.trans (hback s' h')
  cases s with
  | false =>
    cases s' with
    | false => rfl
    | true => exact absurd heq.symm hdiffer
  | true =>
    cases s' with
    | false => exact absurd heq hdiffer
    | true => rfl

/-- Each pixel of a row that has been drawn has the background of its cell, selected if the cell is. -/
def ShowsSelection (config : Config) (v : View) (fontx fonty row : Int) (cells : List Cell)
    (cr : Cairo Drawn)
    : Prop :=
  ∃ new, (drawRow config v cr row cells).layers fontx fonty = cr.layers fontx fonty ++ new
    ∧ ∀ i ∈ rowItems 0 cells, ∀ x y, i.Covers (x / fontx) → x / fontx < cells.length → y / fonty = row →
        ∃ p, Picture.blank.fillAll new x y = some p
          ∧ (cellColors config (locIsSelected v ⟨screenRow v row, i.col⟩) i).bg.IsOf
              (drawRow config v cr row cells) p

/-- The highlight of a row matches exactly if this is to be seen in what is drawn. -/
theorem showsSelection_iff (hfontx : 0 < fontx) (hfonty : 0 < fonty)
    (hdiffer : config.fgdefault ≠ config.bgdefault) (hcols : v.maxCol = cells.length)
    (hnarrow : ∀ cell ∈ cells, Narrow cell) (hids : IdsTell kindOf cells) (cr : Cairo Drawn)
    : ShowsSelection config v fontx fonty row cells cr ↔ HighlightMatches v row cells := by
  obtain ⟨new, hnew, hlayers⟩ := (drawRow_lays config v fontx fonty row cr cells).layers
  have hpixel (x y : Int)
      : Option.Rel (fun (paint : Paint) p => paint.IsOf (drawRow config v cr row cells) p)
          (Picture.blank.fillAll (rowLayers config v fontx fonty row cells) x y)
          (Picture.blank.fillAll new x y) :=
    Picture.fillAll_rel hlayers .none
  constructor
  . rintro ⟨new', hnew', hshows⟩
    rw [hnew, List.append_cancel_left_eq] at hnew'
    subst hnew'
    apply highlightMatches_of_uncut hcols hnarrow
    intro hselection hne bound hbound hrow hcol ⟨i, hi, j, hj, hiempty, hjempty, hpos, hic, hjc⟩
    obtain ⟨_, htiled, _⟩ := rowItems_tiled cells 0
    have hrun : ∃ leaf ∈ rowLeaves v row cells, leaf.Covers i.col ∧ leaf.Covers j.col :=
      (chunks_rowRuns hnarrow).same_run htiled hi hj hiempty hjempty hpos (by omega)
    obtain ⟨leaf, hleaf, hcoversi, hcoversj⟩ := hrun
    have hsame : ∀ k ∈ rowItems 0 cells, isEmpty k.cell = true → k.col ≠ 0 → leaf.Covers k.col →
        locIsSelected v ⟨screenRow v row, leaf.col⟩ = locIsSelected v ⟨screenRow v row, k.col⟩ := by
      intro k hk hempty hzero hcovers
      have hx : k.col * fontx / fontx = k.col := Int.mul_ediv_cancel _ (Int.ne_of_gt hfontx)
      have hy : row * fonty / fonty = row := Int.mul_ediv_cancel _ (Int.ne_of_gt hfonty)
      have hwidth := width_pos k.cell
      have hlt := rowItems_col_lt cells 0 hk
      have hc : k.Covers (k.col * fontx / fontx) := by
        rw [hx]
        exact ⟨Int.le_refl _, by omega⟩
      obtain ⟨p, hp, hisOf⟩ := hshows k hk _ _ hc (by omega) hy
      have hrel := hpixel (k.col * fontx) (row * fonty)
      rw [hp, blank_pixel hfontx hfonty hnarrow hk hc hempty hzero hleaf (by rwa [hx]) hy] at hrel
      unfold cellColors at hisOf
      rw [if_pos ⟨hempty, hzero⟩] at hisOf
      cases hrel with
      | some hisOf' => exact blank_selected hdiffer hisOf' hisOf
    have hlt := rowItems_col_lt cells 0 hj
    have hileft : i.col = bound.col - 1 := by omega
    rw [hrow] at hcol
    apply locIsSelected_jump hselection hne hbound hrow hcol (by omega)
    rw [← hileft, ← hjc, ← hsame i hi hiempty (by omega) hcoversi,
      ← hsame j hj hjempty (by omega) hcoversj]
  . intro hmatches
    refine ⟨new, hnew, ?_⟩
    intro i hi x y hc hlt hy
    have hrel := hpixel x y
    rw [rowLayers_pixel hfontx hfonty hnarrow hids hmatches hi hc hlt hy] at hrel
    cases hpaint : Picture.blank.fillAll new x y with
    | none =>
      rw [hpaint] at hrel
      cases hrel
    | some p =>
      rw [hpaint] at hrel
      cases hrel with
      | some hisOf => exact ⟨p, rfl, hisOf⟩

/-- The rows of a screen, each with its cells. -/
def screenLayers (config : Config) (v : View) (fontx fonty : Int) (rows : Nat) (cells : Nat → List Cell)
    : List (Rect × Paint) :=
  (List.range rows).flatMap (fun (r : Nat) => rowLayers config v fontx fonty r (cells r))

/--
A pixel has the background of the cell that it is divided into, which is drawn as selected if the selection
has the first column of the cell.
-/
theorem screenLayers_pixel {rows : Nat} {cells : Nat → List Cell} {r : Nat}
    (hfontx : 0 < fontx) (hfonty : 0 < fonty) (hcols : v.maxCol = (cells r).length)
    (hnarrow : ∀ cell ∈ cells r, Narrow cell) (hids : IdsTell kindOf (cells r))
    (hmatches : HighlightMatches v r (cells r)) (hr : r < rows) (hy : y / fonty = r)
    (hi : i ∈ rowItems 0 (cells r)) (hc : i.Covers (x / fontx)) (hlt : x / fontx < v.maxCol)
    : Picture.blank.fillAll (screenLayers config v fontx fonty rows cells) x y
        = some (cellColors config (locIsSelected v ⟨screenRow v r, i.col⟩) i).bg := by
  rw [hcols] at hlt
  obtain ⟨leaf, hleaf, hcovers, _⟩ := (hmatches i hi _ hc hlt _).mpr rfl
  obtain ⟨rect, hrect, hcontains⟩ : ∃ layer ∈ rowLayers config v fontx fonty r (cells r),
      layer.fst.contains x y = true := contains_of_leaf hfontx hfonty hy hleaf hcovers
  have hpixel : ∃ k, Picture.blank.fillAll (screenLayers config v fontx fonty rows cells) x y = some k
      ∧ k = (cellColors config (locIsSelected v ⟨screenRow v r, i.col⟩) i).bg := by
    apply Picture.fillAll_of_mem
    . intro layer hlayer hcontains
      obtain ⟨r', _, hlayer⟩ := List.mem_flatMap.mp hlayer
      obtain ⟨hy', _⟩ := leaf_of_contains hfontx hfonty hlayer hcontains
      have hrr : r' = r := by omega
      rw [hrr] at hlayer
      exact layer_of_contains hfontx hfonty hnarrow hids hmatches hi hc hlt hlayer hcontains
    . exact ⟨rect, List.mem_flatMap.mpr ⟨r, List.mem_range.mpr hr, hrect⟩, hcontains⟩
  obtain ⟨k, heq, rfl⟩ := hpixel
  exact heq

end

end Display
end Runes
