import Runes.Display.Batch
import Runes.Display.Ownership

/-!
This module contains which colours the columns of a row are drawn in if nothing is selected.
-/

namespace Runes
namespace Display

def defaultColors (config : Config) : Colors Paint :=
  ⟨.pattern config.bgdefault, .pattern config.fgdefault⟩

def attrColors (config : Config) (selected : Bool) (attrs : Attrs) : Colors Paint :=
  shownColors selected attrs (defaultColors config)
    ⟨backgroundPaint config attrs, foregroundPaint config attrs⟩

/-- The colours that `runes_display_draw_string` takes for a run. -/
def runColors (config : Config) (selected : Bool) (cells : List Cell) : Colors Paint :=
  match cells with
  | [] => blankColors selected (defaultColors config)
  | first :: _ => attrColors config selected first.attrs

-- Whether a pattern paints a colour: it is the one of the configuration, or it was created for this colour.
def Paint.IsOf (paint : Paint) (cr : Cairo Drawn) (p : Pattern) : Prop :=
  match paint with
  | .pattern q => p = q
  | .rgb r g b => p < cr.refs.next ∧ cr.rgb p = some (r, g, b)

def Colors.IsOf (colors : Colors Paint) (cr : Cairo Drawn) (patterns : Colors Pattern) : Prop :=
  colors.bg.IsOf cr patterns.bg ∧ colors.fg.IsOf cr patterns.fg

section

variable {config : Config} {cr cr' : Cairo Drawn} {defaults colors : Colors Paint}
  {defaults' patterns : Colors Pattern} {selected : Bool}

theorem Paint.IsOf.mono {paint : Paint} {p : Pattern} (h : paint.IsOf cr p) (hkeeps : cr.Keeps cr')
    : paint.IsOf cr' p := by
  cases paint with
  | pattern q => exact h
  | rgb r g b => exact ⟨Nat.lt_of_lt_of_le h.left hkeeps.next_le, (hkeeps.rgb p h.left).trans h.right⟩

theorem takePattern_isOf (cr : Cairo Drawn) (paint : Paint)
    : paint.IsOf (takePattern cr paint).2.2 (takePattern cr paint).fst := by
  cases paint with
  | pattern p => rfl
  | rgb r g b => exact ⟨Nat.lt_succ_self _, if_pos rfl⟩

theorem Colors.IsOf.mono (h : colors.IsOf cr patterns) (hkeeps : cr.Keeps cr')
    : colors.IsOf cr' patterns :=
  ⟨h.left.mono hkeeps, h.right.mono hkeeps⟩

theorem Colors.IsOf.exchange (h : colors.IsOf cr patterns)
    : colors.exchange.IsOf cr patterns.exchange :=
  ⟨h.right, h.left⟩

theorem defaultColors_isOf (config : Config) (cr : Cairo Drawn)
    : (defaultColors config).IsOf cr config.defaults :=
  ⟨rfl, rfl⟩

theorem blankColors_isOf (h : defaults.IsOf cr defaults')
    : (blankColors selected defaults).IsOf cr (blankColors selected defaults') := by
  unfold blankColors
  split
  . exact h.exchange
  . exact h

theorem shownColors_isOf {attrs : Attrs} (hdefaults : defaults.IsOf cr defaults')
    (h : colors.IsOf cr patterns)
    : (shownColors selected attrs defaults colors).IsOf cr
        (shownColors selected attrs defaults' patterns) := by
  unfold shownColors
  split
  . split
    . exact hdefaults.exchange
    . exact h.exchange
  . exact h

end

section

variable (config : Config) (v : View) (cr : Cairo Drawn) (row : Int)

-- The context in which a run with these attributes is painted.
def takePatterns (attrs : Attrs) : Cairo Drawn :=
  (takePattern (takePattern cr (backgroundPaint config attrs)).2.2 (foregroundPaint config attrs)).2.2

theorem takePatterns_keeps (attrs : Attrs) : cr.Keeps (takePatterns config cr attrs) :=
  (takePattern_keeps cr _).trans (takePattern_keeps _ _)

theorem runPatterns_isOf (attrs : Attrs) (selected : Bool)
    : (attrColors config selected attrs).IsOf (takePatterns config cr attrs)
        (runPatterns config cr attrs selected) := by
  have hbg := takePattern_isOf cr (backgroundPaint config attrs)
  have hfg := takePattern_isOf (takePattern cr (backgroundPaint config attrs)).2.2
    (foregroundPaint config attrs)
  exact shownColors_isOf (defaultColors_isOf config _) ⟨hbg.mono (takePattern_keeps _ _), hfg⟩

theorem drawRun_cons_keeps (col width : Int) (first : Cell) (cells : List Cell)
    : (takePatterns config cr first.attrs).Keeps
        (drawRun config v cr row col width (first :: cells)) := by
  unfold drawRun
  dsimp only
  rw [drawGlyphs_eq, paintRectangle_eq]
  apply Cairo.Keeps.trans _ (destroy_keeps _ _ _)
  apply Cairo.Keeps.trans _ (destroy_keeps _ _ _)
  exact .of_eq rfl rfl

/-- What is drawn later keeps the patterns. -/
theorem drawLeaf_keeps (leaf : Run) : cr.Keeps (drawLeaf config v row cr leaf) := by
  unfold drawLeaf
  cases leaf.cells with
  | nil =>
    rw [drawRun_nil]
    exact .of_eq rfl rfl
  | cons first cells =>
    exact (takePatterns_keeps config cr first.attrs).trans
      (drawRun_cons_keeps config v cr row leaf.col leaf.width first cells)

/-- A run is drawn in its colours. -/
theorem drawLeaf_colors (leaf : Run)
    : ∃ patterns : Colors Pattern,
        (drawLeaf config v row cr leaf).drawn
            = cr.drawn ++ .rectangle patterns.bg row leaf.col leaf.width 1
              :: (if leaf.cells = [] then []
                else glyphEvents config v row leaf.col patterns.fg leaf.cells)
          ∧
        (runColors config (locIsSelected v ⟨screenRow v row, leaf.col⟩) leaf.cells).IsOf
          (drawLeaf config v row cr leaf) patterns := by
  unfold drawLeaf runColors
  cases leaf.cells with
  | nil =>
    rw [drawRun_nil]
    exact ⟨_, rfl, blankColors_isOf (defaultColors_isOf config _)⟩
  | cons first cells =>
    have hcolors := runPatterns_isOf config cr first.attrs
      (locIsSelected v ⟨screenRow v row, leaf.col⟩)
    refine ⟨_, drawRun_cons_drawn config v cr row leaf.col leaf.width first cells, ?_⟩
    exact hcolors.mono (drawRun_cons_keeps config v cr row leaf.col leaf.width first cells)

end

/-- The colours that a column of a row is drawn in. -/
def ColumnColors (config : Config) (v : View) (row : Int) (cells : List Cell) (c : Int)
    (colors : Colors Paint)
    : Prop :=
  ∃ leaf ∈ rowLeaves v row cells,
    leaf.Covers c
      ∧ runColors config (locIsSelected v ⟨screenRow v row, leaf.col⟩) leaf.cells = colors

-- The same identifier always stands for the same colour.
def IdsTell (kindOf : UInt32 → ColorKind) (cells : List Cell) : Prop :=
  ∀ cell ∈ cells, cell.attrs.fgcolor.kind = kindOf cell.attrs.fgcolor.id
    ∧ cell.attrs.bgcolor.kind = kindOf cell.attrs.bgcolor.id

-- The colours of a cell if nothing is selected: the empty ones are drawn without their attributes, apart
-- from the one in column 0.
def itemColors (config : Config) (i : Item) : Colors Paint :=
  if isEmpty i.cell ∧ i.col ≠ 0 then defaultColors config else attrColors config false i.cell.attrs

section

variable {config : Config} {v : View} {row : Int} {cells : List Cell} {cols a b c : Int} {run : Run}
  {runs : List Run} {items : List Item} {i : Item}

theorem locIsSelected_none (h : v.hasSelection = false) (loc : Loc) : locIsSelected v loc = false := by
  rw [locIsSelected_eq, h]
  rfl

theorem leaves_none (h : v.hasSelection = false) (row : Int) (run : Run)
    : leaves v row run = if run.width = 0 then [] else [run] := by
  unfold leaves isSplit
  simp [h]

theorem mem_rowLeaves_none (h : v.hasSelection = false)
    : run ∈ rowLeaves v row cells ↔ run ∈ drawnRuns cells := by
  unfold rowLeaves drawnRuns
  rw [List.mem_flatMap, List.mem_filter]
  simp only [leaves_none h]
  constructor
  . rintro ⟨run', hrun', hmem⟩
    split at hmem
    . cases hmem
    . next hwidth =>
      rw [List.mem_singleton.mp hmem]
      exact ⟨hrun', by simpa using hwidth⟩
  . rintro ⟨hrun, hwidth⟩
    refine ⟨run, hrun, ?_⟩
    rw [if_neg (by simpa using hwidth)]
    apply List.mem_singleton_self

theorem SideBySide.exists_covers (h : SideBySide a runs b) (hle : a ≤ c) (hlt : c < b)
    : ∃ run ∈ runs, run.Covers c := by
  induction runs generalizing a with
  | nil =>
    have heq : a = b := h
    omega
  | cons run runs ih =>
    have hcol := h.left
    by_cases hc : c < a + run.width
    . exact ⟨run, List.mem_cons_self, by omega, by omega⟩
    . have ⟨run', hrun', hcovers⟩ := ih h.right.right (by omega)
      exact ⟨run', List.mem_cons_of_mem run hrun', hcovers⟩

theorem SideBySide.col_le (h : SideBySide a runs b) (hrun : run ∈ runs) : a ≤ run.col := by
  induction runs generalizing a with
  | nil => cases hrun
  | cons first runs ih =>
    have hcol := h.left
    have hpos := h.right.left
    rcases List.mem_cons.mp hrun with rfl | hrun
    . omega
    . have hle := ih h.right.right hrun
      omega

theorem SideBySide.covers_unique {run' : Run} (h : SideBySide a runs b) (hrun : run ∈ runs)
    (hrun' : run' ∈ runs) (hc : run.Covers c) (hc' : run'.Covers c)
    : run = run' := by
  induction runs generalizing a with
  | nil => cases hrun
  | cons first runs ih =>
    have hcol := h.left
    have hbehind : ∀ later ∈ runs, first.Covers c → ¬later.Covers c := by
      intro later hlater hfirst hcovers
      have hle := h.right.right.col_le hlater
      have hright := hfirst.right
      have hleft := hcovers.left
      omega
    rcases List.mem_cons.mp hrun with rfl | hmem
    . rcases List.mem_cons.mp hrun' with rfl | hmem'
      . rfl
      . exact absurd hc' (hbehind run' hmem' hc)
    . rcases List.mem_cons.mp hrun' with rfl | hmem'
      . exact absurd hc (hbehind run hmem hc')
      . exact ih h.right.right hmem hmem'

theorem Chunks.exists_chunk (h : Chunks cols runs items) (hrun : run ∈ runs) (hwidth : run.width ≠ 0)
    : ∃ chunk, (∀ i ∈ chunk, i ∈ items) ∧ (TextChunk cols run chunk ∨ BlankChunk run chunk) := by
  induction h with
  | nil => cases hrun
  | @text run' chunk runs items hchunk h ih =>
    rcases List.mem_cons.mp hrun with rfl | hrun
    . exact ⟨chunk, fun i hi => List.mem_append_left _ hi, Or.inl hchunk⟩
    . have ⟨chunk', hsub, hchunk'⟩ := ih hrun
      exact ⟨chunk', fun i hi => List.mem_append_right _ (hsub i hi), hchunk'⟩
  | @blank run' chunk runs items hchunk hnext h ih =>
    rcases List.mem_cons.mp hrun with rfl | hrun
    . exact ⟨chunk, fun i hi => List.mem_append_left _ hi, Or.inr hchunk⟩
    . have ⟨chunk', hsub, hchunk'⟩ := ih hrun
      exact ⟨chunk', fun i hi => List.mem_append_right _ (hsub i hi), hchunk'⟩
  | nothing hzero h ih =>
    rcases List.mem_cons.mp hrun with rfl | hrun
    . exact absurd hzero hwidth
    . exact ih hrun

theorem attrColors_of_sameLook {kindOf : UInt32 → ColorKind} (hids : IdsTell kindOf cells)
    {first cell : Cell} (hfirst : first ∈ cells) (hcell : cell ∈ cells) (h : SameLook first cell)
    : attrColors config false first.attrs = attrColors config false cell.attrs := by
  have ⟨hfg, hbg⟩ := hids first hfirst
  have ⟨hfg', hbg'⟩ := hids cell hcell
  unfold attrColors shownColors backgroundPaint foregroundPaint
  rw [hfg, hbg, hfg', hbg', h.fgcolor, h.bgcolor, h.bold, h.inverse]

section Column

variable (hnarrow : ∀ cell ∈ cells, Narrow cell) {kindOf : UInt32 → ColorKind}
  (hids : IdsTell kindOf cells) (hi : i ∈ rowItems 0 cells) (hc : i.Covers c)
include hnarrow hi hc

include hids in
theorem runColors_of_covers (hrun : run ∈ drawnRuns cells) (hcovers : run.Covers c)
    : runColors config false run.cells = itemColors config i := by
  have ⟨hmem, hwidth⟩ := List.mem_filter.mp hrun
  have ⟨chunk, hsub, hchunk⟩ := (chunks_rowRuns hnarrow).exists_chunk hmem (by simpa using hwidth)
  have ⟨stop, htiled, _⟩ := rowItems_tiled cells 0
  have ⟨hcells, hsame⟩ := run_cells run hmem
  have hunique : ∀ j ∈ chunk, j.Covers c → j = i := by
    intro j hj hcj
    apply htiled.covers_unique (hsub j hj) hi hcj hc
  unfold itemColors
  rcases hchunk with htext | hblank
  . have ⟨stop', htiled', hwidth'⟩ := htext.tiled
    have hright := hcovers.right
    have ⟨j, hj, hcj⟩ := htiled'.exists_covers hcovers.left (by omega)
    have hji := hunique j hj hcj
    subst hji
    rw [if_neg]
    . have hcell : j.cell ∈ run.cells := by
        rw [htext.cells]
        exact List.mem_map_of_mem hj
      cases hfirst : run.cells with
      | nil =>
        rw [hfirst] at hcell
        cases hcell
      | cons first rest =>
        have hmem' : first ∈ run.cells := by
          rw [hfirst]
          exact List.mem_cons_self
        apply attrColors_of_sameLook hids (hcells first hmem') (hcells j.cell hcell)
        apply hsame first hmem' j.cell hcell
    . rintro ⟨hempty, hcol⟩
      exact hcol (htext.first j hj hempty)
  . have ⟨j, hj, hcol, hempty⟩ := hblank.item_at hcovers.left hcovers.right
    have hpos := width_pos j.cell
    have hji := hunique j hj ⟨by omega, by omega⟩
    subst hji
    have hrunpos := hblank.pos
    have hleft := hcovers.left
    rw [if_pos ⟨hempty, by omega⟩, hblank.cells]
    rfl

omit hnarrow in
theorem covers_nonneg : 0 ≤ c := by
  have ⟨stop, htiled, _⟩ := rowItems_tiled cells 0
  have hbounds := htiled.bounds hi
  have hleft := hc.left
  omega

include hids in
/-- Every column is drawn in the colours of its cell. -/
theorem columnColors_iff (hselection : v.hasSelection = false) (hlt : c < cells.length)
    (colors : Colors Paint)
    : ColumnColors config v row cells c colors ↔ colors = itemColors config i := by
  constructor
  . rintro ⟨leaf, hleaf, hcovers, heq⟩
    rw [mem_rowLeaves_none hselection] at hleaf
    rw [locIsSelected_none hselection] at heq
    rw [← heq, runColors_of_covers hnarrow hids hi hc hleaf hcovers]
  . intro heq
    have ⟨stop, htiled, hstop⟩ := rowItems_tiled cells 0
    have hside := (chunks_rowRuns hnarrow).sideBySide htiled (by
      intro j hj
      have := rowItems_col_lt cells 0 hj
      omega)
    have hnonneg := covers_nonneg hi hc
    have ⟨leaf, hleaf, hcovers⟩ := hside.exists_covers (c := c) (by omega) (by omega)
    refine ⟨leaf, (mem_rowLeaves_none hselection).mpr hleaf, hcovers, ?_⟩
    rw [locIsSelected_none hselection, heq, runColors_of_covers hnarrow hids hi hc hleaf hcovers]

end Column

end

/-- The colours of two columns are the same. -/
def SameColors (config : Config) (v : View) (row : Int) (cells : List Cell) (c : Int)
    (row' : Int) (cells' : List Cell) (c' : Int)
    : Prop :=
  ∀ colors, ColumnColors config v row cells c colors ↔ ColumnColors config v row' cells' c' colors

/--
Two columns whose cells are equal are drawn in the same colours, unless the cells are empty and only one
of them is in column 0. Then they are only if the attributes make no difference.
-/
theorem sameColors_iff {config : Config} {v : View} (hselection : v.hasSelection = false)
    {row row' : Int} {cells cells' : List Cell} (hnarrow : ∀ cell ∈ cells, Narrow cell)
    (hnarrow' : ∀ cell ∈ cells', Narrow cell) {kindOf : UInt32 → ColorKind}
    (hids : IdsTell kindOf cells) (hids' : IdsTell kindOf cells') {i j : Item}
    (hi : i ∈ rowItems 0 cells) (hj : j ∈ rowItems 0 cells')
    (hempty : isEmpty i.cell = isEmpty j.cell) (hattrs : i.cell.attrs = j.cell.attrs) {c c' : Int}
    (hc : i.Covers c) (hc' : j.Covers c') (hlt : c < cells.length) (hlt' : c' < cells'.length)
    : SameColors config v row cells c row' cells' c'
        ↔ ¬(isEmpty i.cell = true
            ∧ ¬(i.col = 0 ↔ j.col = 0)
            ∧ attrColors config false i.cell.attrs ≠ defaultColors config) := by
  have hiff : SameColors config v row cells c row' cells' c'
      ↔ itemColors config i = itemColors config j := by
    unfold SameColors
    simp only [columnColors_iff hnarrow hids hi hc hselection hlt,
      columnColors_iff hnarrow' hids' hj hc' hselection hlt']
    constructor
    . intro h
      exact (h _).mp rfl
    . intro h colors
      rw [h]
  rw [hiff]
  unfold itemColors
  rw [← hempty, ← hattrs]
  cases isEmpty i.cell with
  | false => simp
  | true =>
    by_cases hzero : i.col = 0
    . by_cases hzero' : j.col = 0
      . simp [hzero, hzero']
      . simp [hzero, hzero']
    . by_cases hzero' : j.col = 0
      . simp [hzero, hzero', eq_comm]
      . simp [hzero, hzero']

namespace Erased

def cell (contents : List UInt8) : Cell :=
  ⟨contents, false, ⟨⟨.default, 0⟩, ⟨.idx 1, 1⟩, false, false, false, false⟩⟩

-- A row that was erased with a background colour, with a letter in the middle.
def cells : List Cell := [cell [], cell [], cell [0x61], cell []]

def kindOf (id : UInt32) : ColorKind := if id = 0 then .default else .idx 1

theorem narrow : ∀ cell ∈ cells, Narrow cell := by
  unfold Narrow
  decide

theorem idsTell : IdsTell kindOf cells := by
  unfold IdsTell
  decide

end Erased

theorem sameColors_erased : SameColors defaultConfig plainView 0 Erased.cells 1 1 Erased.cells 3 := by
  apply (sameColors_iff rfl Erased.narrow Erased.narrow Erased.idsTell Erased.idsTell
    (i := ⟨1, Erased.cell []⟩) (j := ⟨3, Erased.cell []⟩) (by decide) (by decide) rfl rfl
    ⟨by decide, by decide⟩ ⟨by decide, by decide⟩ (by decide) (by decide)).mpr
  decide

-- The cell in column 0 has its background colour, and the same cell in column 1 has not.
theorem not_sameColors_erased
    : (⟨0, Erased.cell []⟩ : Item) ∈ rowItems 0 Erased.cells
        ∧ (⟨1, Erased.cell []⟩ : Item) ∈ rowItems 0 Erased.cells
        ∧ ColumnColors defaultConfig plainView 0 Erased.cells 0 ⟨.pattern 5, .pattern 2⟩
        ∧ ColumnColors defaultConfig plainView 0 Erased.cells 1 ⟨.pattern 3, .pattern 2⟩
        ∧ ¬SameColors defaultConfig plainView 0 Erased.cells 0 0 Erased.cells 1 := by
  have hfirst : ∀ colors, ColumnColors defaultConfig plainView 0 Erased.cells 0 colors
      ↔ colors = itemColors defaultConfig ⟨0, Erased.cell []⟩ :=
    columnColors_iff Erased.narrow Erased.idsTell (by decide) ⟨by decide, by decide⟩ rfl (by decide)
  have hsecond : ∀ colors, ColumnColors defaultConfig plainView 0 Erased.cells 1 colors
      ↔ colors = itemColors defaultConfig ⟨1, Erased.cell []⟩ :=
    columnColors_iff Erased.narrow Erased.idsTell (by decide) ⟨by decide, by decide⟩ rfl (by decide)
  refine ⟨by decide, by decide, (hfirst _).mpr (by decide), (hsecond _).mpr (by decide), ?_⟩
  intro hsame
  have hcolors := (hsecond _).mp ((hsame _).mp ((hfirst ⟨.pattern 5, .pattern 2⟩).mpr (by decide)))
  revert hcolors
  decide

end Display
end Runes
