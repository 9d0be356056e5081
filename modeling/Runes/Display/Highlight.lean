import Runes.Display.Row

/-!
This module contains which columns of a row are drawn as selected, and when these are the columns of
the cells that are selected.
-/

namespace Runes
namespace Display

def cellRuns (col : Int) (cells : List Cell) : List Run :=
  match cells with
  | [] => []
  | cell :: cells => ⟨col, cell.width, [cell]⟩ :: cellRuns (col + cell.width) cells

-- What `runes_display_draw_string` makes of a run: every run here is drawn with the state of its
-- first column.
def leaves (v : View) (row : Int) (run : Run) : List Run :=
  if run.width = 0 then
    []
  else if isSplit v row run.col run.width run.cells then
    cellRuns run.col run.cells
  else
    [run]

def rowLeaves (v : View) (row : Int) (cells : List Cell) : List Run :=
  (rowRuns cells).flatMap (leaves v row)

def drawLeaf (config : Config) (v : View) (row : Int) (cr : Cairo Drawn) (leaf : Run)
    : Cairo Drawn :=
  drawRun config v cr row leaf.col leaf.width leaf.cells

theorem drawEach_eq (config : Config) (v : View) (cr : Cairo Drawn) (row col : Int)
    (cells : List Cell)
    : drawEach config v cr row col cells = (cellRuns col cells).foldl (drawLeaf config v row) cr := by
  induction cells generalizing cr col with
  | nil => rfl
  | cons cell cells ih =>
    unfold drawEach cellRuns
    rw [List.foldl_cons, ih]
    rfl

theorem drawString_eq (config : Config) (v : View) (cr : Cairo Drawn) (row : Int) (run : Run)
    : drawString config v cr row run.col run.width run.cells
        =
      (leaves v row run).foldl (drawLeaf config v row) cr := by
  unfold drawString leaves
  split
  . rfl
  . split
    . apply drawEach_eq
    . rfl

/-- A row is drawn leaf by leaf. -/
theorem drawRow_eq (config : Config) (v : View) (cr : Cairo Drawn) (row : Int) (cells : List Cell)
    : drawRow config v cr row cells = (rowLeaves v row cells).foldl (drawLeaf config v row) cr := by
  unfold drawRow rowLeaves
  rw [List.foldl_flatMap]
  congr
  funext cr run
  apply drawString_eq

/-- Of the selection, a leaf depends on nothing but whether its first column is selected. -/
theorem drawLeaf_congr (config : Config) {v v' : View} {row : Int} {leaf : Run} (cr : Cairo Drawn)
    (hselected : locIsSelected v ⟨screenRow v row, leaf.col⟩
      = locIsSelected v' ⟨screenRow v' row, leaf.col⟩)
    (hglyphs : v.glyphsAreMonospace = v'.glyphsAreMonospace)
    : drawLeaf config v row cr leaf = drawLeaf config v' row cr leaf := by
  unfold drawLeaf drawRun drawGlyphs
  rw [hselected, hglyphs]

-- Whether the row that is drawn has column `c` in a leaf that is drawn as `selected` says.
def Paints (v : View) (row : Int) (cells : List Cell) (c : Int) (selected : Bool) : Prop :=
  ∃ leaf ∈ rowLeaves v row cells,
    leaf.Covers c ∧ locIsSelected v ⟨screenRow v row, leaf.col⟩ = selected

/--
Every column is drawn with the state of the cell that occupies it.
-/
def HighlightMatches (v : View) (row : Int) (cells : List Cell) : Prop :=
  ∀ i ∈ rowItems 0 cells, ∀ c, i.Covers c → c < cells.length →
    ∀ selected, Paints v row cells c selected
      ↔ selected = locIsSelected v ⟨screenRow v row, i.col⟩

-- Column `c` and the one before it have empty cells, and that is not the cell in column 0, which is
-- drawn on its own.
def InsideBlank (c : Int) (items : List Item) : Prop :=
  ∃ i ∈ items, ∃ j ∈ items,
    isEmpty i.cell = true ∧ isEmpty j.cell = true ∧ 0 < i.col ∧ i.col + 1 = c ∧ j.col = c

-- The selection begins or ends at `loc` between two empty cells of the row.
def CutsBlank (v : View) (row : Int) (cells : List Cell) (loc : Loc) : Prop :=
  loc.row = screenRow v row
    ∧ loc.col ≤ v.rowMaxCol loc.row
    ∧ InsideBlank loc.col (rowItems 0 cells)

instance InsideBlank.decidable (c : Int) (items : List Item) : Decidable (InsideBlank c items) :=
  inferInstanceAs (Decidable (∃ i ∈ items, ∃ j ∈ items, _))

instance CutsBlank.decidable (v : View) (row : Int) (cells : List Cell) (loc : Loc)
    : Decidable (CutsBlank v row cells loc) :=
  inferInstanceAs (Decidable (_ ∧ _ ∧ InsideBlank _ _))

def isBefore (loc bound : Loc) : Bool :=
  loc.row < bound.row || (loc.row = bound.row && loc.col < bound.col)

theorem locIsBetween_eq (loc start stop : Loc)
    : locIsBetween loc start stop = (isBefore loc start ^^ isBefore loc stop) := by
  unfold locIsBetween locIsBetween.go isBefore
  grind

def side (v : View) (loc bound : Loc) : Bool := isBefore loc (clampToRow v loc bound)

theorem locIsSelected_eq (v : View) (loc : Loc)
    : locIsSelected v loc
        =
      (v.hasSelection && (side v loc v.selectionStart ^^ side v loc v.selectionEnd)) := by
  unfold locIsSelected side
  rw [locIsBetween_eq]
  cases v.hasSelection <;> rfl

section

variable {v : View} {row vr a c : Int} {bound : Loc} {run : Run} {chunk items : List Item}

theorem side_const (hac : a ≤ c) (hc : c < v.maxCol)
    (h : bound.row = vr → bound.col ≤ v.rowMaxCol vr → a < bound.col → c < bound.col)
    : side v ⟨vr, a⟩ bound = side v ⟨vr, c⟩ bound := by
  unfold side clampToRow isBefore
  grind

theorem side_before (hrow : bound.row = vr) (hcol : bound.col ≤ v.rowMaxCol vr)
    (hc : c < bound.col)
    : side v ⟨vr, c⟩ bound = true := by
  unfold side clampToRow isBefore
  grind

theorem side_at (hrow : bound.row = vr) (hcol : bound.col ≤ v.rowMaxCol vr)
    : side v ⟨vr, bound.col⟩ bound = false := by
  unfold side clampToRow isBefore
  grind

theorem locIsSelected_const (hac : a ≤ c) (hc : c < v.maxCol)
    (h : v.hasSelection = true → v.selectionStart ≠ v.selectionEnd →
      ∀ bound ∈ [v.selectionStart, v.selectionEnd],
        bound.row = vr → bound.col ≤ v.rowMaxCol vr → a < bound.col → c < bound.col)
    : locIsSelected v ⟨vr, a⟩ = locIsSelected v ⟨vr, c⟩ := by
  rw [locIsSelected_eq, locIsSelected_eq]
  by_cases hne : v.selectionStart = v.selectionEnd
  . rw [hne, Bool.xor_self, Bool.xor_self]
  . cases hselection : v.hasSelection with
    | false => rfl
    | true =>
      have hconst := h hselection hne
      rw [side_const hac hc (hconst v.selectionStart (by simp))]
      rw [side_const hac hc (hconst v.selectionEnd (by simp))]

/-- At an end of the selection in front of the last cell with contents, the selection changes. -/
theorem locIsSelected_jump (hselection : v.hasSelection = true)
    (hne : v.selectionStart ≠ v.selectionEnd)
    (hbound : bound ∈ [v.selectionStart, v.selectionEnd]) (hrow : bound.row = vr)
    (hcol : bound.col ≤ v.rowMaxCol vr) (hc : bound.col < v.maxCol)
    : locIsSelected v ⟨vr, bound.col - 1⟩ ≠ locIsSelected v ⟨vr, bound.col⟩ := by
  have hbefore : side v ⟨vr, bound.col - 1⟩ bound = true := side_before hrow hcol (by omega)
  have hat := side_at hrow hcol
  have hother : ∀ other : Loc, other ≠ bound →
      side v ⟨vr, bound.col - 1⟩ other = side v ⟨vr, bound.col⟩ other := by
    intro other hother
    apply side_const (by omega) hc
    intro hrow' _ hlt
    have hcols : other.col ≠ bound.col := by
      intro heq
      apply hother
      cases other
      cases bound
      simp_all
    omega
  rw [locIsSelected_eq, locIsSelected_eq, hselection, Bool.true_and, Bool.true_and]
  rcases List.mem_cons.mp hbound with heq | hmem
  . rw [← heq, hbefore, hat, hother v.selectionEnd (by rw [heq]; exact hne.symm)]
    simp
  . have heq := List.mem_singleton.mp hmem
    rw [← heq, hbefore, hat, hother v.selectionStart (by rw [heq]; exact hne)]
    simp

end

/--
The leaves cover the columns of the items, and each one has the state of every item in it.
-/
structure Follows (v : View) (row : Int) (leaves : List Run) (items : List Item) : Prop where
  sound : ∀ leaf ∈ leaves, ∀ c, leaf.Covers c → c < v.maxCol →
    ∃ i ∈ items, i.Covers c
      ∧ locIsSelected v ⟨screenRow v row, leaf.col⟩ = locIsSelected v ⟨screenRow v row, i.col⟩
  complete : ∀ i ∈ items, ∀ c, i.Covers c → c < v.maxCol → ∃ leaf ∈ leaves, leaf.Covers c

section

variable {v : View} {row cols a c : Int} {run leaf : Run} {runs : List Run} {chunk items : List Item}

theorem Follows.append {leaves leaves' : List Run} {items items' : List Item}
    (h : Follows v row leaves items) (h' : Follows v row leaves' items')
    : Follows v row (leaves ++ leaves') (items ++ items') where
  sound leaf hleaf c hcovers hc := by
    rcases List.mem_append.mp hleaf with hleaf | hleaf
    . have ⟨i, hi, hsame⟩ := h.sound leaf hleaf c hcovers hc
      exact ⟨i, List.mem_append_left _ hi, hsame⟩
    . have ⟨i, hi, hsame⟩ := h'.sound leaf hleaf c hcovers hc
      exact ⟨i, List.mem_append_right _ hi, hsame⟩
  complete i hi c hcovers hc := by
    rcases List.mem_append.mp hi with hi | hi
    . have ⟨leaf, hleaf, hcovers'⟩ := h.complete i hi c hcovers hc
      exact ⟨leaf, List.mem_append_left _ hleaf, hcovers'⟩
    . have ⟨leaf, hleaf, hcovers'⟩ := h'.complete i hi c hcovers hc
      exact ⟨leaf, List.mem_append_right _ hleaf, hcovers'⟩

theorem mem_cellRuns {stop : Int} (h : Tiled a chunk stop)
    : leaf ∈ cellRuns a (chunk.map Item.cell)
        ↔ ∃ i ∈ chunk, leaf = ⟨i.col, i.cell.width, [i.cell]⟩ := by
  induction chunk generalizing a with
  | nil => simp [cellRuns]
  | cons i chunk ih =>
    have hcol := h.left
    rw [List.map_cons, cellRuns, List.mem_cons, ih h.right]
    simp [hcol]

theorem follows_cellRuns {stop : Int} (h : Tiled a chunk stop)
    : Follows v row (cellRuns a (chunk.map Item.cell)) chunk where
  sound leaf hleaf c hcovers _ := by
    have ⟨i, hi, heq⟩ := (mem_cellRuns h).mp hleaf
    subst heq
    exact ⟨i, hi, hcovers, rfl⟩
  complete i hi c hcovers _ := ⟨_, (mem_cellRuns h).mpr ⟨i, hi, rfl⟩, hcovers⟩

theorem follows_singleton {stop : Int} (h : Tiled run.col chunk stop)
    (hstop : ∀ c, c < v.maxCol → (c < run.col + run.width ↔ c < stop))
    (hconst : ∀ i ∈ chunk, i.col < v.maxCol →
      locIsSelected v ⟨screenRow v row, run.col⟩ = locIsSelected v ⟨screenRow v row, i.col⟩)
    : Follows v row [run] chunk where
  sound leaf hleaf c hcovers hc := by
    rw [List.mem_singleton.mp hleaf] at hcovers ⊢
    have ⟨i, hi, hcovers'⟩ := h.exists_covers hcovers.left ((hstop c hc).mp hcovers.right)
    have hcol := hcovers'.left
    exact ⟨i, hi, hcovers', hconst i hi (by omega)⟩
  complete i hi c hcovers hc := by
    have hbounds := h.bounds hi
    have hleft := hcovers.left
    have hright := hcovers.right
    exact ⟨run, by simp, by omega, (hstop c hc).mpr (by omega)⟩

-- No end of the selection is in a run that is not drawn cell by cell.
theorem not_mem_of_not_isSplit {bound : Loc} (hmany : 1 < run.cells.length)
    (hsplit : ¬isSplit v row run.col run.width run.cells = true) (hselection : v.hasSelection = true)
    (hne : v.selectionStart ≠ v.selectionEnd)
    (hbound : bound ∈ [v.selectionStart, v.selectionEnd]) (hrow : bound.row = screenRow v row)
    (hlt : run.col < bound.col)
    : run.col + run.width ≤ bound.col := by
  have hends : v.selectionStart.row ≠ v.selectionEnd.row
      ∨ v.selectionStart.col ≠ v.selectionEnd.col := by
    by_contra hsame
    push Not at hsame
    apply hne
    cases hstart : v.selectionStart
    cases hend : v.selectionEnd
    simp_all
  by_contra hin
  apply hsplit
  have hbetween : locIsBetween bound ⟨screenRow v row, run.col⟩
      ⟨screenRow v row, run.col + run.width⟩ = true := by
    rw [locIsBetween_eq]
    simp [isBefore, hrow]
    omega
  unfold isSplit
  rcases List.mem_cons.mp hbound with heq | hmem
  . subst heq
    simp_all
  . have heq := List.mem_singleton.mp hmem
    subst heq
    simp_all

theorem TextChunk.follows (h : TextChunk cols run chunk) (hcols : v.maxCol = cols)
    : Follows v row (leaves v row run) chunk := by
  have ⟨stop, htiled, hwidth⟩ := h.tiled
  unfold leaves
  split
  . next hzero =>
    have hlt := htiled.lt h.ne_nil
    refine ⟨by simp, ?_⟩
    intro i hi c hcovers hc
    have hbounds := htiled.bounds hi
    have hleft := hcovers.left
    omega
  . split
    . rw [h.cells]
      apply follows_cellRuns htiled
    . next hsplit =>
      apply follows_singleton htiled (by omega)
      intro i hi hc
      have hbounds := htiled.bounds hi
      have hpos := width_pos i.cell
      apply locIsSelected_const hbounds.left (by omega)
      intro hselection hne bound hbound hrow _ hlt
      by_cases hmany : 1 < run.cells.length
      . have := not_mem_of_not_isSplit hmany hsplit hselection hne hbound hrow hlt
        omega
      . rw [h.cells, List.length_map] at hmany
        have ⟨j, hj⟩ := List.length_eq_one_iff.mp
          (Nat.le_antisymm (Nat.le_of_not_lt hmany) (List.length_pos_of_mem hi))
        subst hj
        rw [List.mem_singleton.mp hi, htiled.left]
        exact hlt

-- Neither end of the selection is between two empty cells.
def Uncut (v : View) (row : Int) (items : List Item) : Prop :=
  v.hasSelection = true → v.selectionStart ≠ v.selectionEnd →
    ∀ bound ∈ [v.selectionStart, v.selectionEnd],
      bound.row = screenRow v row → bound.col ≤ v.rowMaxCol bound.row →
        ¬InsideBlank bound.col items

theorem Uncut.mono {items' : List Item} (h : Uncut v row items') (hsub : items ⊆ items')
    : Uncut v row items := by
  intro hselection hne bound hbound hrow hcol ⟨i, hi, j, hj, hblank⟩
  apply h hselection hne bound hbound hrow hcol
  exact ⟨i, hsub hi, j, hsub hj, hblank⟩

theorem BlankChunk.item_at (h : BlankChunk run chunk) (hleft : run.col ≤ c)
    (hright : c < run.col + run.width)
    : ∃ i ∈ chunk, i.col = c ∧ isEmpty i.cell = true := by
  have ⟨i, hi, hcovers⟩ := h.tiled.exists_covers hleft hright
  have hwidth : i.cell.width = 1 := by
    unfold Cell.width
    rw [h.narrow i hi]
    rfl
  unfold Item.Covers at hcovers
  exact ⟨i, hi, by omega, h.empty i hi⟩

theorem BlankChunk.leaves_eq (h : BlankChunk run chunk)
    : leaves v row run = [run] := by
  have hlt := h.tiled.lt h.ne_nil
  unfold leaves isSplit
  rw [if_neg (by omega), h.cells]
  simp

theorem BlankChunk.follows (h : BlankChunk run chunk) (huncut : Uncut v row chunk)
    : Follows v row (leaves v row run) chunk := by
  rw [h.leaves_eq]
  apply follows_singleton h.tiled (fun _ _ => Iff.rfl)
  intro i hi hc
  have hbounds := h.tiled.bounds hi
  have hpos := width_pos i.cell
  apply locIsSelected_const hbounds.left (by omega)
  intro hselection hne bound hbound hrow hcol hlt
  by_contra hin
  have ⟨j, hj, hjcol, hjempty⟩ := h.item_at (c := bound.col - 1) (by omega) (by omega)
  have ⟨k, hk, hkcol, hkempty⟩ := h.item_at (c := bound.col) (by omega) (by omega)
  have hrunpos := h.pos
  rw [← hrow] at hcol
  apply huncut hselection hne bound hbound hrow hcol
  exact ⟨j, hj, k, hk, hjempty, hkempty, by omega, by omega, hkcol⟩

theorem Chunks.follows (h : Chunks cols runs items) (hcols : v.maxCol = cols)
    (huncut : Uncut v row items)
    : Follows v row (runs.flatMap (leaves v row)) items := by
  induction h with
  | nil => exact ⟨by simp, by simp⟩
  | text hchunk h ih =>
    apply (hchunk.follows hcols).append
    apply ih (huncut.mono (List.subset_append_right _ _))
  | blank hchunk hnext h ih =>
    apply (hchunk.follows (huncut.mono (List.subset_append_left _ _))).append
    apply ih (huncut.mono (List.subset_append_right _ _))
  | nothing hwidth h ih =>
    rw [List.flatMap_cons, leaves, if_pos hwidth]
    apply ih huncut

theorem BlankChunk.covers (h : BlankChunk run chunk) {i : Item} (hi : i ∈ chunk)
    : run.Covers i.col := by
  have hbounds := h.tiled.bounds hi
  have hpos := width_pos i.cell
  exact ⟨hbounds.left, by omega⟩

theorem Tiled.col_of_not_head (h : Tiled a items c) {j : Item} (hj : j ∈ items)
    (hhead : items.head? ≠ some j)
    : a < j.col := by
  cases items with
  | nil => cases hj
  | cons i items =>
    rcases List.mem_cons.mp hj with heq | hj
    . subst heq
      exact absurd rfl hhead
    . have := h.right.bounds hj
      have := width_pos i.cell
      omega

/-- Two empty cells side by side are in one run, apart from the cell in column 0. -/
theorem Chunks.same_run (h : Chunks cols runs items) {stop : Int} (htiled : Tiled a items stop)
    {i j : Item} (hi : i ∈ items) (hj : j ∈ items) (hiempty : isEmpty i.cell = true)
    (hjempty : isEmpty j.cell = true) (hpos : 0 < i.col) (hcol : j.col = i.col + 1)
    : ∃ leaf ∈ runs.flatMap (leaves v row), leaf.Covers i.col ∧ leaf.Covers j.col := by
  induction h generalizing a with
  | nil => cases hi
  | text hchunk h ih =>
    have ⟨b, htiledChunk, htiled'⟩ := htiled.split
    rcases List.mem_append.mp hi with hi | hi
    . have := hchunk.first i hi hiempty
      omega
    . rcases List.mem_append.mp hj with hj | hj
      . have := hchunk.first j hj hjempty
        omega
      . have ⟨leaf, hleaf, hcovers⟩ := ih htiled' hi hj
        exact ⟨leaf, List.mem_append_right _ hleaf, hcovers⟩
  | blank hchunk hnext h ih =>
    have ⟨b, htiledChunk, htiled'⟩ := htiled.split
    rw [List.flatMap_cons, hchunk.leaves_eq]
    rcases List.mem_append.mp hi with hi | hi
    . rcases List.mem_append.mp hj with hj | hj
      . exact ⟨_, List.mem_cons_self, hchunk.covers hi, hchunk.covers hj⟩
      . -- the cell behind a run of empty cells has contents
        have := htiled'.col_of_not_head hj (by
          intro hhead
          rw [hnext j hhead] at hjempty
          cases hjempty)
        have := htiledChunk.bounds hi
        have := width_pos i.cell
        omega
    . rcases List.mem_append.mp hj with hj | hj
      . have := htiled'.bounds hi
        have := htiledChunk.bounds hj
        have := width_pos j.cell
        omega
      . have ⟨leaf, hleaf, hcovers⟩ := ih htiled' hi hj
        exact ⟨leaf, List.mem_append_right _ hleaf, hcovers⟩
  | nothing hwidth h ih =>
    rw [List.flatMap_cons, leaves, if_pos hwidth]
    apply ih htiled hi hj

end

theorem rowItems_tiled (cells : List Cell) (c : Int)
    : ∃ stop, Tiled c (rowItems c cells) stop ∧ c + cells.length ≤ stop := by
  cases cells with
  | nil => exact ⟨c, rfl, by simp⟩
  | cons cell rest =>
    have hwidth : cell.width = if cell.isWide then 2 else 1 := rfl
    unfold rowItems
    rw [List.length_cons]
    cases hwide : cell.isWide with
    | false =>
      obtain ⟨stop, h, hle⟩ := rowItems_tiled rest (c + 1)
      rw [hwide, if_neg (by simp)] at hwidth
      exact ⟨stop, ⟨rfl, by rwa [hwidth]⟩, by omega⟩
    | true =>
      rw [hwide, if_pos rfl] at hwidth
      cases rest with
      | nil => exact ⟨_, tiled_singleton c cell, by rw [hwidth, List.length_nil]; omega⟩
      | cons half rest =>
        obtain ⟨stop, h, hle⟩ := rowItems_tiled rest (c + 2)
        exact ⟨stop, ⟨rfl, by rwa [hwidth]⟩, by rw [List.length_cons]; omega⟩
termination_by cells.length

theorem rowItems_col_lt (cells : List Cell) (c : Int) {i : Item} (hi : i ∈ rowItems c cells)
    : i.col < c + cells.length := by
  cases cells with
  | nil => cases hi
  | cons cell rest =>
    rw [List.length_cons]
    unfold rowItems at hi
    rcases List.mem_cons.mp hi with rfl | hi
    . dsimp only
      omega
    . cases hwide : cell.isWide with
      | false =>
        rw [hwide] at hi
        have := rowItems_col_lt rest (c + 1) hi
        omega
      | true =>
        rw [hwide] at hi
        cases rest with
        | nil => cases hi
        | cons half rest =>
          have := rowItems_col_lt rest (c + 2) hi
          rw [List.length_cons]
          omega
termination_by cells.length

section

variable {v : View} {row : Int} {cells : List Cell}

theorem rowLeaves_follows (hcols : v.maxCol = cells.length) (hnarrow : ∀ cell ∈ cells, Narrow cell)
    (huncut : Uncut v row (rowItems 0 cells))
    : Follows v row (rowLeaves v row cells) (rowItems 0 cells) :=
  (chunks_rowRuns hnarrow).follows hcols huncut

theorem highlightMatches_of_uncut (hcols : v.maxCol = cells.length)
    (hnarrow : ∀ cell ∈ cells, Narrow cell) (huncut : Uncut v row (rowItems 0 cells))
    : HighlightMatches v row cells := by
  have hfollows := rowLeaves_follows hcols hnarrow huncut
  have ⟨stop, htiled, _⟩ := rowItems_tiled cells 0
  intro i hi c hcovers hc selected
  rw [← hcols] at hc
  have hleaf : ∀ leaf ∈ rowLeaves v row cells, leaf.Covers c →
      locIsSelected v ⟨screenRow v row, leaf.col⟩ = locIsSelected v ⟨screenRow v row, i.col⟩ := by
    intro leaf hmem hcovers'
    have ⟨j, hj, hcj, hsame⟩ := hfollows.sound leaf hmem c hcovers' hc
    rw [hsame, htiled.covers_unique hi hj hcovers hcj]
  constructor
  . intro ⟨leaf, hmem, hcovers', heq⟩
    rw [← heq, hleaf leaf hmem hcovers']
  . intro heq
    have ⟨leaf, hmem, hcovers'⟩ := hfollows.complete i hi c hcovers hc
    exact ⟨leaf, hmem, hcovers', by rw [heq, hleaf leaf hmem hcovers']⟩

theorem HighlightMatches.same (h : HighlightMatches v row cells) {leaf : Run}
    (hleaf : leaf ∈ rowLeaves v row cells) {i : Item} (hi : i ∈ rowItems 0 cells)
    (hcovers : leaf.Covers i.col)
    : locIsSelected v ⟨screenRow v row, leaf.col⟩ = locIsSelected v ⟨screenRow v row, i.col⟩ := by
  have hcol := rowItems_col_lt cells 0 hi
  have hpos := width_pos i.cell
  have hi' : i.Covers i.col := ⟨Int.le_refl _, by omega⟩
  exact (h i hi i.col hi' (by omega) _).mp ⟨leaf, hleaf, hcovers, rfl⟩

theorem uncut_of_highlightMatches (hcols : v.maxCol = cells.length)
    (hnarrow : ∀ cell ∈ cells, Narrow cell) (h : HighlightMatches v row cells)
    : Uncut v row (rowItems 0 cells) := by
  intro hselection hne bound hbound hrow hcol ⟨i, hi, j, hj, hiempty, hjempty, hpos, hic, hjc⟩
  have ⟨stop, htiled, _⟩ := rowItems_tiled cells 0
  have hrun : ∃ leaf ∈ rowLeaves v row cells, leaf.Covers i.col ∧ leaf.Covers j.col :=
    (chunks_rowRuns hnarrow).same_run htiled hi hj hiempty hjempty hpos (by omega)
  have ⟨leaf, hleaf, hcoversi, hcoversj⟩ := hrun
  have hlt := rowItems_col_lt cells 0 hj
  have hileft : i.col = bound.col - 1 := by omega
  rw [hrow] at hcol
  apply locIsSelected_jump hselection hne hbound hrow hcol (by omega)
  rw [← hileft, ← hjc, ← h.same hleaf hi hcoversi, h.same hleaf hj hcoversj]

/--
The columns of a row are drawn as selected as their cells are, exactly if no end of the selection is
between two empty cells of the row and in front of its last cell with contents.
-/
theorem highlightMatches_iff (hcols : v.maxCol = cells.length)
    (hnarrow : ∀ cell ∈ cells, Narrow cell)
    : HighlightMatches v row cells
        ↔ ¬(v.hasSelection = true
            ∧ v.selectionStart ≠ v.selectionEnd
            ∧ (CutsBlank v row cells v.selectionStart ∨ CutsBlank v row cells v.selectionEnd)) := by
  constructor
  . intro h ⟨hselection, hne, hcuts⟩
    have huncut := uncut_of_highlightMatches hcols hnarrow h hselection hne
    rcases hcuts with ⟨hrow, hcol, hblank⟩ | ⟨hrow, hcol, hblank⟩
    . apply huncut _ (by simp) hrow hcol hblank
    . apply huncut _ (by simp) hrow hcol hblank
  . intro hcuts
    apply highlightMatches_of_uncut hcols hnarrow
    intro hselection hne bound hbound hrow hcol hblank
    apply hcuts
    refine ⟨hselection, hne, ?_⟩
    rcases List.mem_cons.mp hbound with rfl | hmem
    . exact Or.inl ⟨hrow, hcol, hblank⟩
    . rw [List.mem_singleton.mp hmem] at hrow hcol hblank
      exact Or.inr ⟨hrow, hcol, hblank⟩

end

namespace Gap

def cell (contents : List UInt8) : Cell :=
  {
    contents
    isWide := false
    attrs :=
      {
        fgcolor := ⟨.default, 0⟩
        bgcolor := ⟨.default, 0⟩
        bold := false
        italic := false
        underline := false
        inverse := false
      }
  }

-- Two letters with three empty cells between them.
def cells : List Cell := [cell [0x61], cell [], cell [], cell [], cell [0x62]]

-- The screen has two rows of them.
def view (selectionStart selectionEnd : Loc) : View :=
  {
    rowTop := 0
    maxCol := 5
    rowVisibleOffset := 0
    hasSelection := true
    selectionStart
    selectionEnd
    rowMaxCol := fun _ => 4
    glyphsAreMonospace := fun _ => true
  }

theorem narrow : ∀ cell ∈ cells, Narrow cell := by
  unfold Narrow
  decide

end Gap

theorem highlightMatches_iff_gap
    : HighlightMatches (Gap.view ⟨0, 1⟩ ⟨1, 0⟩) 0 Gap.cells :=
  (highlightMatches_iff rfl Gap.narrow).mpr (by decide)

-- From the middle of the gap on everything is selected, but the gap is drawn as not selected.
theorem not_highlightMatches_gap
    : ¬HighlightMatches (Gap.view ⟨0, 3⟩ ⟨1, 0⟩) 0 Gap.cells := by
  intro h
  have hleaf : (⟨1, 3, []⟩ : Run) ∈ rowLeaves (Gap.view ⟨0, 3⟩ ⟨1, 0⟩) 0 Gap.cells := by decide
  have hitem : (⟨3, Gap.cell []⟩ : Item) ∈ rowItems 0 Gap.cells := by decide
  have hsame := h.same hleaf hitem ⟨by decide, by decide⟩
  revert hsame
  decide

end Display
end Runes
