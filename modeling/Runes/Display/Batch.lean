import Runes.Display.DrawLemmas
import Runes.Display.Highlight

/-!
This module contains that the runs of a row lose and repeat nothing: they lie side by side and hand over
every cell with contents once, with the column that it is in.
-/

namespace Runes
namespace Display

/--
The rows of a screen: empty cells are not wide, and behind a wide one there is its right half, which is
empty.
-/
structure WellFormed (cells : List Cell) : Prop where
  narrow : ∀ cell ∈ cells, Narrow cell
  wide : ∀ i cell, cells[i]? = some cell → cell.isWide = true →
    1 < cell.contents.length ∧ ∃ half, cells[i + 1]? = some half ∧ isEmpty half = true

-- The cells of a row with the columns that they are stored at.
def cellItems (c : Int) (cells : List Cell) : List Item :=
  match cells with
  | [] => []
  | cell :: cells => ⟨c, cell⟩ :: cellItems (c + 1) cells

-- Cells that are handed over together, with their columns.
def itemsFrom (col : Int) (cells : List Cell) : List Item :=
  match cells with
  | [] => []
  | cell :: cells => ⟨col, cell⟩ :: itemsFrom (col + cell.width) cells

def Run.items (run : Run) : List Item := itemsFrom run.col run.cells

def hasContents (i : Item) : Bool := !isEmpty i.cell

-- A call of `runes_display_draw_string` without a width does nothing.
def drawnRuns (cells : List Cell) : List Run :=
  (rowRuns cells).filter (fun run => run.width ≠ 0)

/-- The runs lie side by side from column `a` to column `b`. -/
def SideBySide (a : Int) (runs : List Run) (b : Int) : Prop :=
  match runs with
  | [] => a = b
  | run :: runs => run.col = a ∧ 0 < run.width ∧ SideBySide (a + run.width) runs b

section

variable {a b c cols : Int} {run : Run} {runs : List Run} {items chunk : List Item}
  {cells : List Cell}

theorem Tiled.itemsFrom (h : Tiled a items b) : itemsFrom a (items.map Item.cell) = items := by
  induction items generalizing a with
  | nil => rfl
  | cons i items ih =>
    rw [List.map_cons, Display.itemsFrom, ih h.right, ← h.left]

theorem Tiled.end_unique (h : Tiled a items b) (h' : Tiled a items c) : b = c := by
  induction items generalizing a with
  | nil =>
    have hb : a = b := h
    have hc : a = c := h'
    omega
  | cons i items ih => apply ih h.right h'.right

theorem Tiled.col_eq (h : Tiled a items b) (h' : Tiled c items cols) (hne : items ≠ []) : a = c := by
  cases items with
  | nil => exact absurd rfl hne
  | cons i items => rw [← h.left, ← h'.left]

theorem Tiled.col_lt (h : Tiled a items b) (hne : items ≠ []) (hlt : ∀ i ∈ items, i.col < cols)
    : a < cols := by
  cases items with
  | nil => exact absurd rfl hne
  | cons i items =>
    rw [← h.left]
    apply hlt i List.mem_cons_self

theorem TextChunk.drawn (h : TextChunk cols run chunk) (htiled : Tiled a chunk b)
    (hlt : ∀ i ∈ chunk, i.col < cols)
    : run.col = a ∧ 0 < run.width ∧ a + run.width = min b cols := by
  have ⟨stop, hstop, hwidth⟩ := h.tiled
  have hcol := hstop.col_eq htiled h.ne_nil
  have hpos := htiled.lt h.ne_nil
  have hcols := htiled.col_lt h.ne_nil hlt
  rw [hcol] at hstop hwidth
  have hend := hstop.end_unique htiled
  refine ⟨hcol, ?_, ?_⟩ <;> omega

theorem BlankChunk.drawn (h : BlankChunk run chunk) (htiled : Tiled a chunk b)
    (hlt : ∀ i ∈ chunk, i.col < cols)
    : run.col = a ∧ 0 < run.width ∧ a + run.width = min b cols := by
  have hstop := h.tiled
  have hcol := hstop.col_eq htiled h.ne_nil
  have hpos := htiled.lt h.ne_nil
  rw [hcol] at hstop
  have hend := hstop.end_unique htiled
  -- the last column of the run is the one of its last cell
  have ⟨i, hi, hicol, _⟩ := h.item_at (c := b - 1) (by omega) (by omega)
  have := hlt i hi
  refine ⟨hcol, ?_, ?_⟩ <;> omega

theorem filter_drawn {run : Run} (hpos : 0 < run.width) (runs : List Run)
    : (run :: runs).filter (fun run => run.width ≠ 0) = run :: runs.filter (fun run => run.width ≠ 0) := by
  apply List.filter_cons_of_pos
  simp
  omega

theorem filter_nothing {run : Run} (hzero : run.width = 0) (runs : List Run)
    : (run :: runs).filter (fun run => run.width ≠ 0) = runs.filter (fun run => run.width ≠ 0) := by
  apply List.filter_cons_of_neg
  simp [hzero]

theorem sideBySide_cons (hcol : run.col = a) (hpos : 0 < run.width) (hend : a + run.width = min b cols)
    (hlt : a < cols) (h : SideBySide (min b cols) runs c)
    : SideBySide (min a cols) (run :: runs) c := by
  have ha : min a cols = a := by omega
  rw [ha]
  refine ⟨hcol, hpos, ?_⟩
  rwa [hend]

theorem Chunks.sideBySide (h : Chunks cols runs items) (htiled : Tiled a items b)
    (hlt : ∀ i ∈ items, i.col < cols)
    : SideBySide (min a cols) (runs.filter (fun run => run.width ≠ 0)) (min b cols) := by
  induction h generalizing a with
  | nil =>
    have heq : a = b := htiled
    rw [heq]
    rfl
  | text hchunk h ih =>
    have ⟨m, htiledChunk, htiled'⟩ := htiled.split
    rw [List.forall_mem_append] at hlt
    have ⟨hcol, hpos, hend⟩ := hchunk.drawn htiledChunk hlt.left
    rw [filter_drawn hpos]
    apply sideBySide_cons hcol hpos hend (htiledChunk.col_lt hchunk.ne_nil hlt.left)
    apply ih htiled' hlt.right
  | blank hchunk hnext h ih =>
    have ⟨m, htiledChunk, htiled'⟩ := htiled.split
    rw [List.forall_mem_append] at hlt
    have ⟨hcol, hpos, hend⟩ := hchunk.drawn htiledChunk hlt.left
    rw [filter_drawn hpos]
    apply sideBySide_cons hcol hpos hend (htiledChunk.col_lt hchunk.ne_nil hlt.left)
    apply ih htiled' hlt.right
  | nothing hwidth h ih =>
    rw [filter_nothing hwidth]
    apply ih htiled hlt

theorem Chunks.items_eq (h : Chunks cols runs items) (htiled : Tiled a items b)
    (hlt : ∀ i ∈ items, i.col < cols)
    : ((runs.filter (fun run => run.width ≠ 0)).flatMap Run.items).filter hasContents
        = items.filter hasContents := by
  induction h generalizing a with
  | nil => rfl
  | text hchunk h ih =>
    have ⟨m, htiledChunk, htiled'⟩ := htiled.split
    rw [List.forall_mem_append] at hlt
    have ⟨hcol, hpos, _⟩ := hchunk.drawn htiledChunk hlt.left
    rw [filter_drawn hpos, List.flatMap_cons, List.filter_append, List.filter_append,
      ih htiled' hlt.right, Run.items, hchunk.cells, hcol, htiledChunk.itemsFrom]
  | @blank run chunk runs items hchunk hnext h ih =>
    have ⟨m, htiledChunk, htiled'⟩ := htiled.split
    rw [List.forall_mem_append] at hlt
    have ⟨hcol, hpos, _⟩ := hchunk.drawn htiledChunk hlt.left
    have hnone : chunk.filter hasContents = [] := by
      rw [List.filter_eq_nil_iff]
      intro i hi
      simp [hasContents, hchunk.empty i hi]
    rw [filter_drawn hpos, List.flatMap_cons, List.filter_append, List.filter_append,
      ih htiled' hlt.right, Run.items, hchunk.cells, hnone]
    rfl
  | nothing hwidth h ih =>
    rw [filter_nothing hwidth]
    apply ih htiled hlt

theorem WellFormed.rest {cell : Cell} (h : WellFormed (cell :: cells)) : WellFormed cells where
  narrow cell' hcell := h.narrow cell' (List.mem_cons_of_mem cell hcell)
  wide i cell' hcell := h.wide (i + 1) cell' hcell

-- What follows a wide cell.
theorem WellFormed.half {cell : Cell} (h : WellFormed (cell :: cells)) (hwide : cell.isWide = true)
    : ∃ half rest, cells = half :: rest ∧ isEmpty half = true := by
  have ⟨_, half, hhalf, hempty⟩ := h.wide 0 cell rfl hwide
  cases cells with
  | nil => cases hhalf
  | cons half' rest =>
    cases hhalf
    exact ⟨half, rest, rfl, hempty⟩

theorem rowItems_wellFormed (cells : List Cell) (c : Int) (h : WellFormed cells)
    : Tiled c (rowItems c cells) (c + cells.length)
        ∧ (rowItems c cells).filter hasContents = (cellItems c cells).filter hasContents := by
  cases cells with
  | nil => exact ⟨by simp [rowItems, Tiled], rfl⟩
  | cons cell rest =>
    unfold rowItems cellItems
    cases hwide : cell.isWide with
    | false =>
      obtain ⟨htiled, hitems⟩ := rowItems_wellFormed rest (c + 1) h.rest
      have hwidth : cell.width = 1 := by simp [Cell.width, hwide]
      have hlen : c + (cell :: rest).length = c + 1 + rest.length := by
        rw [List.length_cons]
        omega
      rw [hlen]
      constructor
      . exact ⟨rfl, by rwa [hwidth]⟩
      . rw [List.filter_cons, List.filter_cons, hitems]
    | true =>
      obtain ⟨half, rest', hrest, hempty⟩ := h.half hwide
      subst hrest
      obtain ⟨htiled, hitems⟩ := rowItems_wellFormed rest' (c + 2) h.rest.rest
      have hwidth : cell.width = 2 := by simp [Cell.width, hwide]
      have hlen : c + (cell :: half :: rest').length = c + 2 + rest'.length := by
        rw [List.length_cons, List.length_cons]
        omega
      have hhalf : hasContents ⟨c + 1, half⟩ = false := by simp [hasContents, hempty]
      have hcol : c + 1 + 1 = c + 2 := by omega
      rw [hlen]
      constructor
      . exact ⟨rfl, by rwa [hwidth]⟩
      . rw [cellItems, List.filter_cons, List.filter_cons, List.filter_cons_of_neg (by simp [hhalf]),
          hcol, hitems]
termination_by cells.length

end

-- What `runes_display_continue_string` compares.
structure SameLook (a b : Cell) : Prop where
  fgcolor : a.attrs.fgcolor.id = b.attrs.fgcolor.id
  bgcolor : a.attrs.bgcolor.id = b.attrs.bgcolor.id
  bold : a.attrs.bold = b.attrs.bold
  italic : a.attrs.italic = b.attrs.italic
  underline : a.attrs.underline = b.attrs.underline
  inverse : a.attrs.inverse = b.attrs.inverse

theorem SameLook.refl (a : Cell) : SameLook a a := ⟨rfl, rfl, rfl, rfl, rfl, rfl⟩

theorem SameLook.symm {a b : Cell} (h : SameLook a b) : SameLook b a :=
  ⟨h.fgcolor.symm, h.bgcolor.symm, h.bold.symm, h.italic.symm, h.underline.symm, h.inverse.symm⟩

theorem SameLook.trans {a b c : Cell} (h : SameLook a b) (h' : SameLook b c) : SameLook a c :=
  ⟨h.fgcolor.trans h'.fgcolor, h.bgcolor.trans h'.bgcolor, h.bold.trans h'.bold,
    h.italic.trans h'.italic, h.underline.trans h'.underline, h.inverse.trans h'.inverse⟩

theorem sameLook_of_continueString {old new : Cell} (h : continueString (some old) new = true)
    : SameLook old new := by
  unfold continueString at h
  dsimp only at h
  split at h
  . cases h
  . simp only [Bool.and_eq_true, decide_eq_true_eq] at h
    have ⟨⟨⟨⟨⟨hfg, hbg⟩, hbold⟩, hitalic⟩, hunderline⟩, hinverse⟩ := h
    exact ⟨hfg, hbg, hbold, hitalic, hunderline, hinverse⟩

section

variable {cells : List Cell} {P : List Cell → Prop}

-- What the loop has collected, or will collect of the empty cells.
def Scan.Holds (P : List Cell → Prop) (scan : Scan) : Prop :=
  match scan with
  | .text cells => P cells
  | .blank last => P [last]

theorem holds_next (hnil : P []) {cell : Cell}
    (hsnoc : ∀ l, P l → continueString l.getLast? cell = true → P (l ++ [cell])) {scan : Scan}
    (hscan : scan.Holds P) (start c : Int)
    : (∀ run ∈ (scan.next start c cell).fst, P run.cells) ∧ (scan.next start c cell).2.2.Holds P := by
  have hsingle : P [cell] := hsnoc [] hnil rfl
  unfold Scan.next
  cases scan with
  | text l =>
    have hl : P l := hscan
    dsimp only
    split
    . next hcontinue => exact ⟨by simp, hsnoc l hl hcontinue⟩
    . split <;> exact ⟨by simpa using hl, hsingle⟩
  | blank last =>
    dsimp only
    split
    . exact ⟨by simp, hsingle⟩
    . exact ⟨by simpa using hnil, hsingle⟩

theorem rowRuns_go_induction (hnil : P [])
    (hsnoc : ∀ l, ∀ cell ∈ cells, P l → continueString l.getLast? cell = true → P (l ++ [cell]))
    (rest : List Cell) (hrest : ∀ cell ∈ rest, cell ∈ cells) {scan : Scan} (hscan : scan.Holds P)
    (cols c start : Int)
    : ∀ run ∈ rowRuns.go cols rest c start scan, P run.cells := by
  cases rest with
  | nil =>
    unfold rowRuns.go Scan.finish
    cases scan with
    | text l =>
      have hl : P l := hscan
      simpa using hl
    | blank last =>
      have hlast : P [last] := hscan
      simpa using ⟨hnil, hlast⟩
  | cons cell rest =>
    obtain ⟨hcell, hrest⟩ := List.forall_mem_cons.mp hrest
    obtain ⟨hruns, hscan'⟩ := holds_next hnil (fun l => hsnoc l cell hcell) hscan start c
    unfold rowRuns.go
    dsimp only
    rw [List.forall_mem_append]
    refine ⟨hruns, ?_⟩
    cases (scan.next start c cell).2.2.skips cell with
    | false => apply rowRuns_go_induction hnil hsnoc rest hrest hscan'
    | true =>
      cases rest with
      | nil => apply rowRuns_go_induction hnil hsnoc [] hrest hscan'
      | cons half rest =>
        obtain ⟨_, hrest⟩ := List.forall_mem_cons.mp hrest
        apply rowRuns_go_induction hnil hsnoc rest hrest hscan'
termination_by rest.length

/-- What the cells of a run have in common follows from what is tested when a cell is added to it. -/
theorem rowRuns_induction (hnil : P [])
    (hsnoc : ∀ l, ∀ cell ∈ cells, P l → continueString l.getLast? cell = true → P (l ++ [cell]))
    : ∀ run ∈ rowRuns cells, P run.cells := by
  apply rowRuns_go_induction hnil hsnoc cells (fun cell hcell => hcell)
  exact hnil

theorem run_cells : ∀ run ∈ rowRuns cells,
    (∀ cell ∈ run.cells, cell ∈ cells) ∧ ∀ a ∈ run.cells, ∀ b ∈ run.cells, SameLook a b := by
  apply rowRuns_induction (P := fun l => (∀ cell ∈ l, cell ∈ cells) ∧ ∀ a ∈ l, ∀ b ∈ l, SameLook a b)
  . simp
  . intro l cell hcell ⟨hmem, hsame⟩ hcontinue
    have hlast : ∀ a ∈ l, SameLook a cell := by
      intro a ha
      have hne : l ≠ [] := List.ne_nil_of_mem ha
      rw [List.getLast?_eq_some_getLast hne] at hcontinue
      have hold := sameLook_of_continueString hcontinue
      exact (hsame a ha _ (List.getLast_mem hne)).trans hold
    constructor
    . rw [List.forall_mem_append, List.forall_mem_singleton]
      exact ⟨hmem, hcell⟩
    . intro a ha b hb
      rw [List.mem_append, List.mem_singleton] at ha hb
      rcases ha with ha | rfl
      . rcases hb with hb | rfl
        . exact hsame a ha b hb
        . exact hlast a ha
      . rcases hb with hb | rfl
        . exact (hlast b hb).symm
        . apply SameLook.refl

end

end Display
end Runes
