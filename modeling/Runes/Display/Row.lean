import Runes.Display.Draw

/-!
This module contains how `runes_display_draw_screen` cuts a row of the screen into runs of cells that
are drawn in one go, and that these runs are the cells of the row in their order.
-/

namespace Runes
namespace Display

-- The arguments of a call of `runes_display_draw_string`.
structure Run where
  col : Int
  width : Int
  cells : List Cell
  deriving DecidableEq

def isEmpty (cell : Cell) : Bool := cell.contents.isEmpty

def continueString (old : Option Cell) (new : Cell) : Bool :=
  match old with
  | none => true
  | some old =>
    if isEmpty old || isEmpty new then
      false
    else
      old.attrs.fgcolor.id = new.attrs.fgcolor.id
        && old.attrs.bgcolor.id = new.attrs.bgcolor.id
        && old.attrs.bold = new.attrs.bold
        && old.attrs.italic = new.attrs.italic
        && old.attrs.underline = new.attrs.underline
        && old.attrs.inverse = new.attrs.inverse

-- Where the loop over the columns is: it collects cells, the last of which is `prev_cell`, or it
-- skips empty cells in the loop inside of it.
inductive Scan where
  | text (cells : List Cell)
  | blank (last : Cell)

/--
What the loop does with the cell at column `c`: the run that starts at `start` is drawn, or it goes
on.
-/
def Scan.next (start c : Int) (cell : Cell) (scan : Scan) : List Run × Int × Scan :=
  match scan with
  | .text cells =>
    if continueString cells.getLast? cell then
      ([], start, .text (cells ++ [cell]))
    else if isEmpty cell then
      ([⟨start, c - start, cells⟩], c, .blank cell)
    else
      ([⟨start, c - start, cells⟩], c, .text [cell])
  | .blank _ =>
    if isEmpty cell then
      ([], start, .blank cell)
    else
      ([⟨start, c - start, []⟩], c, .text [cell])

-- Only a cell that was collected takes as many columns as it is wide.
def Scan.skips (cell : Cell) (scan : Scan) : Bool :=
  match scan with
  | .text _ => cell.isWide
  | .blank _ => false

-- The last of the empty cells is collected, too, but it is not drawn again.
def Scan.finish (cols start c : Int) (scan : Scan) : List Run :=
  match scan with
  | .text cells => [⟨start, cols - start, cells⟩]
  | .blank last => [⟨start, c - start, []⟩, ⟨c, cols - c, [last]⟩]

def rowRuns (cells : List Cell) : List Run :=
  go cells.length cells 0 0 (.text [])
where
  go (cols : Int) (rest : List Cell) (c start : Int) (scan : Scan) : List Run :=
    match rest with
    | [] => scan.finish cols start c
    | cell :: rest =>
      let (runs, start, scan) := scan.next start c cell
      runs ++
        match scan.skips cell, rest with
        | true, _ :: rest => go cols rest (c + 2) start scan
        | true, [] => go cols [] (c + 2) start scan
        | false, rest => go cols rest (c + 1) start scan

def drawRow (config : Config) (v : View) (cr : Cairo Drawn) (row : Int) (cells : List Cell)
    : Cairo Drawn :=
  (rowRuns cells).foldl
    (fun cr run => drawString config v cr row run.col run.width run.cells)
    cr

-- A cell with the column that it starts in.
structure Item where
  col : Int
  cell : Cell
  deriving DecidableEq

def Item.Covers (i : Item) (c : Int) : Prop := i.col ≤ c ∧ c < i.col + i.cell.width

def Run.Covers (run : Run) (c : Int) : Prop := run.col ≤ c ∧ c < run.col + run.width

/--
The cells that occupy the columns of a row, without the right halves of the wide ones.
-/
def rowItems (c : Int) (cells : List Cell) : List Item :=
  match cells with
  | [] => []
  | cell :: rest =>
    ⟨c, cell⟩ ::
      match cell.isWide, rest with
      | true, _ :: rest => rowItems (c + 2) rest
      | true, [] => []
      | false, rest => rowItems (c + 1) rest

/-- The items lie side by side from column `a` to column `b`. -/
def Tiled (a : Int) (items : List Item) (b : Int) : Prop :=
  match items with
  | [] => a = b
  | i :: items => i.col = a ∧ Tiled (a + i.cell.width) items b

theorem width_pos (cell : Cell) : 0 < cell.width := by
  unfold Cell.width
  split <;> omega

section

variable {a b c : Int} {items items' : List Item} {i : Item}

theorem Tiled.le (h : Tiled a items b) : a ≤ b := by
  induction items generalizing a with
  | nil =>
    have heq : a = b := h
    omega
  | cons i items ih =>
    have := ih h.right
    have := width_pos i.cell
    omega

theorem Tiled.bounds (h : Tiled a items b) (hi : i ∈ items)
    : a ≤ i.col ∧ i.col + i.cell.width ≤ b := by
  induction items generalizing a with
  | nil => cases hi
  | cons j items ih =>
    have hle := h.right.le
    have hpos := width_pos j.cell
    have hcol := h.left
    rcases List.mem_cons.mp hi with heq | hi
    . subst heq
      omega
    . have := ih h.right hi
      omega

theorem Tiled.append (h : Tiled a items b) (h' : Tiled b items' c)
    : Tiled a (items ++ items') c := by
  induction items generalizing a with
  | nil =>
    have heq : a = b := h
    subst heq
    exact h'
  | cons i items ih => exact ⟨h.left, ih h.right⟩

theorem Tiled.split (h : Tiled a (items ++ items') c)
    : ∃ b, Tiled a items b ∧ Tiled b items' c := by
  induction items generalizing a with
  | nil => exact ⟨a, rfl, h⟩
  | cons i items ih =>
    have ⟨b, hleft, hright⟩ := ih h.right
    exact ⟨b, ⟨h.left, hleft⟩, hright⟩

theorem Tiled.exists_covers (h : Tiled a items b) (hle : a ≤ c) (hlt : c < b)
    : ∃ i ∈ items, i.Covers c := by
  induction items generalizing a with
  | nil =>
    have heq : a = b := h
    omega
  | cons i items ih =>
    have hcol := h.left
    by_cases hc : c < a + i.cell.width
    . exact ⟨i, List.mem_cons_self, by omega, by omega⟩
    . have ⟨j, hj, hcovers⟩ := ih h.right (by omega)
      exact ⟨j, List.mem_cons_of_mem i hj, hcovers⟩

theorem Tiled.covers_unique (h : Tiled a items b) {j : Item} (hi : i ∈ items) (hj : j ∈ items)
    (hci : i.Covers c) (hcj : j.Covers c)
    : i = j := by
  induction items generalizing a with
  | nil => cases hi
  | cons k items ih =>
    have hcol := h.left
    rcases List.mem_cons.mp hi with rfl | hi'
    . rcases List.mem_cons.mp hj with rfl | hj'
      . rfl
      . have := h.right.bounds hj'
        have := hci.right
        have := hcj.left
        omega
    . rcases List.mem_cons.mp hj with rfl | hj'
      . have := h.right.bounds hi'
        have := hcj.right
        have := hci.left
        omega
      . exact ih h.right hi' hj'

end

def Narrow (cell : Cell) : Prop := isEmpty cell = true → cell.isWide = false

-- A run of cells that are drawn with their contents. An empty cell is drawn like this only if it is
-- the first one of the row.
structure TextChunk (cols : Int) (run : Run) (chunk : List Item) : Prop where
  cells : run.cells = chunk.map Item.cell
  ne_nil : chunk ≠ []
  tiled : ∃ stop, Tiled run.col chunk stop ∧ run.width = min stop cols - run.col
  many : chunk.length ≤ 1 ∨ ∀ i ∈ chunk, isEmpty i.cell = false
  first : ∀ i ∈ chunk, isEmpty i.cell = true → i.col = 0

-- A run of empty cells.
structure BlankChunk (run : Run) (chunk : List Item) : Prop where
  cells : run.cells = []
  ne_nil : chunk ≠ []
  tiled : Tiled run.col chunk (run.col + run.width)
  empty : ∀ i ∈ chunk, isEmpty i.cell = true
  narrow : ∀ i ∈ chunk, i.cell.isWide = false
  pos : 0 < run.col

/-- The runs draw the items in their order. -/
inductive Chunks (cols : Int) : List Run → List Item → Prop where
  | nil : Chunks cols [] []
  | text {run : Run} {chunk : List Item} {runs : List Run} {items : List Item}
      (hchunk : TextChunk cols run chunk) (h : Chunks cols runs items)
      : Chunks cols (run :: runs) (chunk ++ items)
  | blank {run : Run} {chunk : List Item} {runs : List Run} {items : List Item}
      (hchunk : BlankChunk run chunk) (hnext : ∀ i, items.head? = some i → isEmpty i.cell = false)
      (h : Chunks cols runs items)
      : Chunks cols (run :: runs) (chunk ++ items)
  | nothing {run : Run} {runs : List Run} {items : List Item} (hwidth : run.width = 0)
      (h : Chunks cols runs items)
      : Chunks cols (run :: runs) items

/-- The items that the loop has seen, but not drawn yet. -/
inductive Pending (c start : Int) : Scan → List Item → Prop where
  | text {chunk : List Item} (htiled : Tiled start chunk c) (hnil : chunk = [] → c = 0)
      (hmany : chunk.length ≤ 1 ∨ ∀ i ∈ chunk, isEmpty i.cell = false)
      (hfirst : ∀ i ∈ chunk, isEmpty i.cell = true → i.col = 0)
      : Pending c start (.text (chunk.map Item.cell)) chunk
  | blank {last : Cell} {chunk : List Item} (htiled : Tiled start chunk c) (hne : chunk ≠ [])
      (hempty : ∀ i ∈ chunk, isEmpty i.cell = true) (hnarrow : ∀ i ∈ chunk, i.cell.isWide = false)
      (hpos : 0 < start)
      : Pending c start (.blank last) chunk

section

variable {cols c start : Int} {scan : Scan} {chunk : List Item} {cell : Cell}

theorem tiled_singleton (c : Int) (cell : Cell) : Tiled c [⟨c, cell⟩] (c + cell.width) := ⟨rfl, rfl⟩

theorem continueString_some {old new : Cell} (h : continueString (some old) new = true)
    : isEmpty old = false ∧ isEmpty new = false := by
  unfold continueString at h
  dsimp only at h
  split at h
  . cases h
  . next hne => simpa using hne

theorem Tiled.lt {a b : Int} {items : List Item} (h : Tiled a items b) (hne : items ≠ [])
    : a < b := by
  have ⟨i, hi⟩ := List.exists_mem_of_ne_nil items hne
  have := h.bounds hi
  have := width_pos i.cell
  omega

theorem Pending.single (c : Int) (cell : Cell) (hempty : isEmpty cell = true → c = 0)
    : Pending (c + cell.width) c (.text [cell]) [⟨c, cell⟩] :=
  .text (tiled_singleton c cell) (by simp) (Or.inl (by simp)) (by simpa using hempty)

theorem Pending.continue (htiled : Tiled start chunk c) (hnil : chunk = [] → c = 0)
    (hmany : chunk.length ≤ 1 ∨ ∀ i ∈ chunk, isEmpty i.cell = false)
    (hfirst : ∀ i ∈ chunk, isEmpty i.cell = true → i.col = 0)
    (hcontinue : continueString (chunk.map Item.cell).getLast? cell = true)
    : Pending (c + cell.width) start (.text (chunk.map Item.cell ++ [cell]))
        (chunk ++ [⟨c, cell⟩]) := by
  have hcells : chunk.map Item.cell ++ [cell] = (chunk ++ [(⟨c, cell⟩ : Item)]).map Item.cell := by
    simp
  rw [hcells]
  have htiled' := htiled.append (tiled_singleton c cell)
  by_cases hne : chunk = []
  . subst hne
    refine .text htiled' (by simp) (Or.inl (by simp)) ?_
    intro i hi _
    rw [List.mem_singleton.mp hi]
    exact hnil rfl
  . have hlast : (chunk.map Item.cell).getLast? = some (chunk.getLast hne).cell := by
      rw [List.getLast?_map, List.getLast?_eq_some_getLast hne, Option.map_some]
    rw [hlast] at hcontinue
    have ⟨hold, hnew⟩ := continueString_some hcontinue
    have hall : ∀ i ∈ chunk, isEmpty i.cell = false := by
      rcases hmany with hone | hall
      . intro i hi
        have ⟨j, hj⟩ := List.length_eq_one_iff.mp
          (Nat.le_antisymm hone (List.length_pos_of_mem hi))
        subst hj
        rw [List.mem_singleton.mp hi]
        exact hold
      . exact hall
    have hall' : ∀ i ∈ chunk ++ [⟨c, cell⟩], isEmpty i.cell = false := by
      intro i hi
      rcases List.mem_append.mp hi with hi | hi
      . exact hall i hi
      . rw [List.mem_singleton.mp hi]
        exact hnew
    refine .text htiled' (by simp) (Or.inr hall') ?_
    intro i hi hempty
    rw [hall' i hi] at hempty
    cases hempty

/--
The cell at column `c` becomes pending, and what is drawn for it are the items that were pending.
-/
def Advances (cols c start : Int) (cell : Cell) (scan : Scan) (chunk : List Item) : Prop :=
  ∃ runs start' scan' chunk',
    scan.next start c cell = (runs, start', scan')
      ∧
    scan'.skips cell = cell.isWide
      ∧
    0 ≤ start'
      ∧
    Pending (c + cell.width) start' scan' chunk'
      ∧
    ∀ runs' items, Chunks cols runs' (chunk' ++ items) →
      Chunks cols (runs ++ runs') (chunk ++ ⟨c, cell⟩ :: items)

section

variable (hnarrow : Narrow cell)
include hnarrow

theorem advances_text (hstart : 0 ≤ start) (hlt : c < cols) (htiled : Tiled start chunk c)
    (hnil : chunk = [] → c = 0) (hmany : chunk.length ≤ 1 ∨ ∀ i ∈ chunk, isEmpty i.cell = false)
    (hfirst : ∀ i ∈ chunk, isEmpty i.cell = true → i.col = 0)
    : Advances cols c start cell (.text (chunk.map Item.cell)) chunk := by
  have hcell : ∀ {i : Item}, i ∈ [(⟨c, cell⟩ : Item)] → i = ⟨c, cell⟩ := List.mem_singleton.mp
  unfold Advances Scan.next
  dsimp only
  split
  . next hcontinue =>
    refine ⟨_, _, _, chunk ++ [⟨c, cell⟩], rfl, rfl, hstart, ?_, ?_⟩
    . apply Pending.continue htiled hnil hmany hfirst hcontinue
    . intro runs' items hchunks
      simpa using hchunks
  . next hcontinue =>
    have hne : chunk ≠ [] := by
      intro hnil
      subst hnil
      exact hcontinue rfl
    have hlt' := htiled.lt hne
    have hchunk : TextChunk cols ⟨start, c - start, chunk.map Item.cell⟩ chunk :=
      ⟨rfl, hne, ⟨c, htiled, by dsimp only; omega⟩, hmany, hfirst⟩
    split
    . next hempty =>
      refine ⟨_, _, _, [⟨c, cell⟩], rfl, (hnarrow hempty).symm, by omega, ?_, ?_⟩
      . refine .blank (tiled_singleton c cell) (by simp) ?_ ?_ (by omega)
        . intro i hi
          rw [hcell hi]
          exact hempty
        . intro i hi
          rw [hcell hi]
          exact hnarrow hempty
      . intro runs' items hchunks
        exact .text hchunk hchunks
    . next hempty =>
      refine ⟨_, _, _, [⟨c, cell⟩], rfl, rfl, by omega, ?_, ?_⟩
      . apply Pending.single
        intro h
        exact absurd h hempty
      . intro runs' items hchunks
        exact .text hchunk hchunks

theorem advances_blank {last : Cell} (hstart : 0 ≤ start) (htiled : Tiled start chunk c)
    (hne : chunk ≠ []) (hempty : ∀ i ∈ chunk, isEmpty i.cell = true)
    (hnarrows : ∀ i ∈ chunk, i.cell.isWide = false) (hpos : 0 < start)
    : Advances cols c start cell (.blank last) chunk := by
  have hcell : ∀ {i : Item}, i ∈ [(⟨c, cell⟩ : Item)] → i = ⟨c, cell⟩ := List.mem_singleton.mp
  unfold Advances Scan.next
  dsimp only
  split
  . next hblank =>
    refine ⟨_, _, _, chunk ++ [⟨c, cell⟩], rfl, (hnarrow hblank).symm, hstart, ?_, ?_⟩
    . refine .blank (htiled.append (tiled_singleton c cell)) (by simp) ?_ ?_ hpos
      . intro i hi
        rcases List.mem_append.mp hi with hi | hi
        . exact hempty i hi
        . rw [hcell hi]
          exact hblank
      . intro i hi
        rcases List.mem_append.mp hi with hi | hi
        . exact hnarrows i hi
        . rw [hcell hi]
          exact hnarrow hblank
    . intro runs' items hchunks
      simpa using hchunks
  . next htext =>
    refine ⟨_, _, _, [⟨c, cell⟩], rfl, rfl, by have := htiled.lt hne; omega, ?_, ?_⟩
    . apply Pending.single
      intro h
      exact absurd h htext
    . intro runs' items hchunks
      refine .blank ⟨rfl, hne, ?_, hempty, hnarrows, hpos⟩ ?_ hchunks
      . have hstop : start + (c - start) = c := by omega
        dsimp only
        rw [hstop]
        exact htiled
      . intro i hi
        rw [List.head?_cons, Option.some.injEq] at hi
        subst hi
        simpa using htext

theorem Pending.next (h : Pending c start scan chunk) (hstart : 0 ≤ start) (hlt : c < cols)
    : Advances cols c start cell scan chunk := by
  cases h with
  | text htiled hnil hmany hfirst =>
    apply advances_text hnarrow hstart hlt htiled hnil hmany hfirst
  | blank htiled hne hempty hnarrows hpos =>
    apply advances_blank hnarrow hstart htiled hne hempty hnarrows hpos

end

-- The loop ends behind the last column if the last cell is a wide one.
def Scan.AtEnd (cols c : Int) (scan : Scan) : Prop :=
  c = cols ∨ (c = cols + 1 ∧ ∀ last, scan ≠ .blank last)

theorem Pending.finish (h : Pending c start scan chunk) (hcols : 0 ≤ cols) (hend : scan.AtEnd cols c)
    : Chunks cols (scan.finish cols start c) (chunk ++ []) := by
  unfold Scan.AtEnd at hend
  cases h with
  | text htiled hnil hmany hfirst =>
    by_cases hne : chunk = []
    . subst hne
      have hstart : start = c := htiled
      have := hnil rfl
      refine .nothing ?_ .nil
      dsimp only
      omega
    . refine .text ⟨rfl, hne, ⟨c, htiled, ?_⟩, hmany, hfirst⟩ .nil
      dsimp only
      omega
  | blank htiled hne hempty hnarrows hpos =>
    have hc : c = cols := by
      rcases hend with hc | ⟨_, htext⟩
      . exact hc
      . exact absurd rfl (htext _)
    refine .blank ⟨rfl, hne, ?_, hempty, hnarrows, hpos⟩ (by simp) (.nothing ?_ .nil)
    . have hstop : start + (c - start) = c := by omega
      dsimp only
      rw [hstop]
      exact htiled
    . dsimp only
      omega

end

theorem chunks_go {cols : Int} (rest : List Cell) {c start : Int} {scan : Scan} {chunk : List Item}
    (h : Pending c start scan chunk) (hstart : 0 ≤ start) (hcols : 0 ≤ cols)
    (hnarrow : ∀ cell ∈ rest, Narrow cell)
    (hrest : c + rest.length = cols ∨ (rest = [] ∧ scan.AtEnd cols c))
    : Chunks cols (rowRuns.go cols rest c start scan) (chunk ++ rowItems c rest) := by
  cases rest with
  | nil =>
    unfold rowRuns.go rowItems
    apply h.finish hcols
    rcases hrest with hc | ⟨_, hend⟩
    . rw [List.length_nil] at hc
      exact Or.inl (by omega)
    . exact hend
  | cons cell rest =>
    have hc : c + (cell :: rest).length = cols := by simpa using hrest
    rw [List.length_cons] at hc
    have hrests : ∀ cell' ∈ rest, Narrow cell' :=
      fun cell' hmem => hnarrow cell' (List.mem_cons_of_mem cell hmem)
    have hlt : c < cols := by omega
    have ⟨runs, start', scan', chunk', hnext, hskips, hstart', hpending, hchunks⟩ :=
      Pending.next (hnarrow cell List.mem_cons_self) h hstart hlt
    unfold rowRuns.go rowItems
    rw [hnext]
    dsimp only
    apply hchunks
    rw [hskips]
    unfold Cell.width at hpending
    cases hwide : cell.isWide with
    | false =>
      simp only [hwide, Bool.false_eq_true, if_false] at hpending
      apply chunks_go rest hpending hstart' hcols hrests (Or.inl (by omega))
    | true =>
      simp only [hwide, if_true] at hpending
      cases rest with
      | nil =>
        have htext : ∀ last, scan' ≠ .blank last := by
          intro last heq
          rw [heq, hwide] at hskips
          cases hskips
        rw [List.length_nil] at hc
        have hend : scan'.AtEnd cols (c + 2) := Or.inr ⟨by omega, htext⟩
        apply chunks_go [] hpending hstart' hcols hrests (Or.inr ⟨rfl, hend⟩)
      | cons half rest =>
        rw [List.length_cons] at hc
        have hrests' : ∀ cell' ∈ rest, Narrow cell' :=
          fun cell' hmem => hrests cell' (List.mem_cons_of_mem half hmem)
        apply chunks_go rest hpending hstart' hcols hrests' (Or.inl (by omega))
termination_by rest.length

/--
The runs that are drawn for a row are its cells in their order, cut into runs of empty cells and runs
of cells with contents.
-/
theorem chunks_rowRuns {cells : List Cell} (hnarrow : ∀ cell ∈ cells, Narrow cell)
    : Chunks cells.length (rowRuns cells) (rowItems 0 cells) := by
  have hpending : Pending 0 0 (.text ([].map Item.cell)) [] :=
    .text rfl (fun _ => rfl) (Or.inl (by simp)) (by simp)
  apply chunks_go cells hpending (Int.le_refl 0) (by omega) hnarrow (Or.inl (by omega))

end Display
end Runes
