import Runes.Term.SelectionGrid
import Runes.Term.Words

/-!
This module contains what the scans for the ends of a word read, and when the places that they stop at are
in the grid.
-/

namespace Runes
namespace Term

open Relation Segments
open Grid.Place

variable {ρ : Type} {vt : VT100 ρ} {scr : Screen ρ}

-- `grid->rows[row]`, if there is such a row.
def Grid.rowAt (g : Grid) (row : Int) : Option Row :=
  if 0 ≤ row ∧ row < g.rowCount then some (g.rows row) else none

-- `vt100_screen_cell_at`, if there is such a cell.
def checkedCellAt (vt : VT100 ρ) (scr : Screen ρ) (row col : Int) : Option Cell :=
  if 0 ≤ col ∧ col < scr.grid.max.col then
    (scr.grid.rowAt (row + scr.grid.rowTop)).map (fun _ => vt.cellAt scr row col)
  else
    none

def checkedPrev (scr : Screen ρ) (row col : Int) : Option Loc :=
  if col > 0 then
    some ⟨row, col - 1⟩
  else if row > 0 then
    (scr.grid.rowAt (row - 1 + scr.grid.rowTop)).map fun r =>
      if r.wrapped then ⟨row - 1, scr.grid.max.col - 1⟩ else ⟨row, col⟩
  else
    some ⟨row, col⟩

/--
`windowIsWordChar` and the scans that use it, with all that they read checked: there is nothing if they read
something that is not in the grid.
-/
def checkedIsWordChar (vt : VT100 ρ) (scr : Screen ρ) (row col : Int) : Option Bool := do
  let prev ← checkedPrev scr row col
  let prev ← checkedCellAt vt scr prev.row prev.col
  let c ← (if prev.isWide then some prev else checkedCellAt vt scr row col)
  some <|
    match c.contents with
    | [] => false
    | byte :: bytes =>
      if vt.utf8Skip byte < (byte :: bytes).length then
        true
      else
        let uc := vt.utf8GetChar (byte :: bytes)
        vt.charWidth uc ≠ 0 ∧ !vt.isspace uc

def checkedBeginningOfWord (vt : VT100 ρ) (scr : Screen ρ) (loc : Loc) : Option Loc := do
  let loc := { loc with row := loc.row - scr.grid.rowTop }
  let _ ← scr.grid.rowAt (loc.row + scr.grid.rowTop)
  let prev ← go loc.row loc.col loc
  some { prev with row := prev.row + scr.grid.rowTop }
where
  go (row col : Int) (prev : Loc) : Option Loc := do
    if ← checkedIsWordChar vt scr row col then
      if col - 1 < 0 then
        if row - 1 + scr.grid.rowTop < 0 then
          some ⟨row, col⟩
        else
          let r ← scr.grid.rowAt (row - 1 + scr.grid.rowTop)
          if r.wrapped then
            go (row - 1) (scr.grid.max.col - 1) ⟨row, col⟩
          else
            some ⟨row, col⟩
      else
        go row (col - 1) ⟨row, col⟩
    else
      some prev
  termination_by ((row + scr.grid.rowTop).toNat, col.toNat)
  decreasing_by
    . apply Prod.Lex.left
      omega
    . apply Prod.Lex.right
      omega

def checkedEndOfWord (vt : VT100 ρ) (scr : Screen ρ) (loc : Loc) : Option Loc := do
  let row := loc.row - scr.grid.rowTop
  let r ← scr.grid.rowAt (row + scr.grid.rowTop)
  let last ← go r row loc.col
  some { last with row := last.row + scr.grid.rowTop }
where
  go (r : Row) (row col : Int) : Option Loc := do
    if ← checkedIsWordChar vt scr row col then
      if col + 1 ≥ scr.grid.max.col then
        if r.wrapped then
          if row + 1 ≥ scr.grid.max.row then
            some ⟨row + 1, col + 1⟩
          else
            let r ← scr.grid.rowAt (row + 1 + scr.grid.rowTop)
            go r (row + 1) 0
        else
          some ⟨row, col + 1⟩
      else
        go r row (col + 1)
    else
      some ⟨row, col⟩
  termination_by ((scr.grid.max.row - row).toNat, (scr.grid.max.col - col).toNat)
  decreasing_by
    . apply Prod.Lex.left
      omega
    . apply Prod.Lex.right
      omega

section

variable {click : scr.grid.Place}

theorem rowAt_eq {g : Grid} {row : Int} (hnonneg : 0 ≤ row) (hlt : row < g.rowCount)
    : g.rowAt row = some (g.rows row) :=
  if_pos ⟨hnonneg, hlt⟩

theorem rowAt_place (hgrid : scr.grid.Ok) (p : scr.grid.Place)
    : scr.grid.rowAt p.row = some (scr.grid.rows p.row) :=
  rowAt_eq p.row_nonneg (p.row_lt_rowCount hgrid)

theorem checkedCellAt_eq (hgrid : scr.grid.Ok) {p : scr.grid.Place} {row col : Int}
    (hrow : p.row = row + scr.grid.rowTop) (hcol : p.col = col)
    : checkedCellAt vt scr row col = some (vt.cellAt scr row col) := by
  unfold checkedCellAt
  rw [← hcol, if_pos ⟨p.col_nonneg, p.col_lt⟩, ← hrow, rowAt_place hgrid, Option.map_some]

theorem checkedPrev_eq (hgrid : scr.grid.Ok) {p : scr.grid.Place} {row col : Int}
    (hrow : p.row = row + scr.grid.rowTop) (hcol : p.col = col)
    : ∃ q : scr.grid.Place, checkedPrev scr row col = some (scr.grid.onScreen q.toLoc)
        ∧ scr.grid.onScreen q.toLoc
          = if col > 0 then
              ⟨row, col - 1⟩
            else if row > 0 ∧ (scr.grid.rows (row - 1 + scr.grid.rowTop)).wrapped then
              ⟨row - 1, scr.grid.max.col - 1⟩
            else
              ⟨row, col⟩ := by
  unfold checkedPrev
  by_cases hfirst : col > 0
  . obtain ⟨q, _, hqrow, hqcol⟩ := p.exists_left (by omega)
    rw [hrow] at hqrow
    rw [hcol] at hqcol
    rw [if_pos hfirst, if_pos hfirst]
    exact ⟨q, by rw [onScreen_eq hqrow hqcol], onScreen_eq hqrow hqcol⟩
  . rw [if_neg hfirst, if_neg hfirst]
    by_cases htop : row > 0
    . have := hgrid.nonneg
      have := p.row_lt_rowCount hgrid
      have hrowAt := rowAt_eq (g := scr.grid) (show 0 ≤ row - 1 + scr.grid.rowTop by omega) (by omega)
      rw [if_pos htop, hrowAt, Option.map_some]
      by_cases hwrapped : (scr.grid.rows (row - 1 + scr.grid.rowTop)).wrapped = true
      . have := p.col_nonneg
        have hup : p.row - 1 = row - 1 + scr.grid.rowTop := by omega
        obtain ⟨q, _, hqrow, hqcol⟩ := p.exists_up (by omega) (by omega) (by rwa [hup])
        rw [hup] at hqrow
        rw [if_pos hwrapped, if_pos ⟨htop, hwrapped⟩]
        exact ⟨q, by rw [onScreen_eq hqrow hqcol], onScreen_eq hqrow hqcol⟩
      . rw [if_neg hwrapped, if_neg (fun h => hwrapped h.right)]
        exact ⟨p, by rw [onScreen_eq hrow hcol], onScreen_eq hrow hcol⟩
    . rw [if_neg htop, if_neg (fun h => htop h.left)]
      exact ⟨p, by rw [onScreen_eq hrow hcol], onScreen_eq hrow hcol⟩

theorem checkedIsWordChar_eq (hgrid : scr.grid.Ok) {p : scr.grid.Place} {row col : Int}
    (hrow : p.row = row + scr.grid.rowTop) (hcol : p.col = col)
    : checkedIsWordChar vt scr row col = some (windowIsWordChar vt scr row col) := by
  have ⟨q, hprev, heq⟩ := checkedPrev_eq hgrid hrow hcol
  have hread : checkedCellAt vt scr (scr.grid.onScreen q.toLoc).row (scr.grid.onScreen q.toLoc).col
      = some (vt.cellAt scr (scr.grid.onScreen q.toLoc).row (scr.grid.onScreen q.toLoc).col) :=
    checkedCellAt_eq hgrid (row_sub_add q) rfl
  unfold checkedIsWordChar windowIsWordChar
  rw [hprev, ← heq]
  simp only [Option.bind_eq_bind, Option.bind_some, hread, checkedCellAt_eq hgrid hrow hcol]
  split <;> rfl

theorem checkedBeginningOfWord_go_eq (hgrid : scr.grid.Ok) (row col : Int) (prev : Loc)
    {p : scr.grid.Place} (hrow : p.row = row + scr.grid.rowTop) (hcol : p.col = col)
    : checkedBeginningOfWord.go vt scr row col prev
        = some (windowBeginningOfWord.go vt scr row col prev) := by
  fun_induction windowBeginningOfWord.go vt scr row col prev generalizing p with
  | case1 row col prev hchar hfirst htop =>
    rw [checkedBeginningOfWord.go, checkedIsWordChar_eq hgrid hrow hcol, hchar]
    simp only [Option.bind_eq_bind, Option.bind_some, if_true, hfirst, htop]
  | case2 row col prev hchar hfirst htop hwrapped ih =>
    have := p.col_nonneg
    have hup : p.row - 1 = row - 1 + scr.grid.rowTop := by omega
    obtain ⟨q, _, hqrow, hqcol⟩ := p.exists_up (by omega) (by omega) (by rwa [hup])
    rw [hup] at hqrow
    have hrowAt := rowAt_place hgrid q
    rw [hqrow] at hrowAt
    rw [checkedBeginningOfWord.go, checkedIsWordChar_eq hgrid hrow hcol, hchar]
    simp only [Option.bind_eq_bind, Option.bind_some, if_true, if_false, hfirst, htop, hrowAt,
      hwrapped]
    apply ih hqrow hqcol
  | case3 row col prev hchar hfirst htop hwrapped =>
    have hrowAt : scr.grid.rowAt (row - 1 + scr.grid.rowTop)
        = some (scr.grid.rows (row - 1 + scr.grid.rowTop)) := by
      have := p.row_lt_rowCount hgrid
      apply rowAt_eq <;> omega
    rw [checkedBeginningOfWord.go, checkedIsWordChar_eq hgrid hrow hcol, hchar]
    simp only [Option.bind_eq_bind, Option.bind_some, if_true, if_false, hfirst, htop, hrowAt,
      hwrapped]
    rfl
  | case4 row col prev hchar hfirst ih =>
    obtain ⟨q, _, hqrow, hqcol⟩ := p.exists_left (by omega)
    rw [hrow] at hqrow
    rw [hcol] at hqcol
    rw [checkedBeginningOfWord.go, checkedIsWordChar_eq hgrid hrow hcol, hchar]
    simp only [Option.bind_eq_bind, Option.bind_some, if_true, if_false, hfirst]
    apply ih hqrow hqcol
  | case5 row col prev hchar =>
    rw [checkedBeginningOfWord.go, checkedIsWordChar_eq hgrid hrow hcol,
      Bool.eq_false_of_not_eq_true hchar]
    rfl

theorem checkedEndOfWord_go_eq (hgrid : scr.grid.Ok) (row col : Int) {p : scr.grid.Place}
    (hrow : p.row = row + scr.grid.rowTop) (hcol : p.col = col)
    : checkedEndOfWord.go vt scr (scr.grid.rows p.row) row col
        = some (windowEndOfWord.go vt scr row col) := by
  have hmaxcol := p.col_lt
  fun_induction windowEndOfWord.go vt scr row col generalizing p with
  | case1 row col hchar hlast hwrapped hbottom =>
    rw [checkedEndOfWord.go, checkedIsWordChar_eq hgrid hrow hcol, hchar, hrow]
    simp only [Option.bind_eq_bind, Option.bind_some, if_true, hlast, hwrapped, hbottom]
  | case2 row col hchar hlast hwrapped hbottom ih =>
    obtain ⟨q, _, hqrow, hqcol⟩ := p.exists_down (by omega) (by omega) (by rwa [hrow])
    have hqrow : q.row = row + 1 + scr.grid.rowTop := by omega
    have hrowAt := rowAt_place hgrid q
    have hgo := ih hqrow hqcol q.col_lt
    rw [hqrow] at hrowAt hgo
    rw [checkedEndOfWord.go, checkedIsWordChar_eq hgrid hrow hcol, hchar, hrow]
    simp only [Option.bind_eq_bind, Option.bind_some, if_true, if_false, hlast, hwrapped, hbottom,
      hrowAt]
    exact hgo
  | case3 row col hchar hlast hwrapped =>
    rw [checkedEndOfWord.go, checkedIsWordChar_eq hgrid hrow hcol, hchar, hrow]
    simp only [Option.bind_eq_bind, Option.bind_some, if_true, hlast, hwrapped]
    rfl
  | case4 row col hchar hlast ih =>
    obtain ⟨q, _, hqrow, hqcol⟩ := p.exists_right (by omega)
    have hgo := ih (by rwa [hrow] at hqrow) (by rwa [hcol] at hqcol) q.col_lt
    rw [hqrow] at hgo
    rw [checkedEndOfWord.go, checkedIsWordChar_eq hgrid hrow hcol, hchar]
    simp only [Option.bind_eq_bind, Option.bind_some, if_true, if_false, hlast]
    exact hgo
  | case5 row col hchar =>
    rw [checkedEndOfWord.go, checkedIsWordChar_eq hgrid hrow hcol,
      Bool.eq_false_of_not_eq_true hchar]
    rfl

theorem checkedBeginningOfWord_eq (hgrid : scr.grid.Ok) (vt : VT100 ρ) (click : scr.grid.Place)
    : checkedBeginningOfWord vt scr click.toLoc = some (windowBeginningOfWord vt scr click.toLoc) := by
  have hrow := row_sub_add click
  unfold checkedBeginningOfWord windowBeginningOfWord
  dsimp only
  rw [← hrow, rowAt_place hgrid, checkedBeginningOfWord_go_eq hgrid _ _ _ hrow rfl]
  rfl

theorem checkedEndOfWord_eq (hgrid : scr.grid.Ok) (vt : VT100 ρ) (click : scr.grid.Place)
    : checkedEndOfWord vt scr click.toLoc = some (windowEndOfWord vt scr click.toLoc) := by
  have hrow := row_sub_add click
  unfold checkedEndOfWord windowEndOfWord
  dsimp only
  rw [← hrow, rowAt_place hgrid, Option.bind_eq_bind, Option.bind_some,
    checkedEndOfWord_go_eq hgrid _ _ hrow rfl]
  rfl

/-- What it takes for a word to be stored as the selection. -/
structure WordInGrid (vt : VT100 ρ) (scr : Screen ρ) (click : scr.grid.Place) : Prop where
  beginning : checkedBeginningOfWord vt scr click.toLoc
    = some (windowBeginningOfWord vt scr click.toLoc)
  ending : checkedEndOfWord vt scr click.toLoc = some (windowEndOfWord vt scr click.toLoc)
  before : AtOrBefore (windowBeginningOfWord vt scr click.toLoc) click.toLoc
  after : AtOrBefore click.toLoc (windowEndOfWord vt scr click.toLoc)
  containsBeginning : scr.grid.Contains (windowBeginningOfWord vt scr click.toLoc)
  containsEnd : scr.grid.Contains (windowEndOfWord vt scr click.toLoc)

/-- From the click on there are only characters of words, in rows that are wrapped. -/
def RunsOff (vt : VT100 ρ) (scr : Screen ρ) (click : scr.grid.Place) : Prop :=
  ∀ p, click ≤ p → p ∈ words vt scr ∧ (scr.grid.rows p.row).wrapped = true

theorem contains_place (hgrid : scr.grid.Ok) (p : scr.grid.Place) : scr.grid.Contains p.toLoc :=
  ⟨p.row_nonneg, p.row_lt_rowCount hgrid, p.col_nonneg, Int.le_of_lt p.col_lt⟩

theorem atOrBefore_after (p : scr.grid.Place) : AtOrBefore p.toLoc p.after := by
  have hp := p.col_lt
  unfold AtOrBefore Grid.Place.after
  split
  . dsimp only
    omega
  . split
    . dsimp only
      omega
    . dsimp only
      omega

theorem wrapped_of_linked {p e : scr.grid.Place} (h : ReflTransGen (Links Continues (words vt scr)) p e)
    (hrow : p.row < e.row)
    : (scr.grid.rows p.row).wrapped = true := by
  induction h using ReflTransGen.head_induction_on with
  | refl => omega
  | head hlink _ ih =>
    rcases hlink.left with ⟨hsame, _⟩ | ⟨_, hwrapped, _⟩
    . rw [hsame] at ih
      apply ih hrow
    . exact hwrapped

/-- The word has come to its end at the last place of a last row that is wrapped. -/
def EndsAtBottom (g : Grid) (e : g.Place) : Prop :=
  e.col + 1 = g.max.col ∧ e.row + 1 = g.rowCount ∧ (g.rows e.row).wrapped = true

-- The scan stops after the last row only at the end of a last row that is wrapped.
theorem contains_after_iff (hgrid : scr.grid.Ok) (p : scr.grid.Place)
    : scr.grid.Contains p.after ↔ ¬EndsAtBottom scr.grid p := by
  have htop := hgrid.rowTop
  have hrow := p.row_nonneg
  have hrow' := p.row_lt
  have hcol := p.col_nonneg
  have hcol' := p.col_lt
  unfold Grid.Place.after Grid.Contains EndsAtBottom
  split
  . next h =>
    dsimp only
    rcases h with hlt | hwrapped
    . omega
    . rw [hwrapped]
      simp only [Bool.false_eq_true, and_false, not_false_eq_true, iff_true]
      omega
  . next h =>
    rw [not_or, Bool.not_eq_false] at h
    simp only [h.right, and_true]
    split
    . dsimp only
      omega
    . dsimp only
      omega

theorem endsAtBottom_of_runsOff (hgrid : scr.grid.Ok) {e : scr.grid.Place}
    (he : IsLast Continues (words vt scr) click e) (h : RunsOff vt scr click)
    : EndsAtBottom scr.grid e := by
  have htop := hgrid.rowTop
  have hrow := e.row_lt
  have hcol := e.col_lt
  have hle := le_of_linked Continues.covBy he.linked
  have hwrapped := (h e hle).right
  -- A place that is read after the end of the word would be a part of it.
  have hend : ∀ q, ¬Continues e q := by
    intro q hq
    have hmem := (h q (hle.trans (Continues.covBy e q hq).le)).left
    exact he.last q hmem hq
  have hlast : e.col + 1 = scr.grid.max.col := by
    by_contra hne
    have ⟨q, hq, _⟩ := e.exists_right (by omega)
    exact hend q hq
  refine ⟨hlast, ?_, hwrapped⟩
  by_contra hne
  have ⟨q, hq, _⟩ := e.exists_down hlast (by omega) hwrapped
  exact hend q hq

theorem runsOff_of_endsAtBottom (hgrid : scr.grid.Ok) {e : scr.grid.Place}
    (he : IsLast Continues (words vt scr) click e) (hclick : click ∈ words vt scr)
    (h : EndsAtBottom scr.grid e)
    : RunsOff vt scr click := by
  have ⟨hlast, hbottom, hwrapped⟩ := h
  intro p hp
  have hrow := p.row_lt_rowCount hgrid
  have hcol := p.col_lt
  have hpe : p ≤ e := by
    rw [le_iff]
    unfold AtOrBefore
    omega
  have ⟨_, hclickp, hpend⟩ := linked_between Continues.covBy he.linked hp hpe
  refine ⟨mem_right_of_linked hclickp hclick, ?_⟩
  by_cases hsame : p.row = e.row
  . rw [hsame, hwrapped]
  . apply wrapped_of_linked hpend
    omega

theorem runsOff_iff (hgrid : scr.grid.Ok) {e : scr.grid.Place}
    (he : IsLast Continues (words vt scr) click e) (hclick : click ∈ words vt scr)
    : RunsOff vt scr click ↔ EndsAtBottom scr.grid e :=
  ⟨endsAtBottom_of_runsOff hgrid he, runsOff_of_endsAtBottom hgrid he hclick⟩

/--
The scans for the ends of a word stop, only read what is in the grid, and find a beginning and an end around
the click that are in the grid, unless the word runs off the end of the grid.
-/
theorem wordInGrid_iff (hgrid : scr.grid.Ok) (vt : VT100 ρ) (click : scr.grid.Place)
    : WordInGrid vt scr click ↔ ¬RunsOff vt scr click := by
  have hbeginning := checkedBeginningOfWord_eq hgrid vt click
  have hending := checkedEndOfWord_eq hgrid vt click
  by_cases hclick : click ∈ words vt scr
  . have ⟨b, hb, hbegin⟩ := windowBeginningOfWord_of_mem hclick
    have ⟨e, he, hend⟩ := windowEndOfWord_of_mem hclick
    rw [runsOff_iff hgrid he hclick, ← contains_after_iff hgrid]
    constructor
    . intro h
      rw [← hend]
      exact h.containsEnd
    . intro h
      refine ⟨hbeginning, hending, ?_, ?_, ?_, ?_⟩
      . rw [hbegin]
        exact le_of_linked Continues.covBy hb.linked
      . rw [hend]
        have hle : AtOrBefore click.toLoc e.toLoc := le_of_linked Continues.covBy he.linked
        have hafter := atOrBefore_after e
        unfold AtOrBefore at *
        omega
      . rw [hbegin]
        exact contains_place hgrid b
      . rwa [hend]
  . have hbegin := windowBeginningOfWord_of_not_mem hclick
    have hend := windowEndOfWord_of_not_mem hclick
    have hin := contains_place hgrid click
    have hself : AtOrBefore click.toLoc click.toLoc := le_refl click
    constructor
    . intro _ h
      exact hclick (h click (le_refl click)).left
    . intro _
      refine ⟨hbeginning, hending, ?_, ?_, ?_, ?_⟩
      . rwa [hbegin]
      . rwa [hend]
      . rwa [hbegin]
      . rwa [hend]

end

namespace Plain

-- Two rows full of one letter. The first one is wrapped.
def letters (lastWrapped : Bool) : Screen Unit :=
  { screen 2 2 with
    grid :=
      { grid ⟨0, 0⟩ ⟨2, 2⟩ 2 with
        rows := fun row =>
          {
            cells := fun _ => { cell with contents := [0x61] }
            wrapped := row = 0 ∨ lastWrapped
          } } }

theorem letters_ok (lastWrapped : Bool) : (letters lastWrapped).grid.Ok :=
  ⟨(grid_ok ⟨0, 0⟩ ⟨2, 2⟩ 2).rowTop, (grid_ok ⟨0, 0⟩ ⟨2, 2⟩ 2).nonneg⟩

def lettersPlace (lastWrapped : Bool) (row col : Fin 2) : (letters lastWrapped).grid.Place :=
  {
    row := row.val
    col := col.val
    row_nonneg := by omega
    row_lt := by
      have : (letters lastWrapped).grid.max.row + (letters lastWrapped).grid.rowTop = 2 := rfl
      omega
    col_nonneg := by omega
    col_lt := by
      have : (letters lastWrapped).grid.max.col = 2 := rfl
      omega
  }

end Plain

theorem wordInGrid_letters
    : WordInGrid Plain.vt100 (Plain.letters false) (Plain.lettersPlace false 0 0) := by
  apply (wordInGrid_iff (Plain.letters_ok false) Plain.vt100 _).mpr
  intro h
  have hlast := (h (Plain.lettersPlace false 1 1) (by decide)).right
  exact absurd hlast (by decide)

-- The last row is wrapped as well, and the word ends after it.
theorem not_wordInGrid_wrapped
    : (Plain.letters true).grid.Ok
        ∧ windowEndOfWord Plain.vt100 (Plain.letters true) ⟨1, 1⟩ = ⟨2, 2⟩
        ∧ ¬WordInGrid Plain.vt100 (Plain.letters true) (Plain.lettersPlace true 1 1) := by
  have hend : windowEndOfWord Plain.vt100 (Plain.letters true) ⟨1, 1⟩ = ⟨2, 2⟩ := by
    have hgo : windowEndOfWord.go Plain.vt100 (Plain.letters true) 1 1 = ⟨2, 2⟩ := by
      rw [windowEndOfWord.go, if_pos (by decide), if_pos (by decide), if_pos (by decide),
        if_pos (by decide)]
      decide
    exact congrArg (fun last => { last with row := last.row + 0 }) hgo
  refine ⟨Plain.letters_ok true, hend, ?_⟩
  intro h
  have hin : (Plain.letters true).grid.Contains ⟨2, 2⟩ := hend ▸ h.containsEnd
  exact absurd hin (by decide)

end Term
end Runes
