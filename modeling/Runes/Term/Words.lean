import Runes.Order.Segments
import Runes.Term.Selection

/-!
This module contains what is selected with two clicks: the word that is clicked on, which goes on from
the end of a row that is wrapped at the start of the next one.
-/

namespace Runes
namespace Term

open Relation Segments

/-- A place of the grid. Its last row is the last one of the window. -/
structure Grid.Place (g : Grid) extends Loc where
  row_nonneg : 0 ≤ row
  row_lt : row < g.max.row + g.rowTop
  col_nonneg : 0 ≤ col
  col_lt : col < g.max.col

variable {ρ : Type} {g : Grid} {vt : VT100 ρ} {scr : Screen ρ}

namespace Grid.Place

theorem row_lt_rowCount (hg : g.Ok) (p : g.Place) : p.row < g.rowCount := by
  have := hg.rowTop
  have := p.row_lt
  omega

theorem eq_of_row_col {p q : g.Place} (hrow : p.row = q.row) (hcol : p.col = q.col) : p = q := by
  have ⟨⟨row, col⟩, _, _, _, _⟩ := p
  have ⟨⟨row', col'⟩, _, _, _, _⟩ := q
  cases hrow
  cases hcol
  rfl

theorem exists_place (g : Grid) {row col : Int} (hrow : 0 ≤ row ∧ row < g.max.row + g.rowTop)
    (hcol : 0 ≤ col ∧ col < g.max.col)
    : ∃ p : g.Place, p.row = row ∧ p.col = col :=
  ⟨⟨⟨row, col⟩, hrow.left, hrow.right, hcol.left, hcol.right⟩, rfl, rfl⟩

-- In reading order.
instance : LinearOrder g.Place where
  le p q := AtOrBefore p.toLoc q.toLoc
  le_refl p := by
    unfold AtOrBefore
    omega
  le_trans p q r hpq hqr := by
    unfold AtOrBefore at *
    omega
  le_antisymm p q hpq hqp := by
    unfold AtOrBefore at *
    apply eq_of_row_col <;> omega
  le_total p q := by
    unfold AtOrBefore
    omega
  toDecidableLE p q := AtOrBefore.decidable p.toLoc q.toLoc

theorem le_iff {p q : g.Place} : p ≤ q ↔ AtOrBefore p.toLoc q.toLoc :=
  Iff.rfl

theorem lt_iff {p q : g.Place}
    : p < q ↔ p.row < q.row ∨ (p.row = q.row ∧ p.col < q.col) := by
  rw [lt_iff_not_ge, le_iff, not_atOrBefore_iff]

/-- `q` is read right after `p`. After the end of a row this is so only if the row is wrapped. -/
def Continues (p q : g.Place) : Prop :=
  (q.row = p.row ∧ q.col = p.col + 1)
    ∨ (q.row = p.row + 1 ∧ (g.rows p.row).wrapped = true ∧ p.col = g.max.col - 1 ∧ q.col = 0)

theorem Continues.covBy (p q : g.Place) (h : Continues p q) : p ⋖ q := by
  have hp := p.col_lt
  unfold Continues at h
  refine ⟨lt_iff.mpr (by omega), ?_⟩
  intro r hpr hrq
  have hr := r.col_nonneg
  have hr' := r.col_lt
  rw [lt_iff] at hpr hrq
  omega

theorem exists_left (p : g.Place) (hcol : 0 < p.col)
    : ∃ q : g.Place, Continues q p ∧ q.row = p.row ∧ q.col = p.col - 1 := by
  have hp := p.col_lt
  obtain ⟨q, hrow, hcol⟩ := exists_place g ⟨p.row_nonneg, p.row_lt⟩
    (show 0 ≤ p.col - 1 ∧ p.col - 1 < g.max.col by omega)
  exact ⟨q, Or.inl ⟨hrow.symm, by omega⟩, hrow, hcol⟩

theorem exists_right (p : g.Place) (hcol : p.col + 1 < g.max.col)
    : ∃ q : g.Place, Continues p q ∧ q.row = p.row ∧ q.col = p.col + 1 := by
  have hp := p.col_nonneg
  obtain ⟨q, hrow, hcol⟩ := exists_place g ⟨p.row_nonneg, p.row_lt⟩
    (show 0 ≤ p.col + 1 ∧ p.col + 1 < g.max.col by omega)
  exact ⟨q, Or.inl ⟨hrow, hcol⟩, hrow, hcol⟩

theorem exists_up (p : g.Place) (hcol : p.col = 0) (hrow : 0 < p.row)
    (hwrapped : (g.rows (p.row - 1)).wrapped = true)
    : ∃ q : g.Place, Continues q p ∧ q.row = p.row - 1 ∧ q.col = g.max.col - 1 := by
  have hp := p.row_lt
  have hp' := p.col_lt
  obtain ⟨q, hqrow, hqcol⟩ := exists_place g
    (show 0 ≤ p.row - 1 ∧ p.row - 1 < g.max.row + g.rowTop by omega)
    (show 0 ≤ g.max.col - 1 ∧ g.max.col - 1 < g.max.col by omega)
  exact ⟨q, Or.inr ⟨by omega, by rwa [hqrow], hqcol, hcol⟩, hqrow, hqcol⟩

theorem exists_down (p : g.Place) (hcol : p.col + 1 = g.max.col)
    (hrow : p.row + 1 < g.max.row + g.rowTop) (hwrapped : (g.rows p.row).wrapped = true)
    : ∃ q : g.Place, Continues p q ∧ q.row = p.row + 1 ∧ q.col = 0 := by
  have hp := p.row_nonneg
  have hp' := p.col_nonneg
  obtain ⟨q, hqrow, hqcol⟩ := exists_place g
    (show 0 ≤ p.row + 1 ∧ p.row + 1 < g.max.row + g.rowTop by omega)
    (show 0 ≤ (0 : Int) ∧ (0 : Int) < g.max.col by omega)
  exact ⟨q, Or.inr ⟨hqrow, hwrapped, by omega, hqcol⟩, hqrow, hqcol⟩

theorem not_continues_first {p : g.Place} (hcol : p.col = 0)
    (h : p.row = 0 ∨ (g.rows (p.row - 1)).wrapped = false) (q : g.Place)
    : ¬Continues q p := by
  have hq := q.row_nonneg
  have hq' := q.col_nonneg
  rintro (⟨_, hnext⟩ | ⟨hrow, hwrapped, _⟩)
  . omega
  . have hup : q.row = p.row - 1 := by omega
    rw [hup] at hwrapped
    rcases h with hzero | hfalse
    . omega
    . rw [hfalse] at hwrapped
      cases hwrapped

theorem not_continues_last {p : g.Place} (hcol : p.col + 1 = g.max.col)
    (h : p.row + 1 = g.max.row + g.rowTop ∨ (g.rows p.row).wrapped = false) (q : g.Place)
    : ¬Continues p q := by
  have hq := q.row_lt
  have hq' := q.col_lt
  rintro (⟨_, hnext⟩ | ⟨hrow, hwrapped, _⟩)
  . omega
  . rcases h with hbottom | hfalse
    . omega
    . rw [hfalse] at hwrapped
      cases hwrapped

-- Where the scan for the end of a word stops that comes to its end at `p`.
def after (p : g.Place) : Loc :=
  if p.col + 1 < g.max.col ∨ (g.rows p.row).wrapped = false then
    ⟨p.row, p.col + 1⟩
  else if p.row + 1 < g.max.row + g.rowTop then
    ⟨p.row + 1, 0⟩
  else
    ⟨p.row + 1, g.max.col⟩

theorem after_unwrapped {p : g.Place} (hwrapped : (g.rows p.row).wrapped = false)
    : p.after = ⟨p.row, p.col + 1⟩ :=
  if_pos (Or.inr hwrapped)

theorem after_bottom {p : g.Place} (hcol : p.col + 1 = g.max.col)
    (hrow : p.row + 1 = g.max.row + g.rowTop) (hwrapped : (g.rows p.row).wrapped = true)
    : p.after = ⟨p.row + 1, p.col + 1⟩ := by
  unfold after
  rw [hwrapped, if_neg (by simp only [Bool.true_eq_false, or_false]; omega), if_neg (by omega), hcol]

theorem Continues.after {p q : g.Place} (h : Continues p q) : p.after = q.toLoc := by
  have hq := q.col_lt
  have hq' := q.row_lt
  unfold Continues at h
  unfold Grid.Place.after
  rcases h with ⟨hrow, hcol⟩ | ⟨hrow, hwrapped, hlast, hcol⟩
  . rw [if_pos (by omega), ← hrow, ← hcol]
  . have hnot : ¬(p.col + 1 < g.max.col ∨ (g.rows p.row).wrapped = false) := by
      rw [hwrapped]
      simp only [Bool.true_eq_false, or_false]
      omega
    rw [if_neg hnot, if_pos (by omega), ← hrow, ← hcol]

/-- The places before the one where the scan stops are those up to the end of the word. -/
theorem atOrBefore_after_iff (p q : g.Place) : ¬AtOrBefore p.after q.toLoc ↔ q ≤ p := by
  have hp := p.col_lt
  have hq := q.col_lt
  have hq' := q.col_nonneg
  have hqrow := q.row_lt
  rw [not_atOrBefore_iff, le_iff]
  unfold AtOrBefore after
  split
  . dsimp only
    omega
  . split
    . dsimp only
      omega
    . dsimp only
      omega

end Grid.Place

open Grid.Place

/-- The places of the characters of words. -/
def words (vt : VT100 ρ) (scr : Screen ρ) : Set scr.grid.Place :=
  {p | windowIsWordChar vt scr (p.row - scr.grid.rowTop) p.col = true}

def Grid.onScreen (g : Grid) (loc : Loc) : Loc :=
  ⟨loc.row - g.rowTop, loc.col⟩

theorem mem_words_iff {p : scr.grid.Place} {row col : Int} (hrow : p.row = row + scr.grid.rowTop)
    (hcol : p.col = col)
    : p ∈ words vt scr ↔ windowIsWordChar vt scr row col = true := by
  have hscreen : p.row - scr.grid.rowTop = row := by omega
  unfold words
  rw [Set.mem_ofPred_eq, hscreen, hcol]

theorem onScreen_mk {r row : Int} (hrow : r = row + g.rowTop) (col : Int)
    : g.onScreen ⟨r, col⟩ = ⟨row, col⟩ := by
  unfold Grid.onScreen
  rw [hrow, Int.add_sub_cancel]

theorem onScreen_eq {p : scr.grid.Place} {row col : Int} (hrow : p.row = row + scr.grid.rowTop)
    (hcol : p.col = col)
    : scr.grid.onScreen p.toLoc = ⟨row, col⟩ := by
  unfold Grid.onScreen
  rw [hrow, hcol, Int.add_sub_cancel]

theorem windowBeginningOfWord_go_of_not_mem {p : scr.grid.Place} {row col : Int} (prev : Loc)
    (hrow : p.row = row + scr.grid.rowTop) (hcol : p.col = col) (hp : p ∉ words vt scr)
    : windowBeginningOfWord.go vt scr row col prev = prev := by
  rw [mem_words_iff hrow hcol] at hp
  rw [windowBeginningOfWord.go, if_neg hp]

theorem windowEndOfWord_go_of_not_mem {p : scr.grid.Place} {row col : Int}
    (hrow : p.row = row + scr.grid.rowTop) (hcol : p.col = col) (hp : p ∉ words vt scr)
    : windowEndOfWord.go vt scr row col = ⟨row, col⟩ := by
  rw [mem_words_iff hrow hcol] at hp
  rw [windowEndOfWord.go, if_neg hp]

theorem windowBeginningOfWord_go_of_mem (row col : Int) (prev : Loc) {p : scr.grid.Place}
    (hrow : p.row = row + scr.grid.rowTop) (hcol : p.col = col) (hp : p ∈ words vt scr)
    : ∃ b : scr.grid.Place, IsFirst Continues (words vt scr) b p
        ∧ windowBeginningOfWord.go vt scr row col prev = scr.grid.onScreen b.toLoc := by
  fun_induction windowBeginningOfWord.go vt scr row col prev generalizing p with
  | case1 row col prev hchar hfirst htop =>
    have := p.row_nonneg
    have := p.col_nonneg
    have hnot := not_continues_first (p := p) (by omega) (Or.inl (by omega))
    exact ⟨p, ⟨.refl, fun q _ => hnot q⟩, (onScreen_eq hrow hcol).symm⟩
  | case2 row col prev hchar hfirst htop hwrapped ih =>
    have := p.col_nonneg
    have hup : p.row - 1 = row - 1 + scr.grid.rowTop := by omega
    obtain ⟨q, hq, hqrow, hqcol⟩ := p.exists_up (by omega) (by omega) (by rwa [hup])
    rw [hup] at hqrow
    apply exists_isFirst Continues.covBy hq hp (f := fun b => scr.grid.onScreen b.toLoc)
    . intro hstop
      rw [windowBeginningOfWord_go_of_not_mem _ hqrow hqcol hstop, onScreen_eq hrow hcol]
    . apply ih hqrow hqcol
  | case3 row col prev hchar hfirst htop hwrapped =>
    have := p.col_nonneg
    have hup : p.row - 1 = row - 1 + scr.grid.rowTop := by omega
    have hfalse : (scr.grid.rows (p.row - 1)).wrapped = false := by
      rw [hup]
      exact Bool.eq_false_of_not_eq_true hwrapped
    have hnot := not_continues_first (p := p) (by omega) (Or.inr hfalse)
    exact ⟨p, ⟨.refl, fun q _ => hnot q⟩, (onScreen_eq hrow hcol).symm⟩
  | case4 row col prev hchar hfirst ih =>
    obtain ⟨q, hq, hqrow, hqcol⟩ := p.exists_left (by omega)
    rw [hrow] at hqrow
    rw [hcol] at hqcol
    apply exists_isFirst Continues.covBy hq hp (f := fun b => scr.grid.onScreen b.toLoc)
    . intro hstop
      rw [windowBeginningOfWord_go_of_not_mem _ hqrow hqcol hstop, onScreen_eq hrow hcol]
    . apply ih hqrow hqcol
  | case5 row col prev hchar => exact absurd ((mem_words_iff hrow hcol).mp hp) hchar

theorem windowEndOfWord_go_of_mem (row col : Int) {p : scr.grid.Place}
    (hrow : p.row = row + scr.grid.rowTop) (hcol : p.col = col) (hp : p ∈ words vt scr)
    : ∃ e : scr.grid.Place, IsLast Continues (words vt scr) p e
        ∧ windowEndOfWord.go vt scr row col = scr.grid.onScreen e.after := by
  have hmaxrow := p.row_lt
  have hmaxcol := p.col_lt
  fun_induction windowEndOfWord.go vt scr row col generalizing p with
  | case1 row col hchar hlast hwrapped hbottom =>
    rw [← hrow] at hwrapped
    have hnot := not_continues_last (p := p) (by omega) (Or.inl (by omega))
    refine ⟨p, ⟨.refl, fun q _ => hnot q⟩, ?_⟩
    have hrow : p.row + 1 = row + 1 + scr.grid.rowTop := by omega
    rw [after_bottom (by omega) (by omega) hwrapped, hcol]
    apply (onScreen_mk hrow _).symm
  | case2 row col hchar hlast hwrapped hbottom ih =>
    rw [← hrow] at hwrapped
    obtain ⟨q, hq, hqrow, hqcol⟩ := p.exists_down (by omega) (by omega) hwrapped
    have hqrow : q.row = row + 1 + scr.grid.rowTop := by omega
    apply exists_isLast Continues.covBy hq hp (f := fun e => scr.grid.onScreen e.after)
    . intro hstop
      rw [windowEndOfWord_go_of_not_mem hqrow hqcol hstop, hq.after, onScreen_eq hqrow hqcol]
    . intro hgo
      apply ih hqrow hqcol hgo q.row_lt q.col_lt
  | case3 row col hchar hlast hwrapped =>
    rw [← hrow] at hwrapped
    have hfalse := Bool.eq_false_of_not_eq_true hwrapped
    have hnot := not_continues_last (p := p) (by omega) (Or.inr hfalse)
    refine ⟨p, ⟨.refl, fun q _ => hnot q⟩, ?_⟩
    rw [after_unwrapped hfalse, hcol]
    apply (onScreen_mk hrow _).symm
  | case4 row col hchar hlast ih =>
    obtain ⟨q, hq, hqrow, hqcol⟩ := p.exists_right (by omega)
    rw [hrow] at hqrow
    rw [hcol] at hqcol
    apply exists_isLast Continues.covBy hq hp (f := fun e => scr.grid.onScreen e.after)
    . intro hstop
      rw [windowEndOfWord_go_of_not_mem hqrow hqcol hstop, hq.after, onScreen_eq hqrow hqcol]
    . intro hgo
      apply ih hqrow hqcol hgo q.row_lt q.col_lt
  | case5 row col hchar => exact absurd ((mem_words_iff hrow hcol).mp hp) hchar

theorem onScreen_add (g : Grid) (loc : Loc)
    : { g.onScreen loc with row := (g.onScreen loc).row + g.rowTop } = loc := by
  unfold Grid.onScreen
  rw [Int.sub_add_cancel]

section

variable {click : scr.grid.Place}

theorem row_sub_add (click : scr.grid.Place)
    : click.row = click.row - scr.grid.rowTop + scr.grid.rowTop := by
  omega

theorem windowBeginningOfWord_of_mem (hclick : click ∈ words vt scr)
    : ∃ b : scr.grid.Place, IsFirst Continues (words vt scr) b click
        ∧ windowBeginningOfWord vt scr click.toLoc = b.toLoc := by
  have ⟨b, hb, hgo⟩ := windowBeginningOfWord_go_of_mem (click.row - scr.grid.rowTop) click.col
    { click.toLoc with row := click.row - scr.grid.rowTop } (row_sub_add click) rfl hclick
  refine ⟨b, hb, ?_⟩
  unfold windowBeginningOfWord
  dsimp only
  rw [hgo]
  apply onScreen_add

theorem windowEndOfWord_of_mem (hclick : click ∈ words vt scr)
    : ∃ e : scr.grid.Place, IsLast Continues (words vt scr) click e
        ∧ windowEndOfWord vt scr click.toLoc = e.after := by
  have ⟨e, he, hgo⟩ := windowEndOfWord_go_of_mem (click.row - scr.grid.rowTop) click.col
    (row_sub_add click) rfl hclick
  refine ⟨e, he, ?_⟩
  unfold windowEndOfWord
  dsimp only
  rw [hgo]
  apply onScreen_add

theorem windowBeginningOfWord_of_not_mem (hclick : click ∉ words vt scr)
    : windowBeginningOfWord vt scr click.toLoc = click.toLoc := by
  unfold windowBeginningOfWord
  dsimp only
  rw [windowBeginningOfWord_go_of_not_mem _ (row_sub_add click) rfl hclick]
  apply onScreen_add

theorem windowEndOfWord_of_not_mem (hclick : click ∉ words vt scr)
    : windowEndOfWord vt scr click.toLoc = click.toLoc := by
  unfold windowEndOfWord
  dsimp only
  rw [windowEndOfWord_go_of_not_mem (row_sub_add click) rfl hclick]
  apply onScreen_add

end

/-- The places that are selected with two clicks: those up to the end of the word, without it. -/
def clickedRange (vt : VT100 ρ) (scr : Screen ρ) (click : scr.grid.Place) : Set scr.grid.Place :=
  {p | AtOrBefore (windowBeginningOfWord vt scr click.toLoc) p.toLoc
    ∧ ¬AtOrBefore (windowEndOfWord vt scr click.toLoc) p.toLoc}

theorem clickedRange_eq {click b e : scr.grid.Place}
    (hb : windowBeginningOfWord vt scr click.toLoc = b.toLoc)
    (he : windowEndOfWord vt scr click.toLoc = e.after)
    : clickedRange vt scr click = Set.Icc b e := by
  ext p
  unfold clickedRange
  rw [hb, he, Set.mem_ofPred_eq, atOrBefore_after_iff, ← le_iff, Set.mem_Icc]

/--
Two clicks on a character of a word select the largest part of the grid with the click that hangs
together and consists of characters of words, and so do two clicks anywhere else in it. Clicks on
something else select nothing.
-/
theorem clickedRange_isGreatest (vt : VT100 ρ) (scr : Screen ρ) (click : scr.grid.Place)
    : (click ∈ words vt scr →
          IsGreatest {S | click ∈ S ∧ IsSegment Continues (words vt scr) S}
            (clickedRange vt scr click)
          ∧ ∀ p ∈ clickedRange vt scr click,
            windowBeginningOfWord vt scr p.toLoc = windowBeginningOfWord vt scr click.toLoc
              ∧ windowEndOfWord vt scr p.toLoc = windowEndOfWord vt scr click.toLoc)
        ∧ (click ∉ words vt scr →
          windowBeginningOfWord vt scr click.toLoc = click.toLoc
            ∧ windowEndOfWord vt scr click.toLoc = click.toLoc) := by
  constructor
  . intro hclick
    have ⟨b, hb, hbegin⟩ := windowBeginningOfWord_of_mem hclick
    have ⟨e, he, hend⟩ := windowEndOfWord_of_mem hclick
    have hgreatest := isGreatest_icc Continues.covBy hb he hclick
    rw [clickedRange_eq hbegin hend]
    refine ⟨hgreatest, ?_⟩
    intro p hp
    have hword : p ∈ words vt scr := hgreatest.left.right.subset hp
    have ⟨b', hb', hbegin'⟩ := windowBeginningOfWord_of_mem hword
    have ⟨e', he', hend'⟩ := windowEndOfWord_of_mem hword
    have ⟨heqb, heqe⟩ := ends_eq Continues.covBy hb he hclick hb' he' hp
    rw [hbegin, hend, hbegin', hend', heqb, heqe]
    exact ⟨rfl, rfl⟩
  . intro hclick
    exact ⟨windowBeginningOfWord_of_not_mem hclick, windowEndOfWord_of_not_mem hclick⟩

namespace Plain

-- The first row is wrapped, with a word from its last column to the first one of the next row.
def wrappedWord : Screen Unit :=
  { screen 2 2 with
    grid :=
      { grid ⟨0, 0⟩ ⟨2, 2⟩ 2 with
        rows := fun row =>
          {
            cells := fun col => { cell with contents := if row = col then [0x20] else [0x61] }
            wrapped := row = 0
          } } }

def firstHalf : wrappedWord.grid.Place := ⟨⟨0, 1⟩, by decide, by decide, by decide, by decide⟩

def secondHalf : wrappedWord.grid.Place := ⟨⟨1, 0⟩, by decide, by decide, by decide, by decide⟩

end Plain

theorem clickedRange_isGreatest_wrappedWord
    : IsGreatest
          {S | Plain.firstHalf ∈ S ∧ IsSegment Continues (words Plain.vt100 Plain.wrappedWord) S}
          (clickedRange Plain.vt100 Plain.wrappedWord Plain.firstHalf)
        ∧ windowBeginningOfWord Plain.vt100 Plain.wrappedWord ⟨0, 1⟩ = ⟨0, 1⟩
        ∧ windowEndOfWord Plain.vt100 Plain.wrappedWord ⟨0, 1⟩ = ⟨1, 1⟩
        ∧ windowBeginningOfWord Plain.vt100 Plain.wrappedWord ⟨1, 0⟩ = ⟨0, 1⟩
        ∧ windowEndOfWord Plain.vt100 Plain.wrappedWord ⟨1, 0⟩ = ⟨1, 1⟩ := by
  have hbegin : windowBeginningOfWord Plain.vt100 Plain.wrappedWord ⟨0, 1⟩ = ⟨0, 1⟩ := by
    have hgo : windowBeginningOfWord.go Plain.vt100 Plain.wrappedWord 0 1 ⟨0, 1⟩ = ⟨0, 1⟩ := by
      rw [windowBeginningOfWord.go, if_pos (by decide), if_neg (by decide), windowBeginningOfWord.go,
        if_neg (by decide)]
    exact congrArg (fun prev => { prev with row := prev.row + 0 }) hgo
  have hend : windowEndOfWord Plain.vt100 Plain.wrappedWord ⟨0, 1⟩ = ⟨1, 1⟩ := by
    have hgo : windowEndOfWord.go Plain.vt100 Plain.wrappedWord 0 1 = ⟨1, 1⟩ := by
      rw [windowEndOfWord.go, if_pos (by decide), if_pos (by decide), if_pos (by decide),
        if_neg (by decide), windowEndOfWord.go, if_pos (by decide), if_neg (by decide),
        windowEndOfWord.go, if_neg (by decide)]
      decide
    exact congrArg (fun last => { last with row := last.row + 0 }) hgo
  obtain ⟨hgreatest, hsame⟩ :=
    (clickedRange_isGreatest Plain.vt100 Plain.wrappedWord Plain.firstHalf).left
      (show windowIsWordChar Plain.vt100 Plain.wrappedWord 0 1 = true by decide)
  have hsecond : Plain.secondHalf ∈ clickedRange Plain.vt100 Plain.wrappedWord Plain.firstHalf := by
    refine ⟨?_, ?_⟩
    . exact hbegin ▸ (by decide)
    . exact hend ▸ (by decide)
  obtain ⟨hbegin', hend'⟩ := hsame _ hsecond
  exact ⟨hgreatest, hbegin, hend, hbegin'.trans hbegin, hend'.trans hend⟩

end Term
end Runes
