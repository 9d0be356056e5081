import Runes.Display.Batch

/-!
This module contains how many cells are drawn in one go: not more than a row has columns, whatever is
in the row.
-/

namespace Runes
namespace Display

-- The indices of `glyph_buf` that `runes_display_draw_glyphs_fast` writes. It returns at a cell with
-- more than one byte.
def fastWrites (cells : List Cell) : List Nat :=
  List.range (cells.takeWhile (fun cell => cell.contents.length ≤ 1)).length

def Drawn.glyphWrites (config : Config) (d : Drawn) : List Nat :=
  match d with
  | .rectangle _ _ _ _ _ => []
  | .glyphs _ cells _ _ => if isFast config cells then fastWrites cells else []

/-- Cells that are collected lie between the columns where the run starts and where the loop is. -/
def Scan.Inside (cols c start : Int) (scan : Scan) : Prop :=
  match scan with
  | .text cells => 0 ≤ start ∧ start + cells.length ≤ min c cols
  | .blank _ => c ≤ cols

-- A run that is not drawn may have a cell without a column.
def Run.Fits (cols : Int) (run : Run) : Prop := run.width = 0 ∨ (run.cells.length : Int) ≤ cols

section

variable {cols c start : Int} {cell : Cell} {scan : Scan}

-- The column that follows a cell.
def nextColumn (c : Int) (skips : Bool) : Int := if skips then c + 2 else c + 1

theorem lt_nextColumn (c : Int) (skips : Bool) : c < nextColumn c skips := by
  unfold nextColumn
  split <;> omega

theorem inside_text {cells : List Cell} (hstart : 0 ≤ start) (hlength : start + cells.length ≤ c + 1)
    (hlt : c < cols) (skips : Bool)
    : (Scan.text cells).Inside cols (nextColumn c skips) start := by
  have hnext := lt_nextColumn c skips
  exact ⟨hstart, by omega⟩

theorem Scan.Inside.next (h : scan.Inside cols c start) (cell : Cell) (hc : 0 ≤ c) (hlt : c < cols)
    : (∀ run ∈ (scan.next start c cell).fst, run.Fits cols)
        ∧ (scan.next start c cell).2.2.Inside cols
          (nextColumn c ((scan.next start c cell).2.2.skips cell)) (scan.next start c cell).2.1 := by
  have hsingle (skips : Bool) : (Scan.text [cell]).Inside cols (nextColumn c skips) c :=
    inside_text hc (by simp) hlt skips
  have hblank : (Scan.blank cell).Inside cols (nextColumn c false) c := hlt
  unfold Scan.next
  cases scan with
  | text cells =>
    have ⟨hstart, hlength⟩ := h
    have hfits : ∀ run ∈ [(⟨start, c - start, cells⟩ : Run)], run.Fits cols := by
      simp [Run.Fits]
      omega
    dsimp only
    split
    . refine ⟨by simp, inside_text hstart ?_ hlt _⟩
      rw [List.length_append, List.length_singleton]
      omega
    . split
      . exact ⟨hfits, hblank⟩
      . exact ⟨hfits, hsingle _⟩
  | blank last =>
    have hfits : ∀ run ∈ [(⟨start, c - start, []⟩ : Run)], run.Fits cols := by
      simp [Run.Fits]
      omega
    dsimp only
    split
    . exact ⟨by simp, hblank⟩
    . exact ⟨hfits, hsingle _⟩

theorem Scan.Inside.finish (h : scan.Inside cols c start) (hcols : 0 ≤ cols) (hc : cols ≤ c)
    : ∀ run ∈ scan.finish cols start c, run.Fits cols := by
  unfold Scan.finish
  cases scan with
  | text cells =>
    have ⟨hstart, hlength⟩ := h
    simp [Run.Fits]
    omega
  | blank last =>
    have hle : c ≤ cols := h
    simp [Run.Fits]
    omega

end

theorem fits_go {cols : Int} (rest : List Cell) {c start : Int} {scan : Scan}
    (h : scan.Inside cols c start) (hc : 0 ≤ c) (hcols : 0 ≤ cols)
    (hrest : c + rest.length = cols ∨ (rest = [] ∧ cols ≤ c))
    : ∀ run ∈ rowRuns.go cols rest c start scan, run.Fits cols := by
  cases rest with
  | nil =>
    unfold rowRuns.go
    apply h.finish hcols
    rcases hrest with hc | ⟨_, hle⟩
    . rw [List.length_nil] at hc
      omega
    . exact hle
  | cons cell rest =>
    have hcell : c + (cell :: rest).length = cols := by simpa using hrest
    rw [List.length_cons] at hcell
    obtain ⟨hruns, hinside⟩ := h.next cell hc (by omega)
    unfold rowRuns.go
    dsimp only
    rw [List.forall_mem_append]
    refine ⟨hruns, ?_⟩
    cases hskips : (scan.next start c cell).2.2.skips cell with
    | false =>
      rw [hskips] at hinside
      change Scan.Inside cols (c + 1) _ _ at hinside
      apply fits_go rest hinside (by omega) hcols (Or.inl (by omega))
    | true =>
      rw [hskips] at hinside
      change Scan.Inside cols (c + 2) _ _ at hinside
      cases rest with
      | nil =>
        rw [List.length_nil] at hcell
        apply fits_go [] hinside (by omega) hcols (Or.inr ⟨rfl, by omega⟩)
      | cons half rest =>
        rw [List.length_cons] at hcell
        apply fits_go rest hinside (by omega) hcols (Or.inl (by omega))
termination_by rest.length

/-- A run that is drawn has not more cells than its row has columns. -/
theorem fits_rowRuns (cells : List Cell) : ∀ run ∈ rowRuns cells, run.Fits cells.length := by
  have hinside : (Scan.text []).Inside cells.length 0 0 :=
    ⟨Int.le_refl 0, by rw [List.length_nil]; omega⟩
  exact fits_go cells hinside (Int.le_refl 0) (by omega) (Or.inl (by omega))

/-- What is drawn between two states of the context satisfies `P`. -/
def Emits (P : Drawn → Prop) (cr cr' : Cairo Drawn) : Prop :=
  ∃ events, cr'.drawn = cr.drawn ++ events ∧ ∀ d ∈ events, P d

namespace Emits

variable {P Q : Drawn → Prop} {cr cr' cr'' : Cairo Drawn}

theorem refl (cr : Cairo Drawn) : Emits P cr cr := ⟨[], by simp, by simp⟩

theorem trans (h : Emits P cr cr') (h' : Emits P cr' cr'') : Emits P cr cr'' := by
  have ⟨events, hdrawn, hevents⟩ := h
  have ⟨events', hdrawn', hevents'⟩ := h'
  refine ⟨events ++ events', by rw [hdrawn', hdrawn, List.append_assoc], ?_⟩
  rw [List.forall_mem_append]
  exact ⟨hevents, hevents'⟩

theorem mono (h : Emits P cr cr') (hPQ : ∀ d, P d → Q d) : Emits Q cr cr' := by
  have ⟨events, hdrawn, hevents⟩ := h
  exact ⟨events, hdrawn, fun d hd => hPQ d (hevents d hd)⟩

theorem foldl {β : Type} {f : Cairo Drawn → β → Cairo Drawn} {xs : List β}
    (h : ∀ cr, ∀ x ∈ xs, Emits P cr (f cr x)) (cr : Cairo Drawn)
    : Emits P cr (xs.foldl f cr) := by
  induction xs generalizing cr with
  | nil => exact refl cr
  | cons x xs ih =>
    rw [List.foldl_cons]
    have hx := h cr x List.mem_cons_self
    exact hx.trans (ih (fun cr y hy => h cr y (List.mem_cons_of_mem x hy)) (f cr x))

end Emits

-- At most so many glyphs are shown at once.
def Drawn.Within (n : Nat) (d : Drawn) : Prop :=
  match d with
  | .rectangle _ _ _ _ _ => True
  | .glyphs _ cells _ _ => cells.length ≤ n

theorem Drawn.Within.mono {m n : Nat} {d : Drawn} (h : d.Within m) (hle : m ≤ n) : d.Within n := by
  cases d with
  | rectangle pattern row col width height => trivial
  | glyphs pattern cells row col => exact Nat.le_trans h hle

section

variable (config : Config) (v : View) (row col : Int)

theorem eachGlyph_within (pattern : Pattern) (cells : List Cell)
    : ∀ d ∈ eachGlyph pattern cells row col, d.Within 1 := by
  induction cells generalizing col with
  | nil => simp [eachGlyph]
  | cons cell cells ih =>
    unfold eachGlyph
    rw [List.forall_mem_cons]
    exact ⟨Nat.le_refl 1, ih (col + cell.width)⟩

theorem glyphEvents_within (pattern : Pattern) (first : Cell) (cells : List Cell)
    : ∀ d ∈ glyphEvents config v row col pattern (first :: cells),
        d.Within (first :: cells).length := by
  unfold glyphEvents
  split
  . intro d hd
    exact (eachGlyph_within row col pattern (first :: cells) d hd).mono (by simp)
  . rw [List.forall_mem_singleton]
    exact Nat.le_refl _

theorem drawRun_within (cr : Cairo Drawn) (width : Int) (cells : List Cell)
    : Emits (Drawn.Within cells.length) cr (drawRun config v cr row col width cells) := by
  cases cells with
  | nil =>
    refine ⟨_, congrArg Cairo.drawn (drawRun_nil config v cr row col width), ?_⟩
    rw [List.forall_mem_singleton]
    trivial
  | cons first cells =>
    refine ⟨_, drawRun_cons_drawn config v cr row col width first cells, ?_⟩
    rw [List.forall_mem_cons]
    exact ⟨trivial, glyphEvents_within config v row col _ first cells⟩

theorem drawEach_within (cr : Cairo Drawn) (cells : List Cell)
    : Emits (Drawn.Within 1) cr (drawEach config v cr row col cells) := by
  induction cells generalizing cr col with
  | nil => exact .refl cr
  | cons cell cells ih =>
    unfold drawEach
    exact (drawRun_within config v row col cr cell.width [cell]).trans (ih (col + cell.width) _)

theorem drawString_within (cr : Cairo Drawn) (width : Int) (cells : List Cell)
    : Emits (Drawn.Within cells.length) cr (drawString config v cr row col width cells) := by
  unfold drawString
  split
  . exact .refl cr
  . split
    . next hsplit =>
      have hlength : 1 ≤ cells.length := by
        simp only [isSplit, Bool.and_eq_true, decide_eq_true_eq] at hsplit
        omega
      exact (drawEach_within config v row col cr cells).mono (fun d hd => hd.mono hlength)
    . exact drawRun_within config v row col cr width cells

/-- What is drawn of a row shows not more glyphs at once than the row has columns. -/
theorem drawRow_within (cr : Cairo Drawn) (cells : List Cell)
    : Emits (Drawn.Within cells.length) cr (drawRow config v cr row cells) := by
  apply Emits.foldl
  intro cr run hrun
  rcases fits_rowRuns cells run hrun with hwidth | hlength
  . have hnothing : drawString config v cr row run.col run.width run.cells = cr := if_pos hwidth
    rw [hnothing]
    exact .refl cr
  . have hstring := drawString_within config v row run.col cr run.width run.cells
    exact hstring.mono (fun d hd => hd.mono (by omega))

end

theorem glyphWrites_lt {n : Nat} {d : Drawn} (h : d.Within n) (config : Config)
    : ∀ i ∈ d.glyphWrites config, i < n := by
  intro i hi
  cases d with
  | rectangle pattern row col width height => cases hi
  | glyphs pattern cells row col =>
    have hlength : cells.length ≤ n := h
    dsimp only [Drawn.glyphWrites, fastWrites] at hi
    split at hi
    . have hsub := (List.takeWhile_sublist (fun cell : Cell => decide (cell.contents.length ≤ 1))
        (l := cells)).length_le
      rw [List.mem_range] at hi
      omega
    . cases hi

end Display
end Runes
