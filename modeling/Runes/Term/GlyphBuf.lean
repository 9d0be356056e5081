import Runes.Display.GlyphBuf
import Runes.Term.Resize

/-!
This module contains that the buffer for glyphs is large enough. It gets a new size where the window
does, and the rows are drawn in other places, with the grid of libvt100.
-/

namespace Runes
namespace Term

variable {ρ : Type} {env : Env ρ} {s s' : World ρ}

-- The cells that `runes_display_draw_screen` reads of a row.
def rowCells (row : Row) (cols : Int) : List Cell :=
  (List.range cols.toNat).map (fun (c : Nat) => row.cells c)

-- The loop of `runes_display_draw_screen` over the rows.
def drawScreenRows (config : Display.Config) (v : Display.View) (grid : Grid)
    (cr : Display.Cairo Display.Drawn)
    : Display.Cairo Display.Drawn :=
  (List.range grid.max.row.toNat).foldl
    (fun cr (r : Nat) =>
      let row := grid.rows (r + grid.rowTop - v.rowVisibleOffset)
      Display.drawRow config v cr r (rowCells row grid.max.col))
    cr

/--
Whatever is in the rows, selected or scrolled to, only glyphs are written that the buffer has room for.
-/
def Extent.FitsGlyphBuf (x : Extent) : Prop :=
  ∀ config v rows cr,
    Display.Emits (fun d => ∀ i ∈ d.glyphWrites config, (i : Int) < x.glyphBuf) cr
      (drawScreenRows config v { x.grid with rows } cr)

def Extent.AllocatesColumns (x : Extent) : Prop := x.glyphBuf = x.grid.max.col

/--
What is assumed of libvt100: a screen has as many columns as it was given last.
-/
structure VT100.KeepsColumns (vt : VT100 ρ) : Prop where
  setWindowSize : ∀ scr row col, (vt.setWindowSize scr row col).grid.max.col = col
  processString : ∀ scr buf, (vt.processString scr buf).fst.grid.max.col = scr.grid.max.col

theorem Extent.AllocatesColumns.fitsGlyphBuf {x : Extent} (h : x.AllocatesColumns)
    : x.FitsGlyphBuf := by
  intro config v rows cr
  apply Display.Emits.foldl
  intro cr r _
  have hrow := Display.drawRow_within config v r cr
    (rowCells (rows (r + x.grid.rowTop - v.rowVisibleOffset)) x.grid.max.col)
  have hlength : (rowCells (rows (r + x.grid.rowTop - v.rowVisibleOffset)) x.grid.max.col).length
      = x.grid.max.col.toNat := by
    simp [rowCells]
  rw [hlength] at hrow
  apply hrow.mono
  intro d hd i hi
  have hlt := Display.glyphWrites_lt hd config i hi
  rw [h]
  omega

theorem allocatesColumns_resized (hlib : env.vt100.KeepsColumns)
    (hs : (extent s).AllocatesColumns) (input : Input)
    : (extent (resized env s input)).AllocatesColumns := by
  unfold resized
  split
  . next e later =>
    split
    . unfold windowResizeWindow
      extract_lets width height s₁ s₂
      split
      . rw [(displayMaybeClearSelection_extent env s₂).left]
        exact (hlib.setWindowSize _ _ _).symm
      . exact hs
    . exact hs
  . exact hs.trans (hlib.processString _ _).symm
  . exact hs

theorem Reachable.allocatesColumns (hlib : env.vt100.KeepsColumns) {start : Start}
    (h : (machine env start).Reachable s)
    : (extent s).AllocatesColumns := by
  apply h.invariant (P := fun s => (extent s).AllocatesColumns)
  . exact (hlib.setWindowSize _ _ _).symm
  . intro s input s' hs _ hstep
    rw [(handles_of_stepped (stepped hstep)).extent]
    exact allocatesColumns_resized hlib hs input

/--
In every state of every run, and in every state in between in which the window is flushed, the buffer
has room for all the glyphs that are written when the screen is drawn.
-/
theorem glyphBuf_fits {env : Env ρ} (hlib : env.vt100.KeepsColumns) {start : Start} {s : World ρ}
    (h : (machine env start).Reachable s)
    : (extent s).FitsGlyphBuf
        ∧ ∀ input s', step env s input = some s' →
          ∃ states, Flushed env Still states (resized env s input) s'
            ∧ ∀ t ∈ states, (extent t).FitsGlyphBuf := by
  have hs := Reachable.allocatesColumns hlib h
  refine ⟨hs.fitsGlyphBuf, ?_⟩
  intro input s' hstep
  have ⟨states, hstates⟩ := handles_of_stepped (stepped hstep)
  refine ⟨states, hstates, ?_⟩
  intro t ht
  apply Extent.AllocatesColumns.fitsGlyphBuf
  rw [hstates.extent.right t ht]
  exact allocatesColumns_resized hlib hs input

namespace Plain

theorem vt100_keepsColumns : vt100.KeepsColumns where
  setWindowSize _ _ _ := rfl
  processString scr buf := congrArg (·.col) (process_max scr.grid buf)

end Plain

theorem glyphBuf_fits_wider
    : ∃ s, (machine Plain.env Plain.start).run (machine Plain.env Plain.start).init
          (Plain.resizeTo 44 16) = some s
        ∧ s.term.display.glyphBuf = 40
        ∧ (extent s).FitsGlyphBuf := by
  let M := machine Plain.env Plain.start
  have ⟨s, hrun, hbuf⟩ : ∃ s, M.run M.init (Plain.resizeTo 44 16) = some s
      ∧ s.term.display.glyphBuf = 40 :=
    Exec.Machine.exists_run (by decide +kernel)
  have hreach := Exec.Machine.Reaches.init.run (Exec.Machine.runOk_true _ _) hrun
  exact ⟨s, hrun, hbuf, (glyphBuf_fits Plain.vt100_keepsColumns hreach).left⟩

end Term
end Runes
