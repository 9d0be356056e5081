import Runes.Term.Flush
import Runes.Term.Selection
import Runes.Term.Stepped

/-!
This module contains that the text that is kept of a selection is the one that is selected. A selection
that was made backwards is not compared with its text in the right order.
-/

namespace Runes
namespace Term

variable {ρ : Type}

/--
What is assumed of libvt100: the text between two places is one of the grid, and output that changes it
marks the screen.
-/
structure VT100.MarksText (vt : VT100 ρ) : Prop where
  congr : ∀ scr scr' : Screen ρ, scr'.grid = scr.grid →
    vt.getStringPlaintext scr' = vt.getStringPlaintext scr
  processString : ∀ scr buf, (vt.processString scr buf).fst.dirty = false →
    scr.dirty = false
      ∧ vt.getStringPlaintext (vt.processString scr buf).fst = vt.getStringPlaintext scr

-- The text between the ends of the selection.
def selectedText (env : Env ρ) (t : RunesTerm ρ) : List UInt8 :=
  (env.vt100.getStringPlaintext t.scr t.display.selectionStart t.display.selectionEnd).getD []

/-- What has been kept of the selection is its text. -/
def Copied (env : Env ρ) (t : RunesTerm ρ) : Prop :=
  t.display.hasSelection = true → AtOrBefore t.display.selectionStart t.display.selectionEnd →
    t.display.selectionContents.getD [] = selectedText env t

-- It is compared again before the screen is drawn.
def UpToDate (env : Env ρ) (s : World ρ) : Prop := s.term.scr.dirty = false → Copied env s.term

-- The selection is the same, and so is what its text depends on.
structure KeepsText (t t' : RunesTerm ρ) : Prop where
  hasSelection : t'.display.hasSelection = t.display.hasSelection
  selectionStart : t'.display.selectionStart = t.display.selectionStart
  selectionEnd : t'.display.selectionEnd = t.display.selectionEnd
  contents : t'.display.selectionContents = t.display.selectionContents
  grid : t'.scr.grid = t.scr.grid

section

variable {env : Env ρ} {t t' t'' : RunesTerm ρ}

theorem KeepsText.trans (h : KeepsText t t') (h' : KeepsText t' t'') : KeepsText t t'' where
  hasSelection := h'.hasSelection.trans h.hasSelection
  selectionStart := h'.selectionStart.trans h.selectionStart
  selectionEnd := h'.selectionEnd.trans h.selectionEnd
  contents := h'.contents.trans h.contents
  grid := h'.grid.trans h.grid

theorem KeepsText.of_display (hdisplay : t'.display = t.display) (hgrid : t'.scr.grid = t.scr.grid)
    : KeepsText t t' :=
  ⟨by rw [hdisplay], by rw [hdisplay], by rw [hdisplay], by rw [hdisplay], hgrid⟩

theorem KeepsText.copied (h : KeepsText t t') (htext : env.vt100.MarksText) (ht : Copied env t)
    : Copied env t' := by
  have hsame := htext.congr t.scr t'.scr h.grid
  unfold Copied selectedText at ht ⊢
  rw [h.hasSelection, h.selectionStart, h.selectionEnd, h.contents, hsame]
  exact ht

theorem copied_of_not_hasSelection (h : t.display.hasSelection = false) : Copied env t := by
  intro hselection
  rw [h] at hselection
  cases hselection

theorem displaySetSelection_copied (start stop : Loc) (s : World ρ)
    : Copied env (displaySetSelection env start stop s).term := by
  intro _ horder
  have hforward : ¬(stop.row < start.row ∨ (stop.row = start.row ∧ stop.col < start.col)) :=
    fun hback => not_atOrBefore_iff.mpr hback horder
  unfold selectedText displaySetSelection
  rw [if_neg hforward]
  rfl

/-- The selection stays only if its text is still the one that has been kept. -/
theorem displayMaybeClearSelection_copied (env : Env ρ) (s : World ρ)
    : Copied env (displayMaybeClearSelection env s).term := by
  unfold displayMaybeClearSelection
  extract_lets display grid s₁ contents
  split
  . split
    . exact copied_of_not_hasSelection rfl
    . next hkept =>
      rw [not_or, not_not] at hkept
      intro _ _
      exact hkept.right.symm
  . next hselection => exact copied_of_not_hasSelection (Bool.eq_false_iff.mpr hselection)

theorem ptyProcess_upToDate (htext : env.vt100.MarksText) (bytes : List UInt8) {s : World ρ}
    (hs : UpToDate env s)
    : UpToDate env (ptyProcess env bytes s) := by
  intro hdirty hselection horder
  have ⟨hbefore, hsame⟩ := htext.processString s.term.scr (s.term.pty.readbuf ++ bytes) hdirty
  have hcopied := hs hbefore hselection horder
  unfold selectedText at hcopied ⊢
  have hscr : (ptyProcess env bytes s).term.scr
      = (env.vt100.processString s.term.scr (s.term.pty.readbuf ++ bytes)).fst := rfl
  rw [hscr, hsame]
  exact hcopied

theorem displayDrawScreen_copied (htext : env.vt100.MarksText) {s : World ρ} (hs : UpToDate env s)
    : Copied env (displayDrawScreen env s).term := by
  have hchecked : Copied env
      (if s.term.scr.dirty then displayMaybeClearSelection env s else s).term := by
    split
    . exact displayMaybeClearSelection_copied env s
    . next hdirty => exact hs (Bool.eq_false_iff.mpr hdirty)
  unfold displayDrawScreen
  dsimp only
  split
  . apply KeepsText.copied ⟨_, _, _, _, _⟩ htext hchecked <;> rfl
  . next hmarked =>
    rw [not_or] at hmarked
    have hcopied := hs (Bool.eq_false_iff.mpr hmarked.left)
    exact KeepsText.copied (t := s.term) ⟨rfl, rfl, rfl, rfl, rfl⟩ htext hcopied

theorem windowResizeWindow_upToDate (width height : Int) {s : World ρ} (hs : UpToDate env s)
    : UpToDate env (windowResizeWindow env width height s) := by
  unfold windowResizeWindow
  extract_lets width height s₁ s₂
  split
  . exact fun _ => displayMaybeClearSelection_copied env s₂
  . exact hs

end

end Term
end Runes
