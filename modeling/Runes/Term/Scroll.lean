import Runes.Term.Lifetime

/-!
This module contains when the rows exist that a window shows. The offset by which the window is
scrolled up is checked when it is set, but not when libvt100 gives the terminal another grid.
-/

namespace Runes
namespace Term

variable {ρ : Type} {s s' : World ρ} {grid : Option Grid}

def Grid.Reaches (g : Grid) (rowVisibleOffset : Int) : Prop :=
  g.max.row ≤ 0 ∨ rowVisibleOffset ≤ g.rowTop

/--
If libvt100 gives the terminal another grid, the window is not scrolled up further than there are
rows in it.
-/
def KeepsRows (env : Env ρ) (s : World ρ) (input : Input) : Prop :=
  ∀ grid, nextGrid env s input = some grid → grid.Reaches s.term.display.rowVisibleOffset

def RowsShown (s : World ρ) : Prop :=
  RowsExist s.term.scr.grid s.term.display.rowVisibleOffset ∧ ∀ a ∈ s.log, a.InGrid

theorem Frame.shown (h : Frame s s') (hs : Shown (core s) s.log)
    : Shown (core s') s'.log := by
  have hgrid : (core s').grid = (core s).grid := h.grid
  have hoffset : (core s').rowVisibleOffset = (core s).rowVisibleOffset := h.offset
  refine ⟨?_, ?_, ?_, h.log hs.log⟩
  . rw [hgrid]
    apply hs.grid
  . rw [hoffset]
    apply hs.nonneg
  . rw [hgrid, hoffset]
    apply hs.rows

theorem Changes.shown (h : Changes s s' grid) (hs : Shown (core s) s.log)
    (hgrid : ∀ g, grid = some g → g.Ok ∧ g.Reaches s.term.display.rowVisibleOffset)
    : Shown (core s') s'.log := by
  cases h with
  | reacts h => exact h.shown hs
  | regrids h h' =>
    have ⟨hok, hreaches⟩ := hgrid _ rfl
    apply h'.shown
    rw [h.core]
    refine ⟨hok, hs.nonneg, ?_, h.log hs.log⟩
    rw [rowsExist_iff hok]
    apply hreaches.imp_right (fun htop => ⟨hs.nonneg, htop⟩)

theorem Changes.regrid {g : Grid} (h : Changes s s' (some g))
    : s'.term.scr.grid = g
        ∧ s'.term.display.rowVisibleOffset = s.term.display.rowVisibleOffset := by
  cases h with
  | regrids h h' =>
    have hgrid := congrArg Core.grid h.core
    have hoffset := congrArg Core.rowVisibleOffset h.core
    exact ⟨h'.grid.trans hgrid, h'.offset.trans hoffset⟩

theorem Step.shown (h : Step s s' grid) (hs : Shown (core s) s.log)
    (hgrid : ∀ g, grid = some g → g.Ok ∧ g.Reaches s.term.display.rowVisibleOffset)
    : Shown (core s') s'.log := by
  cases h with
  | opens hstart _ => exact hstart.shown hs
  | handles _ h => exact h.shown hs hgrid
  | closes _ h hfinish _ => exact hfinish.shown (h.shown hs hgrid)
  | drains _ hresume _ => exact hresume.shown hs
  | reads hstart h hresume _ =>
    apply hresume.shown
    apply h.shown (hstart.shown hs)
    rw [hstart.offset]
    exact hgrid
  | ends hstart h hfinish _ => exact hfinish.shown (h.shown (hstart.shown hs))

-- A step keeps the offset when libvt100 gives the terminal another grid.
theorem Step.regrid {g : Grid} (h : Step s s' (some g))
    : s'.term.scr.grid = g
        ∧ s'.term.display.rowVisibleOffset = s.term.display.rowVisibleOffset := by
  cases h with
  | handles _ h => exact h.regrid
  | closes _ h hfinish _ =>
    have ⟨hgrid, hoffset⟩ := h.regrid
    exact ⟨hfinish.grid.trans hgrid, hfinish.offset.trans hoffset⟩
  | reads hstart h hresume _ =>
    have ⟨hgrid, hoffset⟩ := h.regrid
    exact ⟨hresume.grid.trans hgrid, hresume.offset.trans (hoffset.trans hstart.offset)⟩

theorem nextGrid_ok {env : Env ρ} (hlib : env.vt100.Lawful) {input : Input} {g : Grid}
    (h : nextGrid env s input = some g)
    : g.Ok := by
  unfold nextGrid at h
  split at h
  . split at h
    . unfold resizedGrid at h
      dsimp only at h
      split at h
      . cases h
        apply hlib.setWindowSize
      . cases h
    . cases h
  . unfold outputGrid at h
    split at h
    . cases h
      apply hlib.processString
    . cases h
  . cases h

theorem shown_init {env : Env ρ} (hlib : env.vt100.Lawful) (start : Start)
    : Shown (core (machine env start).init) (machine env start).init.log := by
  have hgrid : (machine env start).init.term.scr.grid.Ok := hlib.setWindowSize _ _ _
  refine ⟨hgrid, Int.le_refl 0, ?_, ?_⟩
  . apply (rowsExist_iff hgrid 0).mpr (Or.inr ⟨Int.le_refl 0, hgrid.nonneg⟩)
  . exact forall_inGrid_append trivial (fun _ ha => by cases ha)

/--
In every run, the rows of the window exist in every state, and existed whenever it was drawn, exactly
if libvt100 never gives the terminal a grid with fewer rows above the window than the window is
scrolled up.
-/
theorem rowsShown_iff {env : Env ρ} (hlib : env.vt100.Lawful) (start : Start)
    (inputs : List Input)
    : (machine env start).Always RowsShown (machine env start).init inputs
        ↔ (machine env start).RunOk (KeepsRows env) (machine env start).init inputs := by
  apply Exec.Machine.always_iff_runOk (fun s => Shown (core s) s.log)
  . intro s hs
    exact ⟨hs.rows, hs.log⟩
  . intro s input s' hs hstep hkeeps
    apply (step_cases hstep).shown hs
    intro g hg
    exact ⟨nextGrid_ok hlib hg, hkeeps g hg⟩
  . intro s input s' hs hstep hshown g hg
    have hcases := step_cases hstep
    rw [hg] at hcases
    have ⟨hgrid, hoffset⟩ := hcases.regrid
    have hrows := hshown.left
    rw [hgrid, hoffset, rowsExist_iff (nextGrid_ok hlib hg)] at hrows
    apply hrows.imp_right And.right
  . apply shown_init hlib start

namespace Plain

def scrollUp : List Input :=
  [
    .ptyReady 1 (some [0x0a, 0x0a, 0x0a, 0x0a, 0x0a]),
    .windowReady 0,
    .event false
      (.button { press := true, button := .button4, state := noModifiers, x := 0, y := 0 })
  ]

end Plain

theorem rowsShown_scrollUp
    : (machine Plain.env Plain.start).Always RowsShown (machine Plain.env Plain.start).init
        Plain.scrollUp := by
  apply (rowsShown_iff Plain.vt100_lawful Plain.start Plain.scrollUp).mpr
  intro s₁ _
  refine ⟨?_, fun s₂ _ => ⟨?_, fun s₃ _ => ⟨?_, trivial⟩⟩⟩
  . intro g hg
    cases hg
    apply Or.inr (by decide)
  . intro g hg
    cases hg
  . intro g hg
    cases hg

theorem not_rowsShown_alternateScreen
    : Plain.vt100.Lawful
        ∧ ∃ s, (machine Plain.env Plain.start).Reachable s
          ∧ ¬RowsExist s.term.scr.grid s.term.display.rowVisibleOffset
          ∧ .drawRows [-1, 0, 1] 3 ∈ s.log := by
  let M := machine Plain.env Plain.start
  let inputs := Plain.scrollUp ++ [.drained, .ptyReady 1 (some Plain.alternateScreen)]
  have ⟨s, hrun, hmax, htop, hoffset, hlog⟩ : ∃ s, M.run M.init inputs = some s
      ∧ s.term.scr.grid.max.row = 3 ∧ s.term.scr.grid.rowTop = 0
      ∧ s.term.display.rowVisibleOffset = 1 ∧ .drawRows [-1, 0, 1] 3 ∈ s.log :=
    Exec.Machine.exists_run (by decide +kernel)
  have hreach := Exec.Machine.Reaches.init.run (Exec.Machine.runOk_true _ _) hrun
  refine ⟨Plain.vt100_lawful, s, hreach, ?_, hlog⟩
  intro hrows
  have := hrows 0 (by omega) (by omega)
  omega

end Term
end Runes
