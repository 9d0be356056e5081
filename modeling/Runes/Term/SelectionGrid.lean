import Runes.Term.Lifetime
import Runes.Term.Stepped

/-!
This module contains when the ends of the selection are places of the grid. They are the numbers of
rows in the grid that there was when the selection was made, and nothing is done about them when
libvt100 gives the terminal another grid.
-/

namespace Runes
namespace Term

def Grid.Contains (g : Grid) (loc : Loc) : Prop :=
  0 ≤ loc.row ∧ loc.row < g.rowCount ∧ 0 ≤ loc.col ∧ loc.col ≤ g.max.col

instance (g : Grid) (loc : Loc) : Decidable (g.Contains loc) :=
  inferInstanceAs (Decidable (_ ∧ _))

section

variable {ρ : Type} {env : Env ρ} {s s' : World ρ} {vt : VT100 ρ} {scr scr' : Screen ρ}

/-- The text that libvt100 is asked for is between places of the grid. -/
def Action.TextInGrid (a : Action) : Prop :=
  match a with
  | .selectionText start stop rowCount maxCol =>
    (0 ≤ start.row ∧ start.row < rowCount ∧ 0 ≤ start.col ∧ start.col ≤ maxCol)
      ∧ (0 ≤ stop.row ∧ stop.row < rowCount ∧ 0 ≤ stop.col ∧ stop.col ≤ maxCol)
  | _ => True

structure SelectionInGrid (s : World ρ) : Prop where
  ends : s.term.display.hasSelection = true →
    s.term.scr.grid.Contains s.term.display.selectionStart
      ∧ s.term.scr.grid.Contains s.term.display.selectionEnd
  log : ∀ a ∈ s.log, a.TextInGrid

/-- What is assumed of libvt100: the cells are those of the grid. -/
def VT100.ReadsGrid (vt : VT100 ρ) : Prop :=
  ∀ scr scr' : Screen ρ, scr'.grid = scr.grid → vt.cellAt scr' = vt.cellAt scr

theorem windowIsWordChar_congr (hlib : vt.ReadsGrid) (hgrid : scr'.grid = scr.grid)
    : windowIsWordChar vt scr' = windowIsWordChar vt scr := by
  funext row col
  unfold windowIsWordChar
  rw [hlib scr scr' hgrid, hgrid]

theorem windowBeginningOfWord_congr (hlib : vt.ReadsGrid) (hgrid : scr'.grid = scr.grid)
    : windowBeginningOfWord vt scr' = windowBeginningOfWord vt scr := by
  have hword := windowIsWordChar_congr hlib hgrid
  have hgo : ∀ row col prev, windowBeginningOfWord.go vt scr' row col prev
      = windowBeginningOfWord.go vt scr row col prev := by
    intro row col prev
    fun_induction windowBeginningOfWord.go vt scr row col prev <;>
      rw [windowBeginningOfWord.go, hword, hgrid] <;>
      simp only [*, if_true, if_false, Bool.false_eq_true]
  funext loc
  simp only [windowBeginningOfWord, hgrid, hgo]

theorem windowEndOfWord_congr (hlib : vt.ReadsGrid) (hgrid : scr'.grid = scr.grid)
    : windowEndOfWord vt scr' = windowEndOfWord vt scr := by
  have hword := windowIsWordChar_congr hlib hgrid
  have hgo : ∀ row col, windowEndOfWord.go vt scr' row col = windowEndOfWord.go vt scr row col := by
    intro row col
    fun_induction windowEndOfWord.go vt scr row col <;>
      rw [windowEndOfWord.go, hword, hgrid] <;>
      simp only [*, if_true, if_false, Bool.false_eq_true]
  funext loc
  simp only [windowEndOfWord, hgrid, hgo]

theorem clickLocs_congr (hlib : vt.ReadsGrid) (hgrid : scr'.grid = scr.grid) (clicks : UInt32)
    (loc : Loc)
    : clickLocs vt clicks loc scr' = clickLocs vt clicks loc scr := by
  unfold clickLocs
  rw [hgrid, windowBeginningOfWord_congr hlib hgrid, windowEndOfWord_congr hlib hgrid]

theorem builtinLocs_congr (hlib : vt.ReadsGrid) (hgrid : scr'.grid = scr.grid) (e : ButtonEvent)
    (clicks : UInt32) (s : World ρ)
    : builtinLocs vt e clicks s scr' = builtinLocs vt e clicks s scr := by
  simp only [builtinLocs, clickLocs_congr hlib hgrid]

theorem eventLocs_congr (hlib : env.vt100.ReadsGrid) (hgrid : scr'.grid = scr.grid)
    (filtered : Bool) (e : Event) (s : World ρ)
    : eventLocs env filtered e s scr' = eventLocs env filtered e s scr := by
  unfold eventLocs buttonLocs
  simp only [builtinLocs_congr hlib hgrid]

-- The places that the step selects.
def stepLocs (env : Env ρ) (s : World ρ) (input : Input) : List Loc :=
  match input with
  | .event filtered e => eventLocs env filtered e s s.term.scr
  | _ => []

/--
If libvt100 gives the terminal another grid, the ends of the selection are in it, and what is selected
with the mouse is in the grid.
-/
structure KeepsSelectionIn (env : Env ρ) (s : World ρ) (input : Input) : Prop where
  grid : s.term.display.hasSelection = true → ∀ g, nextGrid env s input = some g →
    g.Contains s.term.display.selectionStart ∧ g.Contains s.term.display.selectionEnd
  locs : ∀ loc ∈ stepLocs env s input, s.term.scr.grid.Contains loc

theorem Logs.textInGrid {P : Action → Prop} (h : Logs P s s') (hP : ∀ a, P a → a.TextInGrid)
    (hs : ∀ a ∈ s.log, a.TextInGrid)
    : ∀ a ∈ s'.log, a.TextInGrid := by
  have ⟨new, heq, hnew⟩ := h
  intro a ha
  rw [heq] at ha
  exact (List.mem_append.mp ha).elim (hs a) (fun ha => hP a (hnew a ha))

theorem textInGrid_of_textOf {a : Action} (hs : SelectionInGrid s) (ha : a.TextOf s)
    : a.TextInGrid := by
  cases a with
  | selectionText start stop rowCount maxCol =>
    have ⟨hselection, hstart, hstop, hrow, hcol⟩ := ha
    subst hstart hstop hrow hcol
    exact hs.ends hselection
  | _ => trivial

theorem textInGrid_of_isQuiet {a : Action} (ha : a.IsQuiet) : a.TextInGrid := by
  cases a with
  | selectionText start stop rowCount maxCol => cases ha.left
  | _ => trivial

theorem Flushes.selectionInGrid (h : Flushes s s') (hs : SelectionInGrid s) : SelectionInGrid s' where
  ends hselection := by
    rw [h.grid, h.selectionStart, h.selectionEnd]
    exact hs.ends (h.hasSelection hselection)
  log := h.log.textInGrid (fun _ ha => textInGrid_of_textOf hs ha.left) hs.log

-- Nothing that the ends of the selection depend on changes.
theorem SelectionInGrid.frame (hs : SelectionInGrid s)
    (hdisplay : s'.term.display = s.term.display) (hgrid : s'.term.scr.grid = s.term.scr.grid)
    (hlog : Logs Action.TextInGrid s s')
    : SelectionInGrid s' where
  ends := by
    rw [hdisplay, hgrid]
    exact hs.ends
  log := hlog.textInGrid (fun _ ha => ha) hs.log

theorem Does.selectionInGrid {sel : Loc → Prop} {acts : List PointerAct} {g : Grid}
    (h : Does env sel acts s s') (hsel : ∀ loc, sel loc → g.Contains loc)
    (hgrid : s.term.scr.grid = g) (hs : SelectionInGrid s)
    : SelectionInGrid s' := by
  induction h with
  | refl s => exact hs
  | trans h h' ih ih' => exact ih' (h.reacts.grid.trans hgrid) (ih hgrid hs)
  | flush s => exact (windowFlush_flushes env s).left.selectionInGrid hs
  | act s hdraw hmouse => exact hs.frame rfl rfl (.act (textInGrid_of_isQuiet ⟨hdraw, hmouse⟩))
  | builtin s => exact hs.frame rfl rfl (.act trivial)
  | report type button s => exact hs.frame rfl rfl (.act trivial)
  | display hf s =>
    obtain ⟨hselection, hstart, hend⟩ := hf.selection s.term.display
    refine ⟨?_, hs.log⟩
    intro hselected
    simp only [modifyDisplay, hselection, hstart, hend] at hselected ⊢
    exact hs.ends hselected
  | scroll s hoffset => exact ⟨hs.ends, hs.log⟩
  | select s hstart hstop =>
    refine ⟨fun _ => ⟨?_, ?_⟩, hs.log⟩
    . rcases hstart with hstart | ⟨hselection, rfl⟩
      . exact hgrid ▸ hsel _ hstart
      . exact (hs.ends hselection).left
    . exact hgrid ▸ hsel _ hstop
  | deselect s => exact ⟨fun hselection => (by cases hselection), hs.log⟩
  | acquire s =>
    obtain ⟨owns, hterm⟩ := windowAcquireSelection_term env s
    apply hs.frame ?_ ?_ ((windowAcquireSelection_logs env s).mono (fun _ => textInGrid_of_isQuiet))
    . rw [hterm]
      rfl
    . rw [hterm]
      rfl
  | window hf s => exact ⟨hs.ends, hs.log⟩
  | mouseDown down s => exact ⟨hs.ends, hs.log⟩
  | click s => exact ⟨hs.ends, hs.log⟩
  | timer s =>
    obtain ⟨event, refcnt, hterm⟩ := restartMultiClickTimer_term s
    apply hs.frame ?_ ?_ ((restartMultiClickTimer_logs s).mono (fun _ => textInGrid_of_isQuiet))
    . rw [hterm]
    . rw [hterm]

-- The terminal gets another grid, and only the ends of the selection depend on it.
theorem SelectionInGrid.regrid (hs : SelectionInGrid s)
    (hdisplay : s'.term.display.hasSelection = s.term.display.hasSelection
      ∧ s'.term.display.selectionStart = s.term.display.selectionStart
      ∧ s'.term.display.selectionEnd = s.term.display.selectionEnd)
    (hgrid : s.term.display.hasSelection = true →
      s'.term.scr.grid.Contains s.term.display.selectionStart
        ∧ s'.term.scr.grid.Contains s.term.display.selectionEnd)
    (hlog : Logs Action.TextInGrid s s')
    : SelectionInGrid s' where
  ends := by
    have ⟨hselection, hstart, hend⟩ := hdisplay
    rw [hselection, hstart, hend]
    exact hgrid
  log := hlog.textInGrid (fun _ ha => ha) hs.log

theorem windowResizeWindow_selectionInGrid (width height : Int) (hs : SelectionInGrid s)
    (hgrid : s.term.display.hasSelection = true →
      ∀ g, resizedGrid env width height s = some g →
        g.Contains s.term.display.selectionStart ∧ g.Contains s.term.display.selectionEnd)
    : SelectionInGrid (windowResizeWindow env width height s) := by
  unfold resizedGrid at hgrid
  unfold windowResizeWindow
  extract_lets width height s₁ s₂
  split
  . next hresized =>
    have hlog : Logs Action.TextInGrid s s₂ :=
      Logs.trans (.act (s := s) (a := .resize (width - 4) (height - 4)) trivial) (.act trivial)
    have hs₂ : SelectionInGrid s₂ :=
      hs.regrid ⟨rfl, rfl, rfl⟩ (fun hselection => hgrid hselection _ (if_pos hresized)) hlog
    exact (displayMaybeClearSelection_flushes env s₂).selectionInGrid hs₂
  . exact hs

theorem windowHandleEvent_selectionInGrid (hlib : env.vt100.ReadsGrid) {filtered : Bool} {e : Event}
    (hkeeps : KeepsSelectionIn env s (.event filtered e)) (hs : SelectionInGrid s)
    : SelectionInGrid (windowHandleEvent env filtered e s).snd := by
  by_cases he : e.IsConfigure
  . rcases windowHandleEvent_configure env filtered he s with
      ⟨hsame, hgrid⟩ | ⟨width, height, hresize, hgrid⟩
    . rwa [hsame]
    . rw [hresize]
      apply windowResizeWindow_selectionInGrid width height hs
      rw [← hgrid]
      exact hkeeps.grid
  . have hdoes : Does env s.term.scr.grid.Contains (eventActs env filtered e s) s
        (windowHandleEvent env filtered e s).snd := by
      apply windowHandleEvent_does filtered s he
      intro scr hgrid loc hloc
      rw [eventLocs_congr hlib hgrid] at hloc
      exact hkeeps.locs loc hloc
    exact hdoes.selectionInGrid (fun _ hloc => hloc) rfl hs

theorem ptyProcess_selectionInGrid {bytes : List UInt8} (hne : bytes ≠ []) (hs : SelectionInGrid s)
    (hgrid : s.term.display.hasSelection = true → ∀ g, outputGrid env (some bytes) s = some g →
      g.Contains s.term.display.selectionStart ∧ g.Contains s.term.display.selectionEnd)
    : SelectionInGrid (ptyProcess env bytes s) := by
  have houtput := outputGrid_some env hne s
  exact hs.regrid ⟨rfl, rfl, rfl⟩ (fun hselection => hgrid hselection _ houtput) (.of_eq rfl)

theorem step_selectionInGrid (hlib : env.vt100.ReadsGrid) {input : Input}
    (hkeeps : KeepsSelectionIn env s input) (h : Stepped env s input s') (hs : SelectionInGrid s)
    : SelectionInGrid s' := by
  cases h with
  | opens hidle hmem => exact ⟨hs.ends, hs.log⟩
  | handles hbusy hopen => exact windowHandleEvent_selectionInGrid hlib hkeeps hs
  | closes hbusy hclose =>
    have hs₁ := windowHandleEvent_selectionInGrid hlib hkeeps hs
    exact hs₁.frame rfl rfl (.act trivial)
  | drains hbusy => exact ⟨hs.ends, hs.log⟩
  | @reads id bytes hidle hmem hne =>
    have hs₁ : SelectionInGrid (delEvent id s) := ⟨hs.ends, hs.log⟩
    have hs₂ : SelectionInGrid (ptyProcess env bytes (delEvent id s)) :=
      ptyProcess_selectionInGrid hne hs₁ hkeeps.grid
    have hs₃ := (windowFlush_flushes env _).left.selectionInGrid hs₂
    exact ⟨hs₃.ends, hs₃.log⟩
  | ends hidle hmem hanswer => exact hs.frame rfl rfl (.act trivial)
  | @delay id hidle hmem =>
    have hs₁ : SelectionInGrid (modifyWindow ({ · with delaying := false }) (delEvent id s)) :=
      ⟨hs.ends, hs.log⟩
    have hs₂ := (windowFlush_flushes env _).left.selectionInGrid hs₁
    exact ⟨hs₂.ends, hs₂.log⟩
  | @resetVisualBell id hidle hmem =>
    have hs₁ : SelectionInGrid
        (act .paintBackground (modifyWindow ({ · with visualBellIsRinging := false })
          (delEvent id s))) :=
      hs.frame rfl rfl (.act trivial)
    have hs₂ := (windowFlush_flushes env _).left.selectionInGrid hs₁
    exact ⟨hs₂.ends, hs₂.log⟩
  | multiClick hidle hmem => exact ⟨hs.ends, hs.log⟩

theorem init_selectionInGrid (env : Env ρ) (start : Start)
    : SelectionInGrid (machine env start).init where
  ends hselection := by cases hselection
  log a ha := by
    have hlog : (machine env start).init.log
        = [.setWindowSize (start.height.tdiv start.fonty % 65536)
            (start.width.tdiv start.fontx % 65536) (start.width % 65536)
            (start.height % 65536)] := rfl
    rw [hlog] at ha
    rw [List.mem_singleton.mp ha]
    trivial

/--
What it takes for the mouse to select places of the grid: it is in shape and not empty, the rows of the
window exist, and no word goes on after the last row.
-/
structure Selectable (s : World ρ) : Prop where
  grid : s.term.scr.grid.Ok
  row : 0 < s.term.scr.grid.max.row
  col : 0 < s.term.scr.grid.max.col
  rows : RowsExist s.term.scr.grid s.term.display.rowVisibleOffset
  last : (s.term.scr.grid.rows (s.term.scr.grid.rowCount - 1)).wrapped = false

theorem clampBelow_bounds (n : Int) {max : Int} (hmax : 0 < max)
    : 0 ≤ clampBelow n max ∧ clampBelow n max < max := by
  unfold clampBelow
  split
  . omega
  . split <;> omega

theorem contains_windowGetMousePosition (xpixel ypixel : Int) (h : Selectable s)
    : s.term.scr.grid.Contains (windowGetMousePosition xpixel ypixel s)
        ∧ (windowGetMousePosition xpixel ypixel s).col < s.term.scr.grid.max.col := by
  have hrow := clampBelow_bounds (ypixel.tdiv s.term.display.fonty) h.row
  have hcol := clampBelow_bounds (xpixel.tdiv s.term.display.fontx) h.col
  have hexists := h.rows _ hrow.left hrow.right
  have htop := h.grid.rowTop
  unfold windowGetMousePosition Grid.Contains
  dsimp only
  omega

theorem contains_windowBeginningOfWord {loc : Loc} (hcol : 0 < scr.grid.max.col)
    (h : scr.grid.Contains loc)
    : scr.grid.Contains (windowBeginningOfWord vt scr loc) := by
  have hgo : ∀ row col prev, scr.grid.Contains ⟨row + scr.grid.rowTop, col⟩ →
      scr.grid.Contains { prev with row := prev.row + scr.grid.rowTop } →
      scr.grid.Contains { windowBeginningOfWord.go vt scr row col prev with
        row := (windowBeginningOfWord.go vt scr row col prev).row + scr.grid.rowTop } := by
    intro row col prev
    unfold Grid.Contains
    dsimp only
    fun_induction windowBeginningOfWord.go vt scr row col prev <;> grind
  have hrow : loc.row - scr.grid.rowTop + scr.grid.rowTop = loc.row := by omega
  unfold windowBeginningOfWord
  apply hgo
  . rwa [hrow]
  . rwa [hrow]

theorem contains_windowEndOfWord {loc : Loc} (hgrid : scr.grid.Ok)
    (hlast : (scr.grid.rows (scr.grid.rowCount - 1)).wrapped = false) (h : scr.grid.Contains loc)
    (hcol : loc.col < scr.grid.max.col)
    : scr.grid.Contains (windowEndOfWord vt scr loc) := by
  have htop := hgrid.rowTop
  have hgo : ∀ row col, scr.grid.Contains ⟨row + scr.grid.rowTop, col⟩ → col < scr.grid.max.col →
      scr.grid.Contains { windowEndOfWord.go vt scr row col with
        row := (windowEndOfWord.go vt scr row col).row + scr.grid.rowTop } := by
    intro row col
    unfold Grid.Contains
    dsimp only
    -- Only from a row that is wrapped the word goes on in the next one.
    fun_induction windowEndOfWord.go vt scr row col <;> grind
  have hrow : loc.row - scr.grid.rowTop + scr.grid.rowTop = loc.row := by omega
  unfold windowEndOfWord
  apply hgo
  . rwa [hrow]
  . exact hcol

theorem contains_clickLocs (h : Selectable s) (vt : VT100 ρ) (clicks : UInt32) {loc : Loc}
    (hloc : s.term.scr.grid.Contains loc) (hcol : loc.col < s.term.scr.grid.max.col)
    : ∀ l ∈ clickLocs vt clicks loc s.term.scr, s.term.scr.grid.Contains l := by
  have hmax := h.col
  unfold clickLocs
  split
  . split
    . have ⟨hnonneg, hlt, _⟩ := hloc
      simp only [List.forall_mem_cons]
      exact ⟨⟨hnonneg, hlt, Int.le_refl 0, Int.le_of_lt hmax⟩,
        ⟨hnonneg, hlt, Int.le_of_lt hmax, Int.le_refl _⟩, by simp⟩
    . simp only [List.forall_mem_cons]
      exact ⟨contains_windowBeginningOfWord hmax hloc,
        contains_windowEndOfWord h.grid h.last hloc hcol, by simp⟩
  . simp

theorem contains_builtinLocs (h : Selectable s) (vt : VT100 ρ) (e : ButtonEvent) (clicks : UInt32)
    : ∀ l ∈ builtinLocs vt e clicks s s.term.scr, s.term.scr.grid.Contains l := by
  have ⟨hloc, hcol⟩ := contains_windowGetMousePosition e.x e.y h
  have hclick := contains_clickLocs h vt clicks hloc hcol
  unfold builtinLocs
  extract_lets loc
  have hpress : ∀ l ∈ [loc], s.term.scr.grid.Contains l := by
    intro l hl
    rwa [List.mem_singleton.mp hl]
  split
  . exact hpress
  . split
    . exact hpress
    . simp
  . exact hclick
  . simp

theorem Selectable.contains (h : Selectable s) (input : Input)
    : ∀ l ∈ stepLocs env s input, s.term.scr.grid.Contains l := by
  have hbuiltin := contains_builtinLocs h env.vt100
  unfold stepLocs
  split
  . next filtered e =>
    unfold eventLocs
    split
    . next e =>
      unfold buttonLocs
      extract_lets clicks builtin
      split
      . split
        . exact hbuiltin e _
        . intro l hl
          exact (List.mem_append.mp hl).elim (hbuiltin e _ l) (hbuiltin e _ l)
      . split
        . simp
        . exact hbuiltin e _
    . next e =>
      split
      . intro l hl
        rw [List.mem_singleton.mp hl]
        exact (contains_windowGetMousePosition e.x e.y h).left
      . simp
    . simp
  . simp

/--
In a run in which libvt100 only gives the terminal grids that the ends of the selection are in, and the
mouse only selects places of the grid, the text that libvt100 is asked for always is in its grid.
-/
theorem selectionInGrid_of_keepsSelectionIn {start : Start} (hlib : env.vt100.ReadsGrid)
    (h : (machine env start).Reaches (KeepsSelectionIn env) s)
    : SelectionInGrid s := by
  apply h.invariant (init_selectionInGrid env start)
  intro s input s' hs hkeeps hstep
  exact step_selectionInGrid hlib hkeeps (stepped hstep) hs

instance KeepsSelectionIn.decidable (env : Env ρ) (s : World ρ) (input : Input)
    : Decidable (KeepsSelectionIn env s input) :=
  decidable_of_iff
    ((s.term.display.hasSelection = true → ∀ g ∈ nextGrid env s input,
        g.Contains s.term.display.selectionStart ∧ g.Contains s.term.display.selectionEnd)
      ∧ ∀ loc ∈ stepLocs env s input, s.term.scr.grid.Contains loc)
    ⟨fun h => ⟨h.left, h.right⟩, fun h => ⟨h.grid, h.locs⟩⟩

end

namespace Plain

theorem vt100_readsGrid : vt100.ReadsGrid := by
  intro scr scr' hgrid
  funext row col
  unfold vt100
  dsimp only
  rw [hgrid]

-- Some rows of output, and the mouse is pressed in the last row.
def selectLast : List Input :=
  [
    .ptyReady 1 (some [0x0a, 0x0a, 0x0a, 0x0a, 0x0a]),
    .windowReady 0,
    .event false
      (.button { press := true, button := .button1, state := noModifiers, x := 0, y := 45 }),
    .drained
  ]

end Plain

theorem selectionInGrid_of_keepsSelectionIn_output
    : ∃ s, (machine Plain.env Plain.start).run (machine Plain.env Plain.start).init
          (Plain.selectLast ++ [.ptyReady 1 (some [0x0a])]) = some s
        ∧ .selectionText ⟨5, 0⟩ ⟨5, 0⟩ 7 10 ∈ s.log
        ∧ SelectionInGrid s := by
  let M := machine Plain.env Plain.start
  let inputs := Plain.selectLast ++ [.ptyReady 1 (some [0x0a])]
  have ⟨s, hrun, hlog⟩ : ∃ s, M.run M.init inputs = some s
      ∧ .selectionText ⟨5, 0⟩ ⟨5, 0⟩ 7 10 ∈ s.log :=
    Exec.Machine.exists_run (by decide +kernel)
  have hok : M.RunOk (KeepsSelectionIn Plain.env) M.init inputs := by
    decide +kernel
  have hreach := Exec.Machine.Reaches.init.run hok hrun
  exact ⟨s, hrun, hlog, selectionInGrid_of_keepsSelectionIn Plain.vt100_readsGrid hreach⟩

-- The alternate screen has no row above the window.
theorem not_selectionInGrid_alternateScreen
    : Plain.vt100.ReadsGrid
        ∧ ∃ s, (machine Plain.env Plain.start).Reachable s
          ∧ .selectionText ⟨5, 0⟩ ⟨5, 0⟩ 3 10 ∈ s.log
          ∧ ¬∀ a ∈ s.log, a.TextInGrid := by
  let M := machine Plain.env Plain.start
  let inputs := Plain.selectLast ++ [.ptyReady 1 (some Plain.alternateScreen)]
  have ⟨s, hrun, hlog⟩ : ∃ s, M.run M.init inputs = some s
      ∧ .selectionText ⟨5, 0⟩ ⟨5, 0⟩ 3 10 ∈ s.log :=
    Exec.Machine.exists_run (by decide +kernel)
  have hreach := Exec.Machine.Reaches.init.run (Exec.Machine.runOk_true _ _) hrun
  refine ⟨Plain.vt100_readsGrid, s, hreach, hlog, ?_⟩
  intro hin
  have ⟨⟨_, hrow, _⟩, _⟩ := hin _ hlog
  exact absurd hrow (by decide)

end Term
end Runes
