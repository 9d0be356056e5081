import Runes.Term.Handles
import Runes.Term.Report

/-!
This module contains when a terminal has a row and a column at all. The size of a window is checked
before the border is subtracted from it and before it is divided by the size of the font.
-/

namespace Runes
namespace Term

variable {ρ : Type} {env : Env ρ} {s s' : World ρ}

-- The place of the cell that `runes_display_draw_cursor` reads.
def cursorCell (grid : Grid) : Loc :=
  let col := if grid.cur.col ≥ grid.max.col then grid.max.col - 1 else grid.cur.col
  { row := grid.rowTop + grid.cur.row, col }

def Grid.Has (grid : Grid) (loc : Loc) : Prop :=
  0 ≤ loc.row ∧ loc.row < grid.rowCount ∧ 0 ≤ loc.col ∧ loc.col < grid.max.col

-- The cursor may be behind the last column.
structure Grid.CursorInside (grid : Grid) : Prop where
  ok : grid.Ok
  row : 0 ≤ grid.cur.row ∧ grid.cur.row < grid.max.row
  col : 0 ≤ grid.cur.col

/--
What is assumed of libvt100: the screen has the size that it is given, and the cursor stays in it.
-/
structure VT100.KeepsCursor (vt : VT100 ρ) : Prop where
  setWindowSize_max : ∀ scr row col, (vt.setWindowSize scr row col).grid.max = ⟨row, col⟩
  setWindowSize_cursor : ∀ scr row col, 1 ≤ row → 1 ≤ col →
    (vt.setWindowSize scr row col).grid.CursorInside
  processString_max : ∀ scr buf, (vt.processString scr buf).fst.grid.max = scr.grid.max
  processString_cursor : ∀ scr buf, scr.grid.CursorInside →
    (vt.processString scr buf).fst.grid.CursorInside

def Action.NotEmpty (a : Action) : Prop :=
  match a with
  | .resize width height => 1 ≤ width ∧ 1 ≤ height
  | .setWindowSize row col _ _ => 1 ≤ row ∧ 1 ≤ col
  | _ => True

structure Extent.NotEmpty (x : Extent) : Prop where
  glyphBuf : 1 ≤ x.glyphBuf
  row : 1 ≤ x.grid.max.row
  col : 1 ≤ x.grid.max.col
  cursor : x.grid.Has (cursorCell x.grid)

/-- A terminal that has a row and a column, as everything was told that depends on it. -/
def NotEmpty (s : World ρ) : Prop := (∀ a ∈ s.log, a.NotEmpty) ∧ (extent s).NotEmpty

-- As many cells as there is room for between the borders.
def HasRoom (font n : Int) : Prop := font + 4 ≤ n ∧ n < 65535

def ResizesToCells (s : World ρ) (input : Input) : Prop :=
  match input with
  | .event false (.configure e later) =>
    e.border = true →
      HasRoom s.term.display.fontx (later.getLastD e).width
        ∧ HasRoom s.term.display.fonty (later.getLastD e).height
  | _ => True

-- A number of cells that is not 0, also as the 16 bits that `struct winsize` has for it.
def FitsCells (font n : Int) : Prop := font ≤ n ∧ n.tdiv font % 65536 ≠ 0

def Start.FitsCells (start : Start) : Prop :=
  Term.FitsCells start.fontx start.width ∧ Term.FitsCells start.fonty start.height

theorem has_cursorCell {grid : Grid} (h : grid.CursorInside) (hcol : 1 ≤ grid.max.col)
    : grid.Has (cursorCell grid) := by
  have ⟨⟨htop, hnonneg⟩, ⟨hrow, hbelow⟩, hleft⟩ := h
  unfold Grid.Has cursorCell
  dsimp only
  split <;> omega

theorem one_le_tdiv_iff {font n : Int} (hfont : 1 ≤ font) : 1 ≤ n.tdiv font ↔ font ≤ n := by
  rw [le_tdiv_iff (by omega) (by omega), Int.one_mul]

theorem mod_of_lt {font n : Int} (hfont : 1 ≤ font) (hfits : font ≤ n) (hn : n < 65536)
    : n.tdiv font % 65536 = n.tdiv font := by
  have hle : n.tdiv font ≤ n := Int.tdiv_le_self font (by omega)
  have hone := (one_le_tdiv_iff hfont).mpr hfits
  apply Int.emod_eq_of_lt <;> omega

-- The size is clamped to 1, and less than 0 is left of that between the borders.
theorem le_windowDimension_iff {font n : Int} (hfont : 1 ≤ font)
    : font ≤ windowDimension n - 4 ↔ HasRoom font n := by
  unfold windowDimension HasRoom
  split <;> omega

theorem fitsCells_windowDimension_iff {font n : Int} (hfont : 1 ≤ font)
    : FitsCells font (windowDimension n - 4) ↔ HasRoom font n := by
  constructor
  . exact fun h => (le_windowDimension_iff hfont).mp h.left
  . intro h
    have hle := (le_windowDimension_iff hfont).mpr h
    have hone := (one_le_tdiv_iff hfont).mpr hle
    have hlt : windowDimension n - 4 < 65536 := by
      unfold windowDimension
      split <;> omega
    refine ⟨hle, ?_⟩
    rw [mod_of_lt hfont hle hlt]
    omega

theorem forall_notEmpty_iff (s : World ρ)
    : (∀ a ∈ s.log, a.NotEmpty) ↔ ∀ a ∈ sizes s, a.NotEmpty := by
  unfold sizes
  constructor
  . exact fun h a ha => h a (List.mem_of_mem_filter ha)
  . intro h a ha
    cases hsize : a.isSize with
    | true => exact h a (List.mem_filter.mpr ⟨ha, hsize⟩)
    | false =>
      cases a with
      | setWindowSize row col xpixel ypixel => cases hsize
      | resize width height => cases hsize
      | _ => trivial

/-- An extent that is not empty, with what stays the same in a run. -/
structure Extent.Roomy (fontx fonty : Int) (x : Extent) : Prop where
  notEmpty : x.NotEmpty
  cursor : x.grid.CursorInside
  pixel : x.xpixel = 0 ∧ x.ypixel = 0
  font : x.fontx = fontx ∧ x.fonty = fonty

/-- The invariant of the runs all of whose events leave room for a cell. -/
def Roomy (fontx fonty : Int) (s : World ρ) : Prop :=
  (∀ a ∈ sizes s, a.NotEmpty) ∧ (extent s).Roomy fontx fonty

section

variable {fontx fonty : Int}

theorem Roomy.notEmpty (h : Roomy fontx fonty s) : NotEmpty s :=
  ⟨(forall_notEmpty_iff s).mpr h.left, h.right.notEmpty⟩

theorem Roomy.handles (hs : Roomy fontx fonty s) (h : Handles env s s')
    : Roomy fontx fonty s' := by
  unfold Roomy
  rw [h.sizes, h.extent]
  exact hs

theorem notEmpty_of_handles (h : Handles env s s') (hs : NotEmpty s') : NotEmpty s := by
  unfold NotEmpty at hs ⊢
  rw [forall_notEmpty_iff, h.sizes, h.extent] at hs
  rw [forall_notEmpty_iff]
  exact hs

-- The sizes in pixels are never assigned, so that every event resizes the window.
theorem windowResizeWindow_eq (width height : Int) (s : World ρ)
    (hxpixel : s.term.display.xpixel = 0)
    : windowResizeWindow env width height s
        =
      displayMaybeClearSelection env
        (termSetWindowSize env (windowDimension width - 4) (windowDimension height - 4)
          (act (.resize (windowDimension width - 4) (windowDimension height - 4)) s)) := by
  have hne : windowDimension width ≠ s.term.display.xpixel := by
    rw [hxpixel]
    unfold windowDimension
    split <;> omega
  unfold windowResizeWindow
  dsimp only
  rw [if_pos (Or.inl hne)]

theorem displayMaybeClearSelection_extent (env : Env ρ) (s : World ρ)
    : extent (displayMaybeClearSelection env s) = extent s
        ∧ sizes (displayMaybeClearSelection env s) = sizes s := by
  constructor
  . exact (displayMaybeClearSelection_flushes env s).extent
  . exact (displayMaybeClearSelection_paints env s).log.sizes (fun _ ha => isSize_of_ofFlush ha.left)

theorem extent_termSetWindowSize (xpixel ypixel : Int) (s : World ρ)
    : extent (termSetWindowSize env xpixel ypixel s)
        =
      let row := ypixel.tdiv s.term.display.fonty
      let col := xpixel.tdiv s.term.display.fontx
      { extent s with glyphBuf := col, grid := (env.vt100.setWindowSize s.term.scr row col).grid } :=
  rfl

theorem sizes_act (a : Action) (ha : a.isSize = true) (s : World ρ)
    : sizes (act a s) = sizes s ++ [a] := by
  simp [sizes, act, ha]

theorem sizes_termSetWindowSize (xpixel ypixel : Int) (s : World ρ)
    : sizes (termSetWindowSize env xpixel ypixel s)
        =
      let row := ypixel.tdiv s.term.display.fonty
      let col := xpixel.tdiv s.term.display.fontx
      sizes s ++ [.setWindowSize (row % 65536) (col % 65536) (xpixel % 65536) (ypixel % 65536)] :=
  sizes_act _ rfl s

theorem roomy_termSetWindowSize (hlib : env.vt100.KeepsCursor) {xpixel ypixel : Int}
    (hx : 1 ≤ fontx) (hy : 1 ≤ fonty) (hsizes : ∀ a ∈ sizes s, a.NotEmpty)
    (hpixel : s.term.display.xpixel = 0 ∧ s.term.display.ypixel = 0)
    (hfont : s.term.display.fontx = fontx ∧ s.term.display.fonty = fonty)
    (hcol : FitsCells fontx xpixel) (hrow : FitsCells fonty ypixel)
    : Roomy fontx fonty (termSetWindowSize env xpixel ypixel s) := by
  have hcols := (one_le_tdiv_iff hx).mpr hcol.left
  have hrows := (one_le_tdiv_iff hy).mpr hrow.left
  have hcol' := hcol.right
  have hrow' := hrow.right
  rw [← hfont.left] at hcols hcol'
  rw [← hfont.right] at hrows hrow'
  have hcursor := hlib.setWindowSize_cursor s.term.scr _ _ hrows hcols
  have hmax := hlib.setWindowSize_max s.term.scr (ypixel.tdiv s.term.display.fonty)
    (xpixel.tdiv s.term.display.fontx)
  constructor
  . rw [sizes_termSetWindowSize]
    intro a ha
    rcases List.mem_append.mp ha with ha | ha
    . exact hsizes a ha
    . rw [List.mem_singleton.mp ha]
      unfold Action.NotEmpty
      dsimp only
      omega
  . rw [extent_termSetWindowSize]
    refine ⟨⟨hcols, ?_, ?_, ?_⟩, hcursor, hpixel, hfont⟩
    . rw [hmax]
      exact hrows
    . rw [hmax]
      exact hcols
    . apply has_cursorCell hcursor
      rw [hmax]
      exact hcols

theorem fitsCells_of_notEmpty (hlib : env.vt100.KeepsCursor) {xpixel ypixel : Int}
    (hx : 1 ≤ fontx) (hy : 1 ≤ fonty)
    (hfont : s.term.display.fontx = fontx ∧ s.term.display.fonty = fonty)
    (h : NotEmpty (termSetWindowSize env xpixel ypixel s))
    : FitsCells fontx xpixel ∧ FitsCells fonty ypixel := by
  have ⟨hlog, hextent⟩ := h
  have ⟨hglyphBuf, hrow, _, _⟩ := hextent
  have hmax := hlib.setWindowSize_max s.term.scr (ypixel.tdiv s.term.display.fonty)
    (xpixel.tdiv s.term.display.fontx)
  rw [forall_notEmpty_iff, sizes_termSetWindowSize] at hlog
  have ⟨hrows, hcols⟩ := hlog _ (List.mem_append_right _ (List.mem_singleton_self _))
  rw [extent_termSetWindowSize] at hglyphBuf hrow
  dsimp only at hglyphBuf hrow
  rw [hmax] at hrow
  dsimp only at hrow
  rw [hfont.left] at hcols hglyphBuf
  rw [hfont.right] at hrows hrow
  refine ⟨⟨(one_le_tdiv_iff hx).mp hglyphBuf, ?_⟩, (one_le_tdiv_iff hy).mp hrow, ?_⟩
  . omega
  . omega

theorem roomy_windowResizeWindow (hlib : env.vt100.KeepsCursor) {width height : Int}
    (hx : 1 ≤ fontx) (hy : 1 ≤ fonty) (hs : Roomy fontx fonty s) (hwidth : HasRoom fontx width)
    (hheight : HasRoom fonty height)
    : Roomy fontx fonty (windowResizeWindow env width height s) := by
  have ⟨hsizes, _, _, hpixel, hfont⟩ := hs
  have hcol := (fitsCells_windowDimension_iff hx).mpr hwidth
  have hrow := (fitsCells_windowDimension_iff hy).mpr hheight
  rw [windowResizeWindow_eq width height s hpixel.left]
  unfold Roomy
  rw [(displayMaybeClearSelection_extent env _).left, (displayMaybeClearSelection_extent env _).right]
  refine roomy_termSetWindowSize hlib hx hy ?_ hpixel hfont hcol hrow
  rw [sizes_act _ rfl]
  intro a ha
  rcases List.mem_append.mp ha with ha | ha
  . exact hsizes a ha
  . have hwidth' := hcol.left
    have hheight' := hrow.left
    rw [List.mem_singleton.mp ha]
    unfold Action.NotEmpty
    dsimp only
    omega

theorem hasRoom_of_notEmpty (hlib : env.vt100.KeepsCursor) {width height : Int}
    (hx : 1 ≤ fontx) (hy : 1 ≤ fonty) (hs : Roomy fontx fonty s)
    (h : NotEmpty (windowResizeWindow env width height s))
    : HasRoom fontx width ∧ HasRoom fonty height := by
  have ⟨_, _, _, hpixel, hfont⟩ := hs
  rw [windowResizeWindow_eq width height s hpixel.left] at h
  unfold NotEmpty at h
  rw [forall_notEmpty_iff, (displayMaybeClearSelection_extent env _).left,
    (displayMaybeClearSelection_extent env _).right, ← forall_notEmpty_iff] at h
  have ⟨hcol, hrow⟩ := fitsCells_of_notEmpty (s := act _ s) hlib hx hy hfont h
  exact ⟨(fitsCells_windowDimension_iff hx).mp hcol, (fitsCells_windowDimension_iff hy).mp hrow⟩

theorem Roomy.ptyProcess (hlib : env.vt100.KeepsCursor) (hs : Roomy fontx fonty s)
    (bytes : List UInt8)
    : Roomy fontx fonty (ptyProcess env bytes s) := by
  have ⟨hsizes, ⟨hglyphBuf, hrow, hcol, _⟩, hcursor, hpixel, hfont⟩ := hs
  let buf := s.term.pty.readbuf ++ bytes
  have hmax : (extent (Term.ptyProcess env bytes s)).grid.max = (extent s).grid.max :=
    hlib.processString_max s.term.scr buf
  have hcursor' := hlib.processString_cursor s.term.scr buf hcursor
  rw [← hmax] at hrow hcol
  exact ⟨hsizes, ⟨hglyphBuf, hrow, hcol, has_cursorCell hcursor' hcol⟩, hcursor', hpixel, hfont⟩

theorem Roomy.resized (hlib : env.vt100.KeepsCursor) (hx : 1 ≤ fontx) (hy : 1 ≤ fonty)
    (hs : Roomy fontx fonty s) {input : Input} (hinput : ResizesToCells s input)
    : Roomy fontx fonty (resized env s input) := by
  have ⟨_, _, _, _, hfontx, hfonty⟩ := hs
  unfold Term.resized
  split
  . next e later =>
    split
    . next hborder =>
      have ⟨hwidth, hheight⟩ := hinput hborder
      have hwidth' : HasRoom fontx (later.getLastD e).width := by rwa [← hfontx]
      have hheight' : HasRoom fonty (later.getLastD e).height := by rwa [← hfonty]
      exact roomy_windowResizeWindow hlib hx hy hs hwidth' hheight'
    . exact hs
  . exact Roomy.ptyProcess (s := delEvent _ s) hlib hs _
  . exact hs

theorem resizesToCells_of_notEmpty (hlib : env.vt100.KeepsCursor) (hx : 1 ≤ fontx) (hy : 1 ≤ fonty)
    (hs : Roomy fontx fonty s) {input : Input} (h : NotEmpty (Term.resized env s input))
    : ResizesToCells s input := by
  have ⟨_, _, _, _, hfontx, hfonty⟩ := hs
  unfold ResizesToCells
  split
  . next e later =>
    intro hborder
    unfold Term.resized at h
    dsimp only at h
    rw [if_pos hborder] at h
    change HasRoom (extent s).fontx _ ∧ HasRoom (extent s).fonty _
    rw [hfontx, hfonty]
    exact hasRoom_of_notEmpty hlib hx hy hs h
  . trivial

end

theorem notEmpty_init_iff (hlib : env.vt100.KeepsCursor) {start : Start} (hx : 1 ≤ start.fontx)
    (hy : 1 ≤ start.fonty)
    : (NotEmpty (machine env start).init → start.FitsCells)
        ∧ (start.FitsCells → Roomy start.fontx start.fonty (machine env start).init) := by
  constructor
  . exact fun h => fitsCells_of_notEmpty (s := _) hlib hx hy ⟨rfl, rfl⟩ h
  . intro ⟨hcol, hrow⟩
    exact roomy_termSetWindowSize (s := _) hlib hx hy (by simp [sizes]) ⟨rfl, rfl⟩ ⟨rfl, rfl⟩ hcol hrow

/--
In every run, a terminal has a row and a column in every state, and everything is told so, exactly if
the window has room for a cell in the beginning, and for one between the borders whenever it gets
another size.
-/
theorem notEmpty_iff {env : Env ρ} (hlib : env.vt100.KeepsCursor) (start : Start)
    (hx : 1 ≤ start.fontx) (hy : 1 ≤ start.fonty) (inputs : List Input)
    : (machine env start).Always NotEmpty (machine env start).init inputs
        ↔ start.FitsCells
          ∧ (machine env start).RunOk ResizesToCells (machine env start).init inputs := by
  have ⟨hfits, hinit⟩ := notEmpty_init_iff hlib hx hy
  have hrun : Roomy start.fontx start.fonty (machine env start).init →
      ((machine env start).Always NotEmpty (machine env start).init inputs
        ↔ (machine env start).RunOk ResizesToCells (machine env start).init inputs) := by
    intro hs
    apply Exec.Machine.always_iff_runOk (Roomy start.fontx start.fonty) ?_ ?_ ?_ hs
    . exact fun s hs => hs.notEmpty
    . intro s input s' hs hstep hinput
      exact (hs.resized hlib hx hy hinput).handles (handles_of_stepped (stepped hstep))
    . intro s input s' hs hstep h
      have hresized := notEmpty_of_handles (handles_of_stepped (stepped hstep)) h
      exact resizesToCells_of_notEmpty hlib hx hy hs hresized
  constructor
  . intro h
    have hstart := hfits h.now
    exact ⟨hstart, (hrun (hinit hstart)).mp h⟩
  . intro ⟨hstart, h⟩
    exact (hrun (hinit hstart)).mpr h

namespace Plain

-- A libvt100 that moves the cursor into the screen when that gets smaller.
def clampingVt100 : VT100 Unit :=
  {
    vt100 with
    setWindowSize := fun scr row col =>
      let cur := ⟨clampBelow scr.grid.cur.row row, clampBelow scr.grid.cur.col (col + 1)⟩
      { scr with grid := grid cur ⟨row, col⟩ scr.grid.rowCount, dirty := true }
  }

theorem process_cursor {g : Grid} (h : g.CursorInside) (buf : List UInt8)
    : (process g buf).CursorInside := by
  have ⟨_, ⟨hrow, hbelow⟩, hcol⟩ := h
  unfold process lineFeeds
  dsimp only
  split
  . refine ⟨grid_ok _ _ _, ⟨?_, ?_⟩, ?_⟩
    . exact Int.le_refl 0
    . exact Int.lt_of_le_of_lt hrow hbelow
    . exact Int.le_refl 0
  . split
    . refine ⟨grid_ok _ _ _, ⟨?_, ?_⟩, hcol⟩
      all_goals
        dsimp only [grid]
        omega
    . refine ⟨grid_ok _ _ _, ⟨?_, ?_⟩, hcol⟩
      all_goals
        dsimp only [grid]
        omega

theorem process_max (g : Grid) (buf : List UInt8) : (process g buf).max = g.max := by
  unfold process lineFeeds
  dsimp only
  split
  . rfl
  . split <;> rfl

theorem clampingVt100_keepsCursor : clampingVt100.KeepsCursor where
  setWindowSize_max _ _ _ := rfl
  setWindowSize_cursor scr row col hrow hcol := by
    have hcur : 0 ≤ clampBelow scr.grid.cur.row row ∧ clampBelow scr.grid.cur.row row < row :=
      clampBelow_inside_iff.mpr (by omega)
    have hleft : 0 ≤ clampBelow scr.grid.cur.col (col + 1)
        ∧ clampBelow scr.grid.cur.col (col + 1) < col + 1 :=
      clampBelow_inside_iff.mpr (by omega)
    exact ⟨grid_ok _ _ _, hcur, hleft.left⟩
  processString_max scr buf := process_max scr.grid buf
  processString_cursor _ buf h := process_cursor h buf

def clampingEnv : Env Unit := { Plain.env with vt100 := clampingVt100 }

-- The window as it is created for a font of 8 by 16 pixels.
def cellStart : Start := { start with fontx := 8, fonty := 16, width := 84, height := 52 }

def resizeTo (width height : Int) : List Input :=
  [.windowReady 0, .event false (.configure { border := true, width, height } [])]

end Plain

theorem notEmpty_smaller
    : (machine Plain.clampingEnv Plain.cellStart).Always NotEmpty
        (machine Plain.clampingEnv Plain.cellStart).init (Plain.resizeTo 12 20) := by
  apply (notEmpty_iff Plain.clampingVt100_keepsCursor Plain.cellStart (by decide) (by decide) _).mpr
  refine ⟨⟨⟨by decide, by decide⟩, ⟨by decide, by decide⟩⟩, ?_⟩
  intro s₁ hstep
  cases hstep
  exact ⟨trivial, fun s₂ _ => ⟨fun _ => ⟨⟨by decide, by decide⟩, ⟨by decide, by decide⟩⟩, trivial⟩⟩

-- The size is set to 1 by 1, of which -3 by -3 is left, which are no columns.
theorem not_notEmpty_minimal
    : Plain.clampingVt100.KeepsCursor
        ∧ ∃ s, (machine Plain.clampingEnv Plain.cellStart).Reachable s
          ∧ .resize (-3) (-3) ∈ s.log
          ∧ .setWindowSize 0 0 65533 65533 ∈ s.log
          ∧ s.term.display.glyphBuf = 0
          ∧ (cursorCell s.term.scr.grid).col = -1
          ∧ ¬NotEmpty s := by
  let M := machine Plain.clampingEnv Plain.cellStart
  have ⟨s, hrun, hresize, hsize, hbuf, hcursor⟩ : ∃ s, M.run M.init (Plain.resizeTo 1 1) = some s
      ∧ .resize (-3) (-3) ∈ s.log ∧ .setWindowSize 0 0 65533 65533 ∈ s.log
      ∧ s.term.display.glyphBuf = 0 ∧ (cursorCell s.term.scr.grid).col = -1 :=
    Exec.Machine.exists_run (by decide +kernel)
  have hreach := Exec.Machine.Reaches.init.run (Exec.Machine.runOk_true _ _) hrun
  refine ⟨Plain.clampingVt100_keepsCursor, s, hreach, hresize, hsize, hbuf, hcursor, ?_⟩
  intro h
  have hone : 1 ≤ s.term.display.glyphBuf := h.right.glyphBuf
  omega

end Term
end Runes
