import Runes.Display.Pixels
import Runes.Term.GlyphBuf
import Runes.Term.Painted

/-!
This module contains that the mouse points at what is to be seen: the cell that the window takes a pixel
for is the one whose colours the pixel has.
-/

namespace Runes
namespace Term

open Display (Paint Item)
open Raster (Picture)

variable {ρ : Type}

/--
What the drawing functions take from elsewhere: the colours of the configuration, the last column of a row
that has contents, which libvt100 knows, and what Pango says about the width of cells.
-/
structure Drawing where
  config : Display.Config
  rowMaxCol : Loc × Int × (Int → Int → Cell) → Int → Int
  glyphsAreMonospace : List Cell → Bool

def Drawing.view (d : Drawing) (t : RunesTerm ρ) : Display.View where
  rowTop := t.scr.grid.rowTop
  maxCol := t.scr.grid.max.col
  rowVisibleOffset := t.display.rowVisibleOffset
  hasSelection := t.display.hasSelection
  selectionStart := t.display.selectionStart
  selectionEnd := t.display.selectionEnd
  rowMaxCol := d.rowMaxCol t.scr.grid.shape
  glyphsAreMonospace := d.glyphsAreMonospace

-- What `runes_display_draw_screen` draws if something is marked.
def Drawing.draw (d : Drawing) (t : RunesTerm ρ) (cr : Display.Cairo Display.Drawn)
    : Display.Cairo Display.Drawn :=
  drawScreenRows d.config (d.view t) t.scr.grid cr

-- The cells of a row of the window.
def windowRow (t : RunesTerm ρ) (r : Nat) : List Cell :=
  rowCells (t.scr.grid.rows (r + t.scr.grid.rowTop - t.display.rowVisibleOffset)) t.scr.grid.max.col

def Drawing.layers (d : Drawing) (t : RunesTerm ρ) : List (Raster.Rect × Paint) :=
  Display.screenLayers d.config (d.view t) t.display.fontx t.display.fonty t.scr.grid.max.row.toNat
    (windowRow t)

theorem drawRow_unselected {v v' : Display.View} (h : v.hasSelection = false)
    (h' : v'.hasSelection = false) (hglyphs : v.glyphsAreMonospace = v'.glyphsAreMonospace)
    (config : Display.Config) (cr : Display.Cairo Display.Drawn) (row : Int) (cells : List Cell)
    : Display.drawRow config v cr row cells = Display.drawRow config v' cr row cells := by
  have hleaves : Display.rowLeaves v row cells = Display.rowLeaves v' row cells := by
    unfold Display.rowLeaves
    congr 1
    funext run
    rw [Display.leaves_none h, Display.leaves_none h']
  have hleaf : Display.drawLeaf config v row = Display.drawLeaf config v' row := by
    funext cr leaf
    apply Display.drawLeaf_congr config cr _ hglyphs
    rw [Display.locIsSelected_none h, Display.locIsSelected_none h']
  rw [Display.drawRow_eq, Display.drawRow_eq, hleaves, hleaf]

theorem visible_of_look {t t' : RunesTerm ρ} (h : look t = look t')
    : t.scr.grid.shape = t'.scr.grid.shape
        ∧ t.display.rowVisibleOffset = t'.display.rowVisibleOffset :=
  ⟨congrArg Look.shape h, congrArg Look.rowVisibleOffset h⟩

theorem windowRow_of_look {t t' : RunesTerm ρ} (h : look t = look t') (r : Nat)
    : windowRow t r = windowRow t' r := by
  obtain ⟨hshape, hoffset⟩ := visible_of_look h
  have hmax : t.scr.grid.max = t'.scr.grid.max := congrArg Prod.fst hshape
  have htop : t.scr.grid.rowTop = t'.scr.grid.rowTop := congrArg (·.snd.fst) hshape
  have hcells (row : Int) : (t.scr.grid.rows row).cells = (t'.scr.grid.rows row).cells :=
    congrArg (·.snd.snd row) hshape
  unfold windowRow rowCells
  rw [hmax, htop, hoffset, hcells]

theorem draw_eq (d : Drawing) (t : RunesTerm ρ) (cr : Display.Cairo Display.Drawn)
    : d.draw t cr
        = (List.range t.scr.grid.max.row.toNat).foldl
            (fun cr (r : Nat) => Display.drawRow d.config (d.view t) cr r (windowRow t r)) cr := rfl

/-- The look of a terminal is all that the drawing depends on. -/
theorem draw_of_look {t t' : RunesTerm ρ} (h : look t = look t') (d : Drawing)
    : d.draw t = d.draw t' := by
  obtain ⟨hshape, hoffset⟩ := visible_of_look h
  have hmax : t.scr.grid.max = t'.scr.grid.max := congrArg Prod.fst hshape
  have htop : t.scr.grid.rowTop = t'.scr.grid.rowTop := congrArg (·.snd.fst) hshape
  have hselection := congrArg Look.selection h
  have hrow (r : Nat) (cr : Display.Cairo Display.Drawn)
      : Display.drawRow d.config (d.view t) cr r (windowRow t r)
          = Display.drawRow d.config (d.view t') cr r (windowRow t' r) := by
    rw [windowRow_of_look h]
    unfold look at hselection
    cases hhas : t.display.hasSelection with
    | false =>
      cases hhas' : t'.display.hasSelection with
      | false =>
        have hview : (d.view t).hasSelection = false := hhas
        have hview' : (d.view t').hasSelection = false := hhas'
        exact drawRow_unselected hview hview' rfl d.config cr r _
      | true => simp [hhas, hhas'] at hselection
    | true =>
      cases hhas' : t'.display.hasSelection with
      | false => simp [hhas, hhas'] at hselection
      | true =>
        simp only [hhas, hhas', if_true, Option.some.injEq, Prod.mk.injEq] at hselection
        have hview : d.view t = d.view t' := by
          unfold Drawing.view
          rw [hshape, htop, hmax, hoffset, hhas, hhas', hselection.left, hselection.right]
        rw [hview]
  funext cr
  rw [draw_eq, draw_eq, hmax]
  congr 1
  funext cr r
  exact hrow r cr

theorem draw_lays (d : Drawing) (t : RunesTerm ρ) (cr : Display.Cairo Display.Drawn)
    : Display.Lays t.display.fontx t.display.fonty cr (d.draw t cr) (d.layers t) :=
  Display.Lays.foldl
    (fun cr (r : Nat) =>
      Display.drawRow_lays d.config (d.view t) t.display.fontx t.display.fonty r cr (windowRow t r))
    (List.range t.scr.grid.max.row.toNat) cr

section

variable {env : Env ρ} {start : Start} {s : World ρ}

theorem gridOk_resized (hlib : env.vt100.Lawful) (hs : s.term.scr.grid.Ok) (input : Input)
    : (resized env s input).term.scr.grid.Ok := by
  unfold resized
  split
  . split
    . unfold windowResizeWindow
      extract_lets width height s₁ s₂
      split
      . have hgrid := congrArg Extent.grid (displayMaybeClearSelection_extent env s₂).left
        change (displayMaybeClearSelection env s₂).term.scr.grid = s₂.term.scr.grid at hgrid
        rw [hgrid]
        apply hlib.setWindowSize
      . exact hs
    . exact hs
  . apply hlib.processString
  . exact hs

theorem Reachable.gridOk (hlib : env.vt100.Lawful) (h : (machine env start).Reachable s)
    : s.term.scr.grid.Ok := by
  apply h.invariant (P := fun s => s.term.scr.grid.Ok)
  . apply hlib.setWindowSize
  . intro s input s' hs _ hstep
    have hgrid := congrArg Extent.grid (handles_of_stepped (stepped hstep)).extent
    change s'.term.scr.grid = (resized env s input).term.scr.grid at hgrid
    rw [hgrid]
    exact gridOk_resized hlib hs input

variable {x y : Int}

-- Inside of the screen, the position of the mouse is what its pixel is divided into.
theorem windowGetMousePosition_inside (hgrid : s.term.scr.grid.Ok)
    (hfontx : 0 < s.term.display.fontx) (hfonty : 0 < s.term.display.fonty)
    (hx : 0 ≤ x ∧ x < s.term.scr.grid.max.col * s.term.display.fontx)
    (hy : 0 ≤ y ∧ y < s.term.scr.grid.max.row * s.term.display.fonty)
    : windowGetMousePosition x y s
        = ⟨y / s.term.display.fonty + s.term.scr.grid.rowTop - s.term.display.rowVisibleOffset,
            x / s.term.display.fontx⟩ := by
  have hcol : x / s.term.display.fontx < s.term.scr.grid.max.col := by
    rw [Int.ediv_lt_iff_lt_mul hfontx]
    exact hx.right
  have hrow : y / s.term.display.fonty < s.term.scr.grid.max.row := by
    rw [Int.ediv_lt_iff_lt_mul hfonty]
    exact hy.right
  have hcol' := Int.ediv_nonneg hx.left (Int.le_of_lt hfontx)
  have hrow' := Int.ediv_nonneg hy.left (Int.le_of_lt hfonty)
  have htop := hgrid.rowTop
  unfold windowGetMousePosition clampBelow
  dsimp only
  rw [Int.tdiv_eq_ediv_of_nonneg hx.left, Int.tdiv_eq_ediv_of_nonneg hy.left]
  rw [if_neg (by omega), if_neg (by omega), if_neg (by omega), if_neg (by omega)]
  congr 1
  omega

theorem layers_pixel (d : Drawing) (hgrid : s.term.scr.grid.Ok)
    (hfontx : 0 < s.term.display.fontx) (hfonty : 0 < s.term.display.fonty)
    (hx : 0 ≤ x ∧ x < s.term.scr.grid.max.col * s.term.display.fontx)
    (hy : 0 ≤ y ∧ y < s.term.scr.grid.max.row * s.term.display.fonty)
    {kindOf : UInt32 → Display.ColorKind} {cells : List Cell}
    (hcells : cells
      = rowCells (s.term.scr.grid.rows (windowGetMousePosition x y s).row) s.term.scr.grid.max.col)
    (hnarrow : ∀ cell ∈ cells, Display.Narrow cell) (hids : Display.IdsTell kindOf cells)
    (huncut : ∀ bound ∈ [s.term.display.selectionStart, s.term.display.selectionEnd],
      ¬Display.CutsBlank (d.view s.term) (y / s.term.display.fonty) cells bound)
    {i : Item} (hi : i ∈ Display.rowItems 0 cells) (hc : i.Covers (windowGetMousePosition x y s).col)
    : Picture.blank.fillAll (d.layers s.term) x y
        = some (Display.cellColors d.config
            (Display.locIsSelected (d.view s.term) ⟨(windowGetMousePosition x y s).row, i.col⟩) i).bg := by
  have hmouse := windowGetMousePosition_inside hgrid hfontx hfonty hx hy
  rw [hmouse] at hcells hc ⊢
  have hrow' := Int.ediv_nonneg hy.left (Int.le_of_lt hfonty)
  have hrow : y / s.term.display.fonty < s.term.scr.grid.max.row := by
    rw [Int.ediv_lt_iff_lt_mul hfonty]
    exact hy.right
  have hcol : x / s.term.display.fontx < s.term.scr.grid.max.col := by
    rw [Int.ediv_lt_iff_lt_mul hfontx]
    exact hx.right
  obtain ⟨r, hr⟩ := Int.eq_ofNat_of_zero_le hrow'
  have hcells' : windowRow s.term r = cells := by
    unfold windowRow
    rw [← hr, hcells]
  have hcols : (d.view s.term).maxCol = (windowRow s.term r).length := by
    have hlength : (windowRow s.term r).length = s.term.scr.grid.max.col.toNat := by
      simp [windowRow, rowCells]
    have hcol' := Int.ediv_nonneg hx.left (Int.le_of_lt hfontx)
    rw [hlength]
    change s.term.scr.grid.max.col = _
    omega
  rw [hr] at huncut
  rw [← hcells'] at hnarrow hids hi huncut
  have hmatches : Display.HighlightMatches (d.view s.term) r (windowRow s.term r) := by
    apply Display.highlightMatches_of_uncut hcols hnarrow
    intro _ _ bound hbound hrow hcol hblank
    exact huncut bound hbound ⟨hrow, hcol, hblank⟩
  rw [hr]
  exact Display.screenLayers_pixel hfontx hfonty hcols hnarrow hids hmatches (by omega) hr hi hc hcol

/--
Whenever the window shows the screen as it is, a pixel of it has the background of the cell that a click
there points at, drawn as selected if the selection has the first column of that cell. This does not hold
where an end of the selection is between two empty cells.
-/
theorem pixel_under_mouse (hlib : env.vt100.Lawful) (hmarks : env.vt100.Marks)
    (h : (machine env start).Reachable s)
    (hpending : ∀ e ∈ s.pending, e.kind ≠ .delay ∧ e.kind ≠ .resetVisualBell)
    (hsize : drawnInSize s.log = true) (d : Drawing)
    (hfontx : 0 < s.term.display.fontx) (hfonty : 0 < s.term.display.fonty)
    (hx : 0 ≤ x ∧ x < s.term.scr.grid.max.col * s.term.display.fontx)
    (hy : 0 ≤ y ∧ y < s.term.scr.grid.max.row * s.term.display.fonty)
    {kindOf : UInt32 → Display.ColorKind} {cells : List Cell}
    (hcells : cells
      = rowCells (s.term.scr.grid.rows (windowGetMousePosition x y s).row) s.term.scr.grid.max.col)
    (hnarrow : ∀ cell ∈ cells, Display.Narrow cell) (hids : Display.IdsTell kindOf cells)
    (huncut : ∀ bound ∈ [s.term.display.selectionStart, s.term.display.selectionEnd],
      ¬Display.CutsBlank (d.view s.term) (y / s.term.display.fonty) cells bound)
    {i : Item} (hi : i ∈ Display.rowItems 0 cells) (hc : i.Covers (windowGetMousePosition x y s).col)
    : (∃ c : Canvas ρ, c.Drawn env start ∧ c.world = s)
        ∧
      ∀ c : Canvas ρ, c.Drawn env start → c.world = s →
        ∃ seen, c.painted = some ⟨some seen, displayDrawCursor s.term⟩
          ∧ ∀ t : RunesTerm ρ, look t = seen → ∀ cr, ∃ layers,
              Display.Lays s.term.display.fontx s.term.display.fonty cr (d.draw t cr) layers
                ∧
              Picture.blank.fillAll layers x y
                = some (Display.cellColors d.config
                    (Display.locIsSelected (d.view s.term) ⟨(windowGetMousePosition x y s).row, i.col⟩)
                    i).bg := by
  refine ⟨exists_drawn hmarks h, ?_⟩
  rintro c hdrawn rfl
  have hpainted := (hdrawn.shows h hpending hsize).right.right
  refine ⟨look c.world.term, hpainted, ?_⟩
  intro t hlook cr
  rw [draw_of_look hlook]
  refine ⟨d.layers c.world.term, draw_lays d c.world.term cr, ?_⟩
  exact layers_pixel d (Reachable.gridOk hlib h) hfontx hfonty hx hy hcells hnarrow hids huncut hi hc

end

namespace Plain

-- No row has contents behind column 0.
def drawing : Drawing where
  config := Display.defaultConfig
  rowMaxCol _ _ := 0
  glyphsAreMonospace _ := true

def blankRow : List Cell := List.replicate 10 cell

def pressAt (x y : Int) : ButtonEvent := { press := true, button := .button1, state := noModifiers, x, y }

def dragTo (x y : Int) : MotionEvent := { state := noModifiers, x, y }

-- The second row is selected.
def selectsRow : List Input :=
  [.windowReady 0, .event false .expose, .event false (.button (pressAt 7 17)),
    .event false (.motion (dragTo 33 20))]

end Plain

theorem pixel_under_mouse_selected
    : ∃ s, (machine Plain.env Plain.cellStart).run (machine Plain.env Plain.cellStart).init
          Plain.selectsRow = some s
        ∧ windowGetMousePosition 26 18 s = ⟨1, 3⟩
        ∧ (∃ c : Canvas Unit, c.Drawn Plain.env Plain.cellStart ∧ c.world = s)
        ∧ ∀ c : Canvas Unit, c.Drawn Plain.env Plain.cellStart → c.world = s →
            ∃ seen, c.painted = some ⟨some seen, displayDrawCursor s.term⟩
              ∧ ∀ t : RunesTerm Unit, look t = seen → ∀ cr, ∃ layers,
                  Display.Lays 8 16 cr (Plain.drawing.draw t cr) layers
                    ∧ Picture.blank.fillAll layers 26 18 = some (.pattern 2) := by
  obtain ⟨s, hrun, hpending, hsize, hfontx, hfonty, hmax, hmouse, hcells, huncut, hbg⟩ : ∃ s,
      (machine Plain.env Plain.cellStart).run (machine Plain.env Plain.cellStart).init
          Plain.selectsRow = some s
        ∧ (∀ e ∈ s.pending, e.kind ≠ .delay ∧ e.kind ≠ .resetVisualBell)
        ∧ drawnInSize s.log = true
        ∧ s.term.display.fontx = 8
        ∧ s.term.display.fonty = 16
        ∧ s.term.scr.grid.max = ⟨3, 10⟩
        ∧ windowGetMousePosition 26 18 s = ⟨1, 3⟩
        ∧ Plain.blankRow = rowCells (s.term.scr.grid.rows 1) 10
        ∧ (∀ bound ∈ [s.term.display.selectionStart, s.term.display.selectionEnd],
            ¬Display.CutsBlank (Plain.drawing.view s.term) (18 / 16) Plain.blankRow bound)
        ∧ (Display.cellColors Display.defaultConfig
            (Display.locIsSelected (Plain.drawing.view s.term) ⟨1, 3⟩) ⟨3, Plain.cell⟩).bg
              = .pattern 2 :=
    Exec.Machine.exists_run (by decide +kernel)
  have hreach := Exec.Machine.Reaches.init.run (Exec.Machine.runOk_true _ _) hrun
  have hnarrow : ∀ cell ∈ Plain.blankRow, Display.Narrow cell := by
    unfold Display.Narrow
    decide
  have hids : Display.IdsTell (fun _ => .default) Plain.blankRow := by
    unfold Display.IdsTell
    decide
  have hpixel := pixel_under_mouse Plain.vt100_lawful Plain.vt100_marks hreach hpending hsize
    Plain.drawing (x := 26) (y := 18) (by rw [hfontx]; decide) (by rw [hfonty]; decide) (by rw [hfontx, hmax]; decide)
    (by rw [hfonty, hmax]; decide) (by rw [hmouse, hmax]; exact hcells) hnarrow hids
    (by rw [hfonty]; exact huncut) (i := ⟨3, Plain.cell⟩) (by decide)
    (by rw [hmouse]; exact ⟨by decide, by decide⟩)
  rw [hfontx, hfonty, hmouse] at hpixel
  refine ⟨s, hrun, hmouse, hpixel.left, ?_⟩
  intro c hdrawn hworld
  obtain ⟨seen, hpainted, hshows⟩ := hpixel.right c hdrawn hworld
  refine ⟨seen, hpainted, ?_⟩
  intro t hlook cr
  obtain ⟨layers, hlays, hpicture⟩ := hshows t hlook cr
  exact ⟨layers, hlays, hpicture.trans (congrArg some hbg)⟩

end Term
end Runes
