import Runes.Term.Drag

/-!
This module contains the places that are passed to libvt100 for reports of the mouse.
-/

namespace Runes
namespace Term

def Grid.InScreen (g : Grid) (loc : Loc) : Prop :=
  0 ≤ loc.row ∧ loc.row < g.max.row ∧ 0 ≤ loc.col ∧ loc.col < g.max.col

section

variable {ρ : Type} (env : Env ρ)

def pressReport (e : ButtonEvent) (s : World ρ) : Option Report :=
  if wantsButton env e s.term.scr then
    e.button.report.map fun button =>
      {
        loc := reportedMousePosition e.x e.y s
        type := if e.press then .press else .release
        button
        shift := e.state.shift
        mod1 := e.state.mod1
        control := e.state.control
      }
  else
    none

-- The state in which a button is reported, and whether it has been handled before.
def reportedState (e : ButtonEvent) (s : World ρ) : Bool × World ρ :=
  if e.state.shift then windowHandleBuiltinButtonPress env e s else (false, s)

/-- What `runes_window_handle_button_event` passes to `vt100_screen_format_mouse_reporting_response`. -/
def buttonReport (e : ButtonEvent) (s : World ρ) : Option Report :=
  match reportedState env e s with
  | (true, _) => none
  | (false, s) => pressReport env e s

/-- What `runes_window_handle_motion_event` passes to it. -/
def motionReport (e : MotionEvent) (s : World ρ) : Option Report :=
  if wantsMotion env s ∧ reportedMousePosition e.x e.y s ≠ s.term.w.lastReportedMousePosition then
    some
      {
        loc := reportedMousePosition e.x e.y s
        type := .motion
        button := e.state.report
        shift := e.state.shift
        mod1 := e.state.mod1
        control := e.state.control
      }
  else
    none

def response (r : Report) (s : World ρ) : List UInt8 :=
  env.vt100.formatMouseReportingResponse s.term.scr r

def logReport (r : Report) (s : World ρ) : World ρ := act (.mouseReport r.type r.button) s

section

variable {env} {e : ButtonEvent} {s : World ρ} {r : Report}

-- The handlers format a report exactly if there is one to be passed.
theorem report_eq (s : World ρ)
    : windowHandleButtonEvent.report env e s
        = match pressReport env e s with
          | some r =>
            if 0 < (response env r s).length ∧ (response env r s).length < 32 then
              windowWriteToPty env (response env r s) (logReport r s)
            else
              logReport r s
          | none =>
            if wantsButton env e s.term.scr then s else (windowHandleBuiltinButtonPress env e s).snd := by
  unfold windowHandleButtonEvent.report pressReport
  extract_lets scr wanted type
  have hwanted : wantsButton env e s.term.scr = wanted := rfl
  rw [hwanted]
  by_cases h : wanted = true
  . rw [if_pos h, if_pos h, if_pos h]
    cases e.button.report with
    | some button => rfl
    | none => rfl
  . rw [if_neg h, if_neg h, if_neg h]

theorem windowHandleButtonEvent_eq
    : windowHandleButtonEvent env e s
        = match reportedState env e s with
          | (true, s) => s
          | (false, s) => windowHandleButtonEvent.report env e s := by
  unfold windowHandleButtonEvent reportedState
  split <;> rfl

theorem windowHandleMotionEvent_eq {e : MotionEvent}
    : windowHandleMotionEvent env e s
        = match motionReport env e s with
          | some r =>
            modifyWindow ({ · with lastReportedMousePosition := r.loc })
              (windowWriteToPty env (response env r s) (logReport r s))
          | none =>
            if wantsMotion env s then
              s
            else if s.term.w.mouseDown then
              windowUpdateSelection env e.x e.y s
            else
              s := by
  unfold windowHandleMotionEvent motionReport
  extract_lets scr loc
  by_cases hwants : wantsMotion env s = true
  . rw [if_pos ((wantsMotion_iff s).mp hwants)]
    by_cases hnew : loc ≠ s.term.w.lastReportedMousePosition
    . rw [if_pos hnew, if_pos ⟨hwants, hnew⟩]
      rfl
    . rw [if_neg hnew, if_neg (fun h => hnew h.right)]
      dsimp only
      rw [if_pos hwants]
  . have hnone : ¬(wantsMotion env s = true ∧ loc ≠ s.term.w.lastReportedMousePosition) :=
      fun h => hwants h.left
    rw [if_neg (fun h => hwants ((wantsMotion_iff s).mpr h)), if_neg hnone]
    dsimp only
    rw [if_neg hwants]

theorem reportedState_geometry (h : (reportedState env e s).fst = false)
    : geometry (reportedState env e s).snd = geometry s := by
  unfold reportedState at h ⊢
  by_cases hshift : e.state.shift = true
  . rw [if_pos hshift] at h ⊢
    cases hpress : e.press with
    | true =>
      cases hbutton : e.button with
      | other n => simp [windowHandleBuiltinButtonPress, hpress, hbutton]
      | _ => simp [windowHandleBuiltinButtonPress, hpress, hbutton] at h
    | false =>
      cases hbutton : e.button with
      | button1 => apply (windowHandleBuiltinButtonPress_release env hpress hbutton s).right
      | _ => simp [windowHandleBuiltinButtonPress, hpress, hbutton]
  . rw [if_neg hshift]

theorem reportedMousePosition_congr {s' : World ρ} (h : geometry s' = geometry s)
    (xpixel ypixel : Int)
    : reportedMousePosition xpixel ypixel s' = reportedMousePosition xpixel ypixel s := by
  have hgrid : s'.term.scr.grid = s.term.scr.grid := congrArg (fun g => g.2.2.2) h
  unfold reportedMousePosition
  dsimp only
  rw [windowGetMousePosition_congr h, hgrid]

/-- The place of a report is the one of the pixel. -/
theorem loc_of_buttonReport (h : buttonReport env e s = some r)
    : r.loc = reportedMousePosition e.x e.y s := by
  unfold buttonReport at h
  cases hstate : reportedState env e s with
  | mk handled s' =>
    rw [hstate] at h
    cases handled with
    | true => cases h
    | false =>
      have hfirst : (reportedState env e s).fst = false := by rw [hstate]
      have hgeometry := reportedState_geometry hfirst
      rw [hstate] at hgeometry
      rw [← reportedMousePosition_congr hgeometry]
      dsimp only [pressReport] at h
      split at h
      . have ⟨button, _, hr⟩ := Option.map_eq_some_iff.mp h
        rw [← hr]
      . cases h

theorem loc_of_motionReport {e : MotionEvent} (h : motionReport env e s = some r)
    : r.loc = reportedMousePosition e.x e.y s := by
  unfold motionReport at h
  split at h
  . cases h
    rfl
  . cases h

theorem le_tdiv_iff {a b n : Int} (hn : 0 < n) (ha : 0 < a) : a ≤ b.tdiv n ↔ a * n ≤ b := by
  by_cases hb : 0 ≤ b
  . rw [Int.tdiv_eq_ediv_of_nonneg hb, Int.le_ediv_iff_mul_le hn]
  . have hneg := Int.tdiv_nonneg (a := -b) (b := n) (by omega) (by omega)
    rw [Int.neg_tdiv] at hneg
    have hpos := Int.mul_pos ha hn
    omega

theorem clampBelow_inside_iff {n max : Int} : 0 ≤ clampBelow n max ∧ clampBelow n max < max ↔ 0 < max := by
  unfold clampBelow
  split
  . omega
  . split <;> omega

-- The pixel row is not above the first row of the screen that is shown.
theorem clampBelow_row_iff {n max offset : Int} (hmax : 0 < max) (hoffset : 0 ≤ offset)
    : offset ≤ clampBelow n max ↔ offset = 0 ∨ (offset < max ∧ offset ≤ n) := by
  unfold clampBelow
  split
  . omega
  . split <;> omega

end

/-- The view is not scrolled back, or the pixel is in or below the row that the screen begins with. -/
def PointsAtScreen (s : World ρ) (ypixel : Int) : Prop :=
  let offset := s.term.display.rowVisibleOffset
  let max := s.term.scr.grid.max
  0 < max.row ∧ 0 < max.col
    ∧ (offset = 0 ∨ (offset < max.row ∧ offset * s.term.display.fonty ≤ ypixel))

theorem inScreen_reportedMousePosition_iff {s : World ρ} (hgrid : s.term.scr.grid.Ok)
    (hoffset : 0 ≤ s.term.display.rowVisibleOffset) (hfont : 0 < s.term.display.fonty)
    (xpixel ypixel : Int)
    : s.term.scr.grid.InScreen (reportedMousePosition xpixel ypixel s) ↔ PointsAtScreen s ypixel := by
  have htop := hgrid.rowTop
  let x := xpixel.tdiv s.term.display.fontx
  let y := ypixel.tdiv s.term.display.fonty
  let max := s.term.scr.grid.max
  have hcol : 0 ≤ clampBelow x max.col ∧ clampBelow x max.col < max.col ↔ 0 < max.col :=
    clampBelow_inside_iff
  have hrow : 0 ≤ clampBelow y max.row ∧ clampBelow y max.row < max.row ↔ 0 < max.row :=
    clampBelow_inside_iff
  have hoff (hmax : 0 < s.term.scr.grid.max.row) := clampBelow_row_iff
    (n := ypixel.tdiv s.term.display.fonty) hmax hoffset
  have hdiv (hpos : 0 < s.term.display.rowVisibleOffset) := le_tdiv_iff (b := ypixel) hfont hpos
  unfold Grid.InScreen reportedMousePosition windowGetMousePosition PointsAtScreen
  dsimp only
  grind

/--
The places that are passed for reports of buttons and motions are in the screen exactly if it has cells
and the view is not scrolled back, or not so far that the pixel is above the screen.
-/
theorem mouseReports_inScreen_iff {s : World ρ} (hgrid : s.term.scr.grid.Ok)
    (hoffset : 0 ≤ s.term.display.rowVisibleOffset) (hfont : 0 < s.term.display.fonty)
    : (∀ e r, buttonReport env e s = some r →
        (s.term.scr.grid.InScreen r.loc ↔ PointsAtScreen s e.y))
        ∧
      ∀ e r, motionReport env e s = some r →
        (s.term.scr.grid.InScreen r.loc ↔ PointsAtScreen s e.y) := by
  constructor
  . intro e r hr
    rw [loc_of_buttonReport hr, inScreen_reportedMousePosition_iff hgrid hoffset hfont]
  . intro e r hr
    rw [loc_of_motionReport hr, inScreen_reportedMousePosition_iff hgrid hoffset hfont]

end

namespace Drag

-- A program that wants reports of the mouse, while the view shows two rows of the scrollback.
def scrolled : World Bool :=
  let s := termNew env Plain.start
  let s := modifyDisplay ({ · with rowVisibleOffset := 2 }) s
  modifyScreen (fun scr => { scr with grid := Plain.grid ⟨0, 0⟩ ⟨3, 10⟩ 6, rest := true }) s

def press (y : Int) : ButtonEvent :=
  { press := true, button := .button1, state := Plain.noModifiers, x := 0, y }

def reportAt (row : Int) : Report :=
  { loc := ⟨row, 0⟩, type := .press, button := .left, shift := false, mod1 := false, control := false }

end Drag

theorem mouseReports_inScreen_scrolled
    : buttonReport Drag.env (Drag.press 45) Drag.scrolled = some (Drag.reportAt 0)
        ∧ Drag.scrolled.term.scr.grid.InScreen ⟨0, 0⟩ := by
  have hreport : buttonReport Drag.env (Drag.press 45) Drag.scrolled = some (Drag.reportAt 0) := by
    rfl
  have hgrid : Drag.scrolled.term.scr.grid.Ok := Plain.grid_ok _ _ _
  have hbutton := (mouseReports_inScreen_iff Drag.env hgrid (by decide) (by decide)).left _ _ hreport
  refine ⟨hreport, hbutton.mpr ?_⟩
  exact ⟨by decide, by decide, Or.inr ⟨by decide, by decide⟩⟩

-- A click on the first row that is shown is reported as one in row -2.
theorem not_inScreen_scrolled
    : Drag.scrolled.term.scr.grid.Ok
        ∧ Drag.scrolled.term.display.rowVisibleOffset
          ≤ Drag.scrolled.term.scr.grid.rowCount - Drag.scrolled.term.scr.grid.max.row
        ∧ buttonReport Drag.env (Drag.press 0) Drag.scrolled = some (Drag.reportAt (-2))
        ∧ ¬Drag.scrolled.term.scr.grid.InScreen (Drag.reportAt (-2)).loc := by
  refine ⟨Plain.grid_ok _ _ _, by decide, rfl, ?_⟩
  intro h
  exact absurd h.left (by decide)

end Term
end Runes
