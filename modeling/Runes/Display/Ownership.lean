import Runes.Display.DrawLemmas

/-!
This module contains what drawing does to the patterns of the configuration and to those that are
created for a colour of a cell.
-/

namespace Runes
namespace Display

inductive Config.Owns (config : Config) : Pattern → Prop where
  | fgdefault : config.Owns config.fgdefault
  | bgdefault : config.Owns config.bgdefault
  | colors (idx : UInt8) : config.Owns (config.colors idx)

def Alive (config : Config) (r : Refs) : Prop := ∀ p, config.Owns p → 0 < r.count p

theorem Alive.lt_next {config : Config} {r : Refs} (h : Alive config r) {p : Nat}
    (hp : config.Owns p)
    : p < r.next := by
  have := h p hp
  by_contra hge
  rw [r.fresh p (by omega)] at this
  omega

/--
What becomes of the references when a run of cells with these attributes is drawn. The patterns `bg`
and `fg` stand for the colours that are not RGB.
-/
def settle (config : Config) (attrs : Attrs) (selected : Bool) (bg fg : Pattern) (r : Refs) : Refs :=
  let (bg, r) := if attrs.bgcolor.isRgb then (r.next, r.create) else (bg, r)
  let (fg, r) := if attrs.fgcolor.isRgb then (r.next, r.create) else (fg, r)
  let colors := shownColors selected attrs config.defaults ⟨bg, fg⟩
  let r := if attrs.bgcolor.isRgb then r.destroy colors.bg else r
  if attrs.fgcolor.isRgb then r.destroy colors.fg else r

-- A new pattern is created for a colour if and only if it is RGB.
def Color.IsPaintedWith (config : Config) (color : Color) (paint : Paint) : Prop :=
  (∃ p, config.Owns p ∧ color.isRgb = false ∧ paint = .pattern p)
    ∨
  (color.isRgb = true ∧ ∃ r g b, paint = .rgb r g b)

theorem backgroundPaint_cases (config : Config) (attrs : Attrs)
    : attrs.bgcolor.IsPaintedWith config (backgroundPaint config attrs) := by
  unfold backgroundPaint Color.IsPaintedWith Color.isRgb
  cases attrs.bgcolor.kind with
  | default => exact .inl ⟨_, .bgdefault, rfl, rfl⟩
  | idx idx => exact .inl ⟨_, .colors _, rfl, rfl⟩
  | rgb r g b => exact .inr ⟨rfl, r, g, b, rfl⟩

theorem foregroundPaint_cases (config : Config) (attrs : Attrs)
    : attrs.fgcolor.IsPaintedWith config (foregroundPaint config attrs) := by
  unfold foregroundPaint Color.IsPaintedWith Color.isRgb
  cases attrs.fgcolor.kind with
  | default => exact .inl ⟨_, .fgdefault, rfl, rfl⟩
  | idx idx => exact .inl ⟨_, .colors _, rfl, rfl⟩
  | rgb r g b => exact .inr ⟨rfl, r, g, b, rfl⟩

theorem drawRun_nil_refs (config : Config) (v : View) (cr : Cairo Drawn) (row col width : Int)
    : (drawRun config v cr row col width []).refs = cr.refs := by
  rw [drawRun_nil]
  rfl

theorem drawRun_cons_refs (config : Config) (v : View) (cr : Cairo Drawn) (row col width : Int)
    (first : Cell) (cells : List Cell)
    : ∃ bg fg, config.Owns bg ∧ config.Owns fg ∧
        (drawRun config v cr row col width (first :: cells)).refs
            = settle config first.attrs (locIsSelected v ⟨screenRow v row, col⟩) bg fg cr.refs := by
  unfold drawRun
  dsimp only
  rcases backgroundPaint_cases config first.attrs with ⟨bg, hbg, hb, heq⟩ | ⟨hb, r, g, b, heq⟩
  . rw [heq]
    rcases foregroundPaint_cases config first.attrs with ⟨fg, hfg, hf, heq'⟩ | ⟨hf, r', g', b', heq'⟩
    . refine ⟨bg, fg, hbg, hfg, ?_⟩
      rw [heq']
      simp [settle, takePattern, hb, hf, drawGlyphs_eq, paintRectangle_eq]
    . refine ⟨bg, bg, hbg, hbg, ?_⟩
      rw [heq']
      simp [settle, takePattern, hb, hf, drawGlyphs_eq, paintRectangle_eq, Cairo.destroy, Cairo.createRgb]
  . rw [heq]
    rcases foregroundPaint_cases config first.attrs with ⟨fg, hfg, hf, heq'⟩ | ⟨hf, r', g', b', heq'⟩
    . refine ⟨fg, fg, hfg, hfg, ?_⟩
      rw [heq']
      simp [settle, takePattern, hb, hf, drawGlyphs_eq, paintRectangle_eq, Cairo.destroy, Cairo.createRgb]
    . refine ⟨config.bgdefault, config.fgdefault, .bgdefault, .fgdefault, ?_⟩
      rw [heq']
      simp [settle, takePattern, hb, hf, drawGlyphs_eq, paintRectangle_eq, Cairo.destroy, Cairo.createRgb]

section Settle

variable {config : Config} {attrs : Attrs} {selected : Bool} {bg fg : Nat} {r : Refs}

/--
The colours of a run are not exchanged, or none of them is RGB, or both are and they differ.
-/
def SafePaint (attrs : Attrs) (selected : Bool) : Prop :=
  (attrs.inverse ^^ selected) = false
    ∨
  (attrs.bgcolor.isRgb = false ∧ attrs.fgcolor.isRgb = false)
    ∨
  (attrs.bgcolor.isRgb = true ∧ attrs.fgcolor.isRgb = true ∧ attrs.fgcolor.id ≠ attrs.bgcolor.id)

instance : Decidable (SafePaint attrs selected) := by
  unfold SafePaint
  infer_instance

theorem settle_of_safe (h : SafePaint attrs selected) (r : Refs)
    : r.Settles (settle config attrs selected bg fg r) := by
  unfold settle
  cases hb : attrs.bgcolor.isRgb with
  | false =>
    cases hf : attrs.fgcolor.isRgb with
    | false =>
      simp only [Bool.false_eq_true, if_false]
      apply Refs.Settles.refl r
    | true =>
      have hstay : (attrs.inverse ^^ selected) = false := by simpa [SafePaint, hb, hf] using h
      simp only [shownColors_of_stay _ _ hstay, Bool.false_eq_true, if_false, if_true]
      apply Refs.settles_create_destroy r
  | true =>
    cases hf : attrs.fgcolor.isRgb with
    | false =>
      have hstay : (attrs.inverse ^^ selected) = false := by simpa [SafePaint, hb, hf] using h
      simp only [shownColors_of_stay _ _ hstay, Bool.false_eq_true, if_false, if_true]
      apply Refs.settles_create_destroy r
    | true =>
      cases hswap : attrs.inverse ^^ selected with
      | false =>
        simp only [shownColors_of_stay _ _ hswap, if_true]
        apply Refs.settles_create_create (.inl ⟨rfl, rfl⟩)
      | true =>
        have hid : attrs.fgcolor.id ≠ attrs.bgcolor.id := by simpa [SafePaint, hb, hf, hswap] using h
        simp only [shownColors_of_differ _ _ hswap hid, if_true]
        apply Refs.settles_create_create (.inr ⟨rfl, rfl⟩)

theorem settle_count_le {p : Nat} (hp : p < r.next)
    : (settle config attrs selected bg fg r).count p ≤ r.count p := by
  have hcreate : r.create.count p = r.count p := Refs.create_count_of_lt hp
  have hcreate₂ : r.create.create.count p = r.create.count p :=
    Refs.create_count_of_lt (by rw [Refs.create_next]; omega)
  unfold settle
  cases attrs.bgcolor.isRgb with
  | false =>
    cases attrs.fgcolor.isRgb with
    | false => exact Nat.le_refl _
    | true => exact Nat.le_trans (Refs.destroy_count_le _ _ _) (Nat.le_of_eq hcreate)
  | true =>
    cases attrs.fgcolor.isRgb with
    | false => exact Nat.le_trans (Refs.destroy_count_le _ _ _) (Nat.le_of_eq hcreate)
    | true =>
      apply Nat.le_trans (Refs.destroy_count_le _ _ _)
      apply Nat.le_trans (Refs.destroy_count_le _ _ _)
      apply Nat.le_of_eq (hcreate₂.trans hcreate)

theorem settle_next_le : r.next ≤ (settle config attrs selected bg fg r).next := by
  unfold settle
  cases attrs.bgcolor.isRgb with
  | false =>
    cases attrs.fgcolor.isRgb with
    | false => exact Nat.le_refl _
    | true => exact Nat.le_succ _
  | true =>
    cases attrs.fgcolor.isRgb with
    | false => exact Nat.le_succ _
    | true => exact Nat.le_add_right _ 2

theorem count_create_destroy_lt {p : Nat} (h : 0 < r.count p) (hp : p < r.next)
    : (r.create.destroy p).count p < r.count p := by
  rw [← Refs.create_count_of_lt hp] at h ⊢
  apply Refs.destroy_count_lt h

theorem settle_of_not_safe (h : ¬SafePaint attrs selected) (halive : Alive config r)
    (hbg : config.Owns bg) (hfg : config.Owns fg)
    : ∃ p, config.Owns p ∧ (settle config attrs selected bg fg r).count p < r.count p := by
  have hlt {p : Nat} (hp : config.Owns p) : (r.create.destroy p).count p < r.count p :=
    count_create_destroy_lt (halive p hp) (halive.lt_next hp)
  have hlt₂ : (r.create.create.destroy config.fgdefault).count config.fgdefault
      < r.count config.fgdefault := by
    have hnext := halive.lt_next .fgdefault
    have hpos := halive _ .fgdefault
    rw [← Refs.create_count_of_lt hnext] at hpos ⊢
    apply count_create_destroy_lt hpos (by rw [Refs.create_next]; omega)
  have hswap : (attrs.inverse ^^ selected) = true := by
    by_contra hstay
    exact h (.inl (by simpa using hstay))
  unfold settle
  cases hb : attrs.bgcolor.isRgb with
  | false =>
    cases hf : attrs.fgcolor.isRgb with
    | false => exact absurd (.inr (.inl ⟨hb, hf⟩)) h
    | true =>
      by_cases hid : attrs.fgcolor.id = attrs.bgcolor.id
      . simp only [shownColors_of_same _ _ hswap hid, Bool.false_eq_true, if_false, if_true]
        exact ⟨config.bgdefault, .bgdefault, hlt .bgdefault⟩
      . simp only [shownColors_of_differ _ _ hswap hid, Bool.false_eq_true, if_false, if_true]
        exact ⟨bg, hbg, hlt hbg⟩
  | true =>
    cases hf : attrs.fgcolor.isRgb with
    | false =>
      by_cases hid : attrs.fgcolor.id = attrs.bgcolor.id
      . simp only [shownColors_of_same _ _ hswap hid, Bool.false_eq_true, if_false, if_true]
        exact ⟨config.fgdefault, .fgdefault, hlt .fgdefault⟩
      . simp only [shownColors_of_differ _ _ hswap hid, Bool.false_eq_true, if_false, if_true]
        exact ⟨fg, hfg, hlt hfg⟩
    | true =>
      by_cases hid : attrs.fgcolor.id = attrs.bgcolor.id
      . simp only [shownColors_of_same _ _ hswap hid, if_true]
        exact ⟨config.fgdefault, .fgdefault,
          Nat.lt_of_le_of_lt (Refs.destroy_count_le _ _ _) hlt₂⟩
      . exact absurd (.inr (.inr ⟨hb, hf, hid⟩)) h

end Settle

/--
The runs of cells that are drawn by one call, with their first cells' attributes and whether they
count as selected.
-/
def painted (v : View) (row col : Int) (width : Int) (cells : List Cell) : List (Attrs × Bool) :=
  if width = 0 then
    []
  else if isSplit v row col width cells then
    each col cells
  else
    match cells with
    | [] => []
    | first :: _ => [(first.attrs, selectedAt col)]
where
  selectedAt (col : Int) : Bool := locIsSelected v ⟨screenRow v row, col⟩
  each (col : Int) (cells : List Cell) : List (Attrs × Bool) :=
    match cells with
    | [] => []
    | cell :: cells => (cell.attrs, selectedAt col) :: each (col + cell.width) cells

inductive Settled (config : Config) : List (Attrs × Bool) → Refs → Refs → Prop where
  | nil (r : Refs) : Settled config [] r r
  | cons {attrs : Attrs} {selected : Bool} {rest : List (Attrs × Bool)} {bg fg : Nat}
      {r r' : Refs} (hbg : config.Owns bg) (hfg : config.Owns fg)
      (hrest : Settled config rest (settle config attrs selected bg fg r) r')
      : Settled config ((attrs, selected) :: rest) r r'

section DrawString

variable (config : Config) (v : View)

theorem settled_drawRun (cr : Cairo Drawn) (row col width : Int) (first : Cell) (cells : List Cell)
    : Settled config
        [(first.attrs, locIsSelected v ⟨screenRow v row, col⟩)] cr.refs
        (drawRun config v cr row col width (first :: cells)).refs := by
  obtain ⟨bg, fg, hbg, hfg, hrefs⟩ := drawRun_cons_refs config v cr row col width first cells
  rw [hrefs]
  exact .cons hbg hfg (.nil _)

theorem settled_drawEach (cr : Cairo Drawn) (row col : Int) (cells : List Cell)
    : Settled config (painted.each v row col cells) cr.refs
        (drawEach config v cr row col cells).refs := by
  induction cells generalizing cr col with
  | nil => exact .nil _
  | cons cell cells ih =>
    obtain ⟨bg, fg, hbg, hfg, hrefs⟩ :=
      drawRun_cons_refs config v cr row col cell.width cell []
    unfold painted.each drawEach
    apply Settled.cons hbg hfg
    rw [painted.selectedAt, ← hrefs]
    exact ih _ _

theorem settled_drawString (cr : Cairo Drawn) (row col width : Int) (cells : List Cell)
    : Settled config (painted v row col width cells) cr.refs
        (drawString config v cr row col width cells).refs := by
  unfold painted drawString
  split
  . exact .nil _
  . split
    . apply settled_drawEach config v cr row col cells
    . cases cells with
      | nil =>
        rw [drawRun_nil_refs]
        exact .nil _
      | cons first cells => exact settled_drawRun config v cr row col width first cells

end DrawString

section Runs

variable {config : Config} {runs : List (Attrs × Bool)} {r r' : Refs}

theorem Settled.settles (h : Settled config runs r r') (hsafe : ∀ x ∈ runs, SafePaint x.1 x.2)
    : r.Settles r' := by
  induction h with
  | nil r => exact Refs.Settles.refl r
  | cons hbg hfg hrest ih =>
    rw [List.forall_mem_cons] at hsafe
    apply (settle_of_safe hsafe.left _).trans (ih hsafe.right)

theorem Settled.count_le (h : Settled config runs r r') {p : Nat} (hp : p < r.next)
    : r'.count p ≤ r.count p := by
  induction h with
  | nil r => exact Nat.le_refl _
  | @cons attrs selected rest bg fg r r' hbg hfg hrest ih =>
    have hnext : r.next ≤ (settle config attrs selected bg fg r).next := settle_next_le
    apply Nat.le_trans (ih (by omega)) (settle_count_le hp)

theorem Alive.settles (halive : Alive config r) (h : r.Settles r') : Alive config r' := by
  intro p hp
  rw [(h.frame p (halive.lt_next hp)).left]
  exact halive p hp

-- A reference of the configuration that is given up for one run of cells does not come back with
-- the next ones.
theorem Settled.exists_count_lt (h : Settled config runs r r') (halive : Alive config r)
    (hexchanged : ¬∀ x ∈ runs, SafePaint x.1 x.2)
    : ∃ p, config.Owns p ∧ r'.count p < r.count p := by
  induction h with
  | nil r => exact absurd (by simp) hexchanged
  | @cons attrs selected rest bg fg r r' hbg hfg hrest ih =>
    by_cases hfirst : SafePaint attrs selected
    . have hsettles : r.Settles (settle config attrs selected bg fg r) := settle_of_safe hfirst r
      have hrestExchanged : ¬∀ x ∈ rest, SafePaint x.1 x.2 := by
        intro hsafe
        exact hexchanged (List.forall_mem_cons.mpr ⟨hfirst, hsafe⟩)
      obtain ⟨p, hp, hlt⟩ := ih (halive.settles hsettles) hrestExchanged
      rw [(hsettles.frame p (halive.lt_next hp)).left] at hlt
      exact ⟨p, hp, hlt⟩
    . obtain ⟨p, hp, hlt⟩ := settle_of_not_safe hfirst halive hbg hfg
      have hnext : r.next ≤ (settle config attrs selected bg fg r).next := settle_next_le
      have := halive.lt_next hp
      exact ⟨p, hp, Nat.lt_of_le_of_lt (hrest.count_le (by omega)) hlt⟩

end Runs

structure DrawCall where
  view : View
  row : Int
  col : Int
  width : Int
  cells : List Cell

def DrawCall.run (call : DrawCall) (config : Config) (cr : Cairo Drawn) : Cairo Drawn :=
  drawString config call.view cr call.row call.col call.width call.cells

/--
None of the runs of cells that the call draws has its colours exchanged while one of them is RGB and
the other is not, or while both are RGB and the same.
-/
def DrawCall.Safe (call : DrawCall) : Prop :=
  ∀ x ∈ painted call.view call.row call.col call.width call.cells, SafePaint x.1 x.2

/--
A call has left the references to the patterns of the configuration as they were, and has destroyed
every pattern that it created once.
-/
structure Balanced (config : Config) (r r' : Refs) : Prop where
  owned : ∀ p, config.Owns p → r'.count p = r.count p
  created : ∀ p, r.next ≤ p → p < r'.next →
    r'.count p = 0 ∧ r'.destroyed.count p = r.destroyed.count p + 1
  alive : Alive config r'

def BalancedRun (config : Config) (calls : List DrawCall) (cr : Cairo Drawn) : Prop :=
  match calls with
  | [] => True
  | call :: calls =>
    Balanced config cr.refs (call.run config cr).refs ∧
      BalancedRun config calls (call.run config cr)

theorem balanced_iff {config : Config} {cr : Cairo Drawn} (halive : Alive config cr.refs)
    (call : DrawCall)
    : Balanced config cr.refs (call.run config cr).refs ↔ call.Safe := by
  have hsettled := settled_drawString config call.view cr call.row call.col call.width call.cells
  constructor
  . intro hbalanced
    by_contra hexchanged
    obtain ⟨p, hp, hlt⟩ := hsettled.exists_count_lt halive hexchanged
    have := hbalanced.owned p hp
    unfold DrawCall.run at this
    omega
  . intro hsafe
    have hsettles := hsettled.settles hsafe
    constructor
    . intro p hp
      apply (hsettles.frame p (halive.lt_next hp)).left
    . apply hsettles.created
    . apply halive.settles hsettles

/--
A run of draws keeps the books on the patterns exactly as long as no call meets exchanged colours of
which one is RGB and the other is not, or both are and have the same identity.
-/
theorem balancedRun_iff {config : Config} {cr : Cairo Drawn} (halive : Alive config cr.refs)
    (calls : List DrawCall)
    : BalancedRun config calls cr ↔ ∀ call ∈ calls, call.Safe := by
  induction calls generalizing cr with
  | nil => simp [BalancedRun]
  | cons call calls ih =>
    unfold BalancedRun
    rw [List.forall_mem_cons]
    constructor
    . rintro ⟨hbalanced, hrest⟩
      exact ⟨(balanced_iff halive call).mp hbalanced, (ih hbalanced.alive).mp hrest⟩
    . rintro ⟨hsafe, hrest⟩
      have hbalanced := (balanced_iff halive call).mpr hsafe
      exact ⟨hbalanced, (ih hbalanced.alive).mpr hrest⟩

def defaultConfig : Config where
  fgdefault := 2
  bgdefault := 3
  colors := fun idx => 4 + idx.toNat
  boldIsBright := true
  boldIsBold := true

def defaultCairo : Cairo Drawn where
  refs := Refs.held 260
  rgb := fun _ => none
  source := none
  saved := []
  drawn := []

theorem alive_default : Alive defaultConfig defaultCairo.refs := by
  have hcount : ∀ p, p < 260 → 0 < defaultCairo.refs.count p := by
    intro p hp
    rw [defaultCairo, Refs.held_count_of_lt hp]
    decide
  intro p hp
  cases hp with
  | fgdefault => exact hcount 2 (by decide)
  | bgdefault => exact hcount 3 (by decide)
  | colors idx =>
    have := idx.toNat_lt
    exact hcount (4 + idx.toNat) (by omega)

def plainView : View where
  rowTop := 0
  maxCol := 80
  rowVisibleOffset := 0
  hasSelection := false
  selectionStart := ⟨0, 0⟩
  selectionEnd := ⟨0, 0⟩
  rowMaxCol := fun _ => 80
  glyphsAreMonospace := fun _ => true

def inverseCall (fgcolor : Color) : DrawCall where
  view := plainView
  row := 0
  col := 0
  width := 1
  cells := [⟨[97], false, ⟨fgcolor, ⟨.rgb 255 128 0, 33587⟩, false, false, false, true⟩⟩]

theorem balancedRun_inverse
    : BalancedRun defaultConfig [inverseCall ⟨.rgb 0 0 255, 16711680⟩] defaultCairo := by
  apply (balancedRun_iff alive_default _).mpr
  unfold DrawCall.Safe
  decide

theorem not_balanced_inverse
    : defaultCairo.refs.count defaultConfig.fgdefault = 1
        ∧
      ((inverseCall ⟨.default, 0⟩).run defaultConfig defaultCairo).refs.count
        defaultConfig.fgdefault = 0
        ∧
      ((inverseCall ⟨.default, 0⟩).run defaultConfig defaultCairo).refs.count
        defaultCairo.refs.next = 1
        ∧
      ¬BalancedRun defaultConfig [inverseCall ⟨.default, 0⟩] defaultCairo := by
  have hgone : ((inverseCall ⟨.default, 0⟩).run defaultConfig defaultCairo).refs.count
      defaultConfig.fgdefault = 0 := by
    decide
  refine ⟨by decide, hgone, by decide, ?_⟩
  intro hrun
  have := hrun.left.alive _ .fgdefault
  rw [hgone] at this
  cases this

end Display
end Runes
