import Mathlib.Data.List.Forall2

/-!
This module contains pictures: rectangles of pixels that are filled one after the other. Where the
rectangles are made of the cells of a grid, a pixel belongs to the cell that it is divided into.
-/

namespace Runes
namespace Raster

structure Rect where
  x : Int
  y : Int
  width : Int
  height : Int
  deriving DecidableEq

def Rect.contains (r : Rect) (x y : Int) : Bool :=
  r.x ≤ x && x < r.x + r.width && (r.y ≤ y && y < r.y + r.height)

-- The rectangle of `rows` times `cols` cells that are each `width` times `height` pixels large.
def Rect.ofCells (width height row col rows cols : Int) : Rect :=
  { x := col * width, y := row * height, width := cols * width, height := rows * height }

def Picture (κ : Type) := Int → Int → Option κ

namespace Picture

variable {κ : Type}

def blank : Picture κ := fun _ _ => none

def fill (picture : Picture κ) (r : Rect) (k : κ) : Picture κ :=
  fun x y => if r.contains x y then some k else picture x y

def fillAll (picture : Picture κ) (layers : List (Rect × κ)) : Picture κ :=
  layers.foldl (fun picture layer => picture.fill layer.fst layer.snd) picture

variable {picture : Picture κ} {layers : List (Rect × κ)} {x y : Int}

theorem fillAll_of_outside (h : ∀ layer ∈ layers, layer.fst.contains x y = false)
    : picture.fillAll layers x y = picture x y := by
  induction layers generalizing picture with
  | nil => rfl
  | cons layer layers ih =>
    obtain ⟨hlayer, hlayers⟩ := List.forall_mem_cons.mp h
    have hfill : picture.fill layer.fst layer.snd x y = picture x y := by
      unfold fill
      rw [hlayer, if_neg Bool.false_ne_true]
    exact (ih hlayers).trans hfill

/-- What all the layers over a pixel have in common is true of what is to be seen there. -/
theorem fillAll_of_mem {P : κ → Prop}
    (hall : ∀ layer ∈ layers, layer.fst.contains x y = true → P layer.snd)
    (hmem : ∃ layer ∈ layers, layer.fst.contains x y = true)
    : ∃ k, picture.fillAll layers x y = some k ∧ P k := by
  induction layers generalizing picture with
  | nil =>
    obtain ⟨_, hmem, _⟩ := hmem
    cases hmem
  | cons layer layers ih =>
    obtain ⟨hlayer, hlayers⟩ := List.forall_mem_cons.mp hall
    by_cases hlater : ∃ layer ∈ layers, layer.fst.contains x y = true
    . exact ih hlayers hlater
    . push Not at hlater
      have hcontains : layer.fst.contains x y = true := by
        obtain ⟨other, hother, hcontains⟩ := hmem
        rcases List.mem_cons.mp hother with rfl | hother
        . exact hcontains
        . exact absurd hcontains (hlater other hother)
      refine ⟨layer.snd, ?_, hlayer hcontains⟩
      have houtside : (picture.fill layer.fst layer.snd).fillAll layers x y
          = picture.fill layer.fst layer.snd x y :=
        fillAll_of_outside fun other hother => by simpa using hlater other hother
      apply houtside.trans
      unfold fill
      rw [if_pos hcontains]

/-- Rectangles that are filled with related colours make up related pictures. -/
theorem fillAll_rel {κ' : Type} {R : κ → κ' → Prop} {picture' : Picture κ'} {layers' : List (Rect × κ')}
    (h : List.Forall₂ (fun l l' => l'.fst = l.fst ∧ R l.snd l'.snd) layers layers')
    (hpicture : Option.Rel R (picture x y) (picture' x y))
    : Option.Rel R (picture.fillAll layers x y) (picture'.fillAll layers' x y) := by
  induction h generalizing picture picture' with
  | nil => exact hpicture
  | @cons layer layer' layers layers' hlayer h ih =>
    have hfill : Option.Rel R (picture.fill layer.fst layer.snd x y)
        (picture'.fill layer'.fst layer'.snd x y) := by
      unfold fill
      rw [hlayer.left]
      split
      . exact .some hlayer.right
      . exact hpicture
    exact ih hfill

end Picture

section

variable {width height row col rows cols x y : Int}

/-- The pixels of a rectangle of cells are those that are divided into one of the cells. -/
theorem contains_ofCells (hwidth : 0 < width) (hheight : 0 < height)
    : (Rect.ofCells width height row col rows cols).contains x y = true
        ↔ (col ≤ x / width ∧ x / width < col + cols) ∧ (row ≤ y / height ∧ y / height < row + rows) := by
  unfold Rect.ofCells Rect.contains
  simp only [Bool.and_eq_true, decide_eq_true_eq]
  rw [← Int.add_mul, ← Int.add_mul, Int.le_ediv_iff_mul_le hwidth, Int.ediv_lt_iff_lt_mul hwidth,
    Int.le_ediv_iff_mul_le hheight, Int.ediv_lt_iff_lt_mul hheight]

end

end Raster
end Runes
