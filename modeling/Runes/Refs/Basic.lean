import Mathlib.Data.List.Basic

/-!
This module contains objects that are kept alive by counting the references to them. Whoever creates
an object holds one reference to it, an object without references is gone.
-/

/--
The numbers of references, the identity of the next object and the references that were given up on
purpose by the program itself, the last one first.
-/
structure Refs where
  count : Nat → Nat
  next : Nat
  destroyed : List Nat
  fresh : ∀ p, next ≤ p → count p = 0

namespace Refs

def empty : Refs where
  count := fun _ => 0
  next := 0
  destroyed := []
  fresh := by simp

def create (r : Refs) : Refs where
  count := fun p => if p = r.next then 1 else r.count p
  next := r.next + 1
  destroyed := r.destroyed
  fresh := by
    intro p hp
    rw [if_neg (by omega)]
    apply r.fresh
    omega

def held (n : Nat) : Refs where
  count := fun p => if p < n then 1 else 0
  next := n
  destroyed := []
  fresh := by
    intro p hp
    rw [if_neg (by omega)]

def reference (r : Refs) (p : Nat) : Refs :=
  if h : r.count p = 0 then
    r
  else
    {
      r with
      count := fun q => if q = p then r.count q + 1 else r.count q
      fresh := by
        intro q hq
        rw [if_neg, r.fresh q hq]
        intro heq
        exact h (heq ▸ r.fresh q hq)
    }

def release (r : Refs) (p : Nat) : Refs :=
  {
    r with
    count := fun q => if q = p then r.count q - 1 else r.count q
    fresh := by
      intro q hq
      have := r.fresh q hq
      split
      . omega
      . exact this
  }

def destroy (r : Refs) (p : Nat) : Refs :=
  { r.release p with destroyed := p :: r.destroyed }

@[ext]
theorem ext {r r' : Refs} (hcount : r.count = r'.count) (hnext : r.next = r'.next)
    (hdestroyed : r.destroyed = r'.destroyed)
    : r = r' := by
  cases r
  cases r'
  simp_all

@[simp]
theorem create_count (r : Refs) (p : Nat)
    : r.create.count p = if p = r.next then 1 else r.count p := rfl

@[simp]
theorem create_next (r : Refs) : r.create.next = r.next + 1 := rfl

@[simp]
theorem create_destroyed (r : Refs) : r.create.destroyed = r.destroyed := rfl

theorem held_count_of_lt {n p : Nat} (h : p < n) : (held n).count p = 1 := if_pos h

theorem create_count_of_lt {r : Refs} {p : Nat} (h : p < r.next) : r.create.count p = r.count p := by
  rw [create_count, if_neg (by omega)]

@[simp]
theorem release_count (r : Refs) (p q : Nat)
    : (r.release p).count q = if q = p then r.count q - 1 else r.count q := rfl

@[simp]
theorem release_next (r : Refs) (p : Nat) : (r.release p).next = r.next := rfl

@[simp]
theorem release_destroyed (r : Refs) (p : Nat) : (r.release p).destroyed = r.destroyed := rfl

@[simp]
theorem destroy_count (r : Refs) (p q : Nat)
    : (r.destroy p).count q = if q = p then r.count q - 1 else r.count q := rfl

@[simp]
theorem destroy_next (r : Refs) (p : Nat) : (r.destroy p).next = r.next := rfl

@[simp]
theorem destroy_destroyed (r : Refs) (p : Nat)
    : (r.destroy p).destroyed = p :: r.destroyed := rfl

theorem destroy_count_le (r : Refs) (p q : Nat) : (r.destroy p).count q ≤ r.count q := by
  rw [destroy_count]
  split
  . omega
  . apply Nat.le_refl

theorem destroy_count_lt {r : Refs} {p : Nat} (h : 0 < r.count p)
    : (r.destroy p).count p < r.count p := by
  rw [destroy_count, if_pos rfl]
  omega

theorem reference_count (r : Refs) (p q : Nat)
    : (r.reference p).count q = if q = p ∧ 0 < r.count p then r.count q + 1 else r.count q := by
  unfold reference
  split
  . next h => rw [if_neg (by omega)]
  . next h =>
    have hpos : 0 < r.count p := Nat.pos_of_ne_zero h
    simp only [hpos, and_true]

@[simp]
theorem reference_next (r : Refs) (p : Nat) : (r.reference p).next = r.next := by
  unfold reference
  split
  . rfl
  . rfl

@[simp]
theorem reference_destroyed (r : Refs) (p : Nat)
    : (r.reference p).destroyed = r.destroyed := by
  unfold reference
  split
  . rfl
  . rfl

theorem release_reference (r : Refs) (p : Nat) : (r.reference p).release p = r := by
  ext q
  . rw [release_count, reference_count]
    by_cases heq : q = p
    . subst heq
      by_cases hpos : 0 < r.count q
      . simp [hpos]
      . simp [hpos]
        omega
    . simp [heq]
  . simp
  . simp

theorem release_reference_comm (r : Refs) {p q : Nat} (h : p ≠ q)
    : (r.reference p).release q = (r.release q).reference p := by
  ext x
  . rw [release_count, reference_count, reference_count, release_count, release_count, if_neg h]
    by_cases hx : x = p
    . have hxq : x ≠ q := fun heq => h (hx ▸ heq)
      simp [hx, h]
    . simp [hx]
  . simp
  . simp

/--
Every object that was created has been destroyed once, and no other object is concerned.
-/
structure Settles (r r' : Refs) : Prop where
  next_le : r.next ≤ r'.next
  frame : ∀ p < r.next, r'.count p = r.count p ∧ r'.destroyed.count p = r.destroyed.count p
  created : ∀ p, r.next ≤ p → p < r'.next →
    r'.count p = 0 ∧ r'.destroyed.count p = r.destroyed.count p + 1
  later : ∀ p, r'.next ≤ p → r'.destroyed.count p = r.destroyed.count p

theorem Settles.refl (r : Refs) : Settles r r := by
  constructor
  . omega
  . simp
  . intro p _ _
    omega
  . simp

theorem Settles.trans {r₁ r₂ r₃ : Refs} (h₁₂ : Settles r₁ r₂) (h₂₃ : Settles r₂ r₃)
    : Settles r₁ r₃ := by
  have hle₁ := h₁₂.next_le
  have hle₂ := h₂₃.next_le
  constructor
  . omega
  . intro p hp
    have hfst := h₁₂.frame p hp
    have hsnd := h₂₃.frame p (by omega)
    omega
  . intro p hle hlt
    by_cases hp : p < r₂.next
    . have hfst := h₁₂.created p hle hp
      have hsnd := h₂₃.frame p hp
      omega
    . have hfst := h₁₂.later p (by omega)
      have hsnd := h₂₃.created p (by omega) hlt
      omega
  . intro p hp
    have hfst := h₁₂.later p (by omega)
    have hsnd := h₂₃.later p hp
    omega

theorem settles_create_destroy (r : Refs) : Settles r (r.create.destroy r.next) := by
  constructor
  . simp
  . intro p hp
    have hne : p ≠ r.next := by omega
    simp [hne, Ne.symm hne]
  . intro p hle hlt
    have heq : p = r.next := by simp at hlt; omega
    simp [heq]
  . intro p hp
    have hne : r.next ≠ p := by simp at hp; omega
    simp [hne]

theorem settles_create_create {r : Refs} {p q : Nat}
    (h : (p = r.next ∧ q = r.next + 1) ∨ (p = r.next + 1 ∧ q = r.next))
    : Settles r (((r.create).create.destroy p).destroy q) := by
  constructor
  . simp
    omega
  . intro x hx
    have hxp : x ≠ p := by omega
    have hxq : x ≠ q := by omega
    have hx₀ : x ≠ r.next := by omega
    have hx₁ : x ≠ r.next + 1 := by omega
    simp [hxp, hxq, hx₀, hx₁, Ne.symm hxp, Ne.symm hxq]
  . intro x hle hlt
    simp only [destroy_next, create_next] at hlt
    rcases h with ⟨rfl, rfl⟩ | ⟨rfl, rfl⟩
    . obtain rfl | rfl : x = r.next ∨ x = r.next + 1 := by omega
      . simp
      . simp
    . obtain rfl | rfl : x = r.next ∨ x = r.next + 1 := by omega
      . simp
      . simp
  . intro x hx
    simp only [destroy_next, create_next] at hx
    have hxp : p ≠ x := by omega
    have hxq : q ≠ x := by omega
    simp [hxp, hxq]

end Refs
