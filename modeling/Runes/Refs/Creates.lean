import Mathlib.Data.List.Nodup
import Runes.Refs.Basic

/-!
This module contains objects that are held once each, by whoever has created them, until he destroys them.
-/

namespace Refs

/--
`r'` is `r` with the new objects `ids`, which are held once each. What was created beside them has been
destroyed once, and no other object is concerned.
-/
structure Creates (r r' : Refs) (ids : List Nat) : Prop where
  nodup : ids.Nodup
  next_le : r.next ≤ r'.next
  bounds : ∀ p ∈ ids, r.next ≤ p ∧ p < r'.next
  isHeld : ∀ p ∈ ids, r'.count p = 1 ∧ r'.destroyed.count p = r.destroyed.count p
  gone : ∀ p, p ∉ ids → r.next ≤ p → p < r'.next →
    r'.count p = 0 ∧ r'.destroyed.count p = r.destroyed.count p + 1
  frame : ∀ p < r.next, r'.count p = r.count p ∧ r'.destroyed.count p = r.destroyed.count p
  later : ∀ p, r'.next ≤ p → r'.destroyed.count p = r.destroyed.count p

namespace Creates

variable {r r' : Refs} {ids ids' : List Nat} {p : Nat}

theorem refl (r : Refs) : Creates r r [] where
  nodup := List.nodup_nil
  next_le := Nat.le_refl _
  bounds := by simp
  isHeld := by simp
  gone := by
    intro p _ hle hlt
    omega
  frame := by simp
  later := by simp

theorem perm (h : Creates r r' ids) (hperm : ids.Perm ids') : Creates r r' ids' where
  nodup := hperm.nodup_iff.mp h.nodup
  next_le := h.next_le
  bounds p hp := h.bounds p (hperm.mem_iff.mpr hp)
  isHeld p hp := h.isHeld p (hperm.mem_iff.mpr hp)
  gone p hp := h.gone p (fun hmem => hp (hperm.mem_iff.mp hmem))
  frame := h.frame
  later := h.later

theorem create (h : Creates r r' ids) : Creates r r'.create (r'.next :: ids) where
  nodup := by
    rw [List.nodup_cons]
    refine ⟨fun hmem => ?_, h.nodup⟩
    have := (h.bounds _ hmem).right
    omega
  next_le := Nat.le_succ_of_le h.next_le
  bounds := by
    intro p hp
    have := h.next_le
    rw [create_next]
    rcases List.mem_cons.mp hp with rfl | hp
    . omega
    . have := h.bounds p hp
      omega
  isHeld := by
    intro p hp
    rw [create_count, create_destroyed]
    rcases List.mem_cons.mp hp with rfl | hp
    . rw [if_pos rfl]
      exact ⟨rfl, h.later _ (Nat.le_refl _)⟩
    . have := h.bounds p hp
      rw [if_neg (by omega)]
      exact h.isHeld p hp
  gone := by
    intro p hp hle hlt
    rw [List.mem_cons, not_or] at hp
    rw [create_next] at hlt
    rw [create_count, create_destroyed, if_neg hp.left]
    exact h.gone p hp.right hle (by omega)
  frame := by
    intro p hp
    have := h.next_le
    rw [create_count, create_destroyed, if_neg (by omega)]
    exact h.frame p hp
  later := by
    intro p hp
    rw [create_next] at hp
    rw [create_destroyed]
    exact h.later p (by omega)

theorem destroy (h : Creates r r' (p :: ids)) : Creates r (r'.destroy p) ids where
  nodup := (List.nodup_cons.mp h.nodup).right
  next_le := h.next_le
  bounds q hq := h.bounds q (List.mem_cons_of_mem p hq)
  isHeld := by
    intro q hq
    have hne : q ≠ p := by
      rintro rfl
      exact (List.nodup_cons.mp h.nodup).left hq
    rw [destroy_count, if_neg hne, destroy_destroyed, List.count_cons_of_ne hne.symm]
    exact h.isHeld q (List.mem_cons_of_mem p hq)
  gone := by
    intro q hq hle hlt
    by_cases heq : q = p
    . subst heq
      obtain ⟨hcount, hdestroyed⟩ := h.isHeld q List.mem_cons_self
      rw [destroy_count, if_pos rfl, destroy_destroyed, List.count_cons_self, hcount, hdestroyed]
      exact ⟨rfl, rfl⟩
    . rw [destroy_count, if_neg heq, destroy_destroyed, List.count_cons_of_ne (Ne.symm heq)]
      refine h.gone q (fun hmem => ?_) hle hlt
      rcases List.mem_cons.mp hmem with hmem | hmem
      . exact heq hmem
      . exact hq hmem
  frame := by
    intro q hq
    have := (h.bounds p List.mem_cons_self).left
    have hne : q ≠ p := by omega
    rw [destroy_count, if_neg hne, destroy_destroyed, List.count_cons_of_ne hne.symm]
    exact h.frame q hq
  later := by
    intro q hq
    rw [destroy_next] at hq
    have := (h.bounds p List.mem_cons_self).right
    have hne : q ≠ p := by omega
    rw [destroy_destroyed, List.count_cons_of_ne hne.symm]
    exact h.later q hq

/-- When none of the objects is left, all that were created have been destroyed once. -/
theorem settles (h : Creates r r' []) : Settles r r' where
  next_le := h.next_le
  frame := h.frame
  created p := h.gone p (List.not_mem_nil)
  later := h.later

end Creates

end Refs
