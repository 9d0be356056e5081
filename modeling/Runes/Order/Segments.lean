import Mathlib.Logic.Relation
import Mathlib.Order.Cover
import Mathlib.Order.Bounds.Basic
import Mathlib.Order.Interval.Set.Basic

/-!
This module contains the theory of segments: the parts of a linear order that hang together within a set,
where not every element goes on in the one that comes after it.
-/

namespace Segments

open Relation

variable {α β : Type} {next : α → α → Prop} {W S : Set α}

-- A step that does not leave `W`.
def Links (next : α → α → Prop) (W : Set α) (p q : α) : Prop :=
  next p q ∧ p ∈ W ∧ q ∈ W

/-- A part of `W` that hangs together. -/
structure IsSegment (next : α → α → Prop) (W S : Set α) : Prop where
  subset : S ⊆ W
  linked : ∀ p ∈ S, ∀ q ∈ S,
    ReflTransGen (Links next S) p q ∨ ReflTransGen (Links next S) q p

/-- Where one gets by going back from `c` as far as possible. -/
structure IsFirst (next : α → α → Prop) (W : Set α) (b c : α) : Prop where
  linked : ReflTransGen (Links next W) b c
  first : ∀ p ∈ W, ¬next p b

/-- Where one gets by going on from `c` as far as possible. -/
structure IsLast (next : α → α → Prop) (W : Set α) (c e : α) : Prop where
  linked : ReflTransGen (Links next W) c e
  last : ∀ p ∈ W, ¬next e p

theorem Links.mono (hsub : S ⊆ W) {p q : α} (h : Links next S p q) : Links next W p q :=
  ⟨h.left, hsub h.right.left, hsub h.right.right⟩

theorem linked_mono (hsub : S ⊆ W) {p q : α} (h : ReflTransGen (Links next S) p q)
    : ReflTransGen (Links next W) p q :=
  ReflTransGen.mono (fun _ _ => Links.mono hsub) p q h

theorem mem_left_of_linked {p q : α} (h : ReflTransGen (Links next W) p q) (hq : q ∈ W)
    : p ∈ W := by
  rcases h.cases_head with rfl | ⟨r, hlink, _⟩
  . exact hq
  . exact hlink.right.left

theorem mem_right_of_linked {p q : α} (h : ReflTransGen (Links next W) p q) (hp : p ∈ W)
    : q ∈ W := by
  rcases h.cases_tail with rfl | ⟨r, _, hlink⟩
  . exact hp
  . exact hlink.right.right

theorem IsFirst.step {b c d : α} (h : IsFirst next W b c) (hnext : next c d) (hc : c ∈ W)
    (hd : d ∈ W)
    : IsFirst next W b d :=
  ⟨h.linked.tail ⟨hnext, hc, hd⟩, h.first⟩

theorem IsLast.step {c d e : α} (h : IsLast next W d e) (hnext : next c d) (hc : c ∈ W)
    (hd : d ∈ W)
    : IsLast next W c e :=
  ⟨h.linked.head ⟨hnext, hc, hd⟩, h.last⟩

section

variable [LinearOrder α] (hnext : ∀ p q, next p q → p ⋖ q)

include hnext

theorem le_of_linked {p q : α} (h : ReflTransGen (Links next W) p q) : p ≤ q := by
  induction h with
  | refl => exact le_refl p
  | tail _ hlink ih => exact ih.trans (hnext _ _ hlink.left).le

/-- The steps from one element to another pass through every element between them. -/
theorem linked_between {p q r : α} (h : ReflTransGen (Links next W) p q) (hpr : p ≤ r) (hrq : r ≤ q)
    : ReflTransGen (Links next (Set.Icc p q)) p r ∧ ReflTransGen (Links next W) p r
        ∧ ReflTransGen (Links next W) r q := by
  induction h using ReflTransGen.head_induction_on with
  | refl =>
    have heq := le_antisymm hpr hrq
    subst heq
    exact ⟨.refl, .refl, .refl⟩
  | @head p p' hlink hrest ih =>
    have hcov := hnext p p' hlink.left
    rcases hpr.eq_or_lt with rfl | hlt
    . exact ⟨.refl, .refl, hrest.head hlink⟩
    . have hp' : p' ≤ r := hcov.ge_of_gt hlt
      have hp'q := hp'.trans hrq
      obtain ⟨hin, hleft, hright⟩ := ih hp'
      have hin : ReflTransGen (Links next (Set.Icc p q)) p' r :=
        linked_mono (Set.Icc_subset_Icc_left hcov.le) hin
      have hlink' : Links next (Set.Icc p q) p p' :=
        ⟨hlink.left, ⟨le_refl p, hcov.le.trans hp'q⟩, ⟨hcov.le, hp'q⟩⟩
      exact ⟨hin.head hlink', hleft.head hlink, hright⟩

theorem linked_icc {b e p q : α} (h : ReflTransGen (Links next W) b e) (hp : b ≤ p) (hpq : p ≤ q)
    (hq : q ≤ e)
    : ReflTransGen (Links next (Set.Icc b e)) p q := by
  have hbp := (linked_between hnext h hp (hpq.trans hq)).right.right
  have hin := (linked_between hnext hbp hpq hq).left
  exact linked_mono (Set.Icc_subset_Icc_left hp) hin

theorem isSegment_icc {b e : α} (h : ReflTransGen (Links next W) b e) (hb : b ∈ W)
    : IsSegment next W (Set.Icc b e) where
  subset p hp := mem_right_of_linked (linked_between hnext h hp.left hp.right).right.left hb
  linked p hp q hq := by
    rcases le_total p q with hpq | hqp
    . apply Or.inl (linked_icc hnext h hp.left hpq hq.right)
    . apply Or.inr (linked_icc hnext h hq.left hqp hp.right)

theorem IsFirst.le {b c p : α} (h : IsFirst next W b c) (hp : ReflTransGen (Links next W) p c)
    : b ≤ p := by
  by_contra hlt
  have hbc := le_of_linked hnext h.linked
  have hpb := (linked_between hnext hp (le_of_not_ge hlt) hbc).right.left
  rcases hpb.cases_tail with rfl | ⟨q, _, hlink⟩
  . exact hlt (le_refl b)
  . exact h.first q hlink.right.left hlink.left

theorem IsLast.le {c e p : α} (h : IsLast next W c e) (hp : ReflTransGen (Links next W) c p)
    : p ≤ e := by
  by_contra hlt
  have hce := le_of_linked hnext h.linked
  have hep := (linked_between hnext hp hce (le_of_not_ge hlt)).right.right
  rcases hep.cases_head with rfl | ⟨q, hlink, _⟩
  . exact hlt (le_refl e)
  . exact h.last q hlink.right.right hlink.left

-- `f` is what comes out where one cannot go further.
theorem exists_isFirst {c d : α} (hcd : next c d) (hd : d ∈ W) {f : α → β} {x : β}
    (hstop : c ∉ W → x = f d) (hgo : c ∈ W → ∃ b, IsFirst next W b c ∧ x = f b)
    : ∃ b, IsFirst next W b d ∧ x = f b := by
  by_cases hc : c ∈ W
  . have ⟨b, hb, hx⟩ := hgo hc
    exact ⟨b, hb.step hcd hc hd, hx⟩
  . refine ⟨d, ⟨.refl, ?_⟩, hstop hc⟩
    intro p hp hpd
    have heq := (hnext p d hpd).unique_left (hnext c d hcd)
    subst heq
    exact hc hp

theorem exists_isLast {c d : α} (hcd : next c d) (hc : c ∈ W) {f : α → β} {x : β}
    (hstop : d ∉ W → x = f c) (hgo : d ∈ W → ∃ e, IsLast next W d e ∧ x = f e)
    : ∃ e, IsLast next W c e ∧ x = f e := by
  by_cases hd : d ∈ W
  . have ⟨e, he, hx⟩ := hgo hd
    exact ⟨e, he.step hcd hc hd, hx⟩
  . refine ⟨c, ⟨.refl, ?_⟩, hstop hd⟩
    intro p hp hcp
    have heq := (hnext c p hcp).unique_right (hnext c d hcd)
    subst heq
    exact hd hp

/-- From where one gets by going back to where one gets by going on is the largest segment. -/
theorem isGreatest_icc {b c e : α} (hb : IsFirst next W b c) (he : IsLast next W c e) (hc : c ∈ W)
    : IsGreatest {S | c ∈ S ∧ IsSegment next W S} (Set.Icc b e) := by
  have hbc := le_of_linked hnext hb.linked
  have hce := le_of_linked hnext he.linked
  refine ⟨⟨⟨hbc, hce⟩, ?_⟩, ?_⟩
  . apply isSegment_icc hnext (hb.linked.trans he.linked)
    apply mem_left_of_linked hb.linked hc
  . rintro S ⟨hcS, hS⟩ p hp
    rcases hS.linked p hp c hcS with hpc | hcp
    . have hpc := linked_mono hS.subset hpc
      exact ⟨hb.le hnext hpc, (le_of_linked hnext hpc).trans hce⟩
    . have hcp := linked_mono hS.subset hcp
      exact ⟨hbc.trans (le_of_linked hnext hcp), he.le hnext hcp⟩

/-- It is the same one from everywhere in it. -/
theorem ends_eq {b c e b' c' e' : α} (hb : IsFirst next W b c) (he : IsLast next W c e)
    (hc : c ∈ W) (hb' : IsFirst next W b' c') (he' : IsLast next W c' e') (hc' : c' ∈ Set.Icc b e)
    : b' = b ∧ e' = e := by
  obtain ⟨⟨hmem, hseg⟩, hgreatest⟩ := isGreatest_icc hnext hb he hc
  obtain ⟨⟨hmem', hseg'⟩, hgreatest'⟩ := isGreatest_icc hnext hb' he' (hseg.subset hc')
  have hsub : Set.Icc b e ⊆ Set.Icc b' e' := hgreatest' ⟨hc', hseg⟩
  have hsub' : Set.Icc b' e' ⊆ Set.Icc b e := hgreatest ⟨hsub hmem, hseg'⟩
  have hle := hmem.left.trans hmem.right
  have hle' := hmem'.left.trans hmem'.right
  have hin := (Set.Icc_subset_Icc_iff hle).mp hsub
  have hin' := (Set.Icc_subset_Icc_iff hle').mp hsub'
  exact ⟨le_antisymm hin.left hin'.left, le_antisymm hin'.right hin.right⟩

end

end Segments
