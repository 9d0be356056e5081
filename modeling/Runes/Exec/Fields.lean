import Mathlib.Data.List.Induction

/-!
This module contains records whose fields can be named: each of them can be read and written on its
own.
-/

namespace Exec

structure Fields (σ : Type) {φ : Type} (Value : φ → Type) where
  get : σ → (f : φ) → Value f
  put : σ → (f : φ) → Value f → σ
  get_put_self : ∀ s f x, get (put s f x) f = x
  get_put_of_ne : ∀ s f g x, f ≠ g → get (put s g x) f = get s f
  ext : ∀ s s', (∀ f, get s f = get s' f) → s = s'

namespace Fields

variable {σ φ : Type} {Value : φ → Type} (F : Fields σ Value)

theorem put_comm (s : σ) {f g : φ} (h : f ≠ g) (x : Value f) (y : Value g)
    : F.put (F.put s f x) g y = F.put (F.put s g y) f x := by
  apply F.ext
  intro k
  by_cases hf : k = f
  . subst hf
    rw [F.get_put_of_ne _ k g y h, F.get_put_self, F.get_put_self]
  . rw [F.get_put_of_ne _ k f x hf]
    by_cases hg : k = g
    . subst hg
      rw [F.get_put_self, F.get_put_self]
    . rw [F.get_put_of_ne _ k g y hg, F.get_put_of_ne _ k g y hg, F.get_put_of_ne _ k f x hf]

/-- An assignment to one of the fields, if there is any. -/
def assign (s : σ) (a : Option ((f : φ) × Value f)) : σ :=
  match a with
  | some ⟨f, x⟩ => F.put s f x
  | none => s

theorem get_assign_self {s : σ} {a : Option ((f : φ) × Value f)} {f : φ} {x : Value f}
    (h : a = some ⟨f, x⟩) : F.get (F.assign s a) f = x := by
  rw [h]
  apply F.get_put_self

theorem get_assign_of_ne {s : σ} {a : Option ((f : φ) × Value f)} {f : φ}
    (h : ∀ x, a ≠ some ⟨f, x⟩) : F.get (F.assign s a) f = F.get s f := by
  cases a with
  | none => rfl
  | some a =>
    apply F.get_put_of_ne
    rintro rfl
    exact h a.snd rfl

section Run

variable {α : Type} (a : α → Option ((f : φ) × Value f))

def assignAll (s : σ) (l : List α) : σ := l.foldl (fun s b => F.assign s (a b)) s

theorem assignAll_concat (s : σ) (l : List α) (b : α)
    : F.assignAll a s (l ++ [b]) = F.assign (F.assignAll a s l) (a b) := by
  unfold assignAll
  rw [List.foldl_append]
  rfl

/--
No assignment that is not wanted is the last one to its field, unless the field has that value anyway.
-/
def Harmless (wanted : α → Bool) (s : σ) (l : List α) (f : φ) : Prop :=
  ∀ front b later x, l = front ++ b :: later → wanted b = false → a b = some ⟨f, x⟩
    → (∀ c ∈ later, ∀ y, a c ≠ some ⟨f, y⟩) → F.get (F.assignAll a s (front.filter wanted)) f = x

variable {a} {wanted : α → Bool} {s : σ}

theorem harmless_concat_of_assigned {l : List α} {b : α} {f : φ} {x : Value f} (h : a b = some ⟨f, x⟩)
    : F.Harmless a wanted s (l ++ [b]) f
        ↔ (wanted b = false → F.get (F.assignAll a s (l.filter wanted)) f = x) := by
  constructor
  . intro hl hb
    apply hl l b [] x rfl hb h
    intro c hc
    cases hc
  . intro hl front c later y heq hc hcy hlater
    cases later using List.reverseRecOn with
    | nil =>
      have ⟨hfront, hbc⟩ := List.append_inj' heq rfl
      cases hbc
      cases hfront
      rw [h] at hcy
      cases hcy
      exact hl hc
    | append_singleton later d =>
      rw [← List.cons_append, ← List.append_assoc] at heq
      have ⟨_, hbd⟩ := List.append_inj' heq rfl
      cases hbd
      exact absurd h (hlater b (by simp) x)

theorem harmless_concat_of_not_assigned {l : List α} {b : α} {f : φ} (h : ∀ x, a b ≠ some ⟨f, x⟩)
    : F.Harmless a wanted s (l ++ [b]) f ↔ F.Harmless a wanted s l f := by
  constructor
  . intro hl front c later x heq hc hcx hlater
    apply hl front c (later ++ [b]) x (by rw [heq]; simp) hc hcx
    rw [List.forall_mem_append, List.forall_mem_singleton]
    exact ⟨hlater, h⟩
  . intro hl front c later x heq hc hcx hlater
    cases later using List.reverseRecOn with
    | nil =>
      have ⟨_, hbc⟩ := List.append_inj' heq rfl
      cases hbc
      exact absurd hcx (h x)
    | append_singleton later d =>
      rw [← List.cons_append, ← List.append_assoc] at heq
      have ⟨hfront, _⟩ := List.append_inj' heq rfl
      rw [List.forall_mem_append] at hlater
      exact hl front c later x hfront hc hcx hlater.left

theorem get_assignAll_filter_iff (l : List α) (f : φ)
    : F.get (F.assignAll a s l) f = F.get (F.assignAll a s (l.filter wanted)) f
        ↔ F.Harmless a wanted s l f := by
  induction l using List.reverseRecOn with
  | nil =>
    constructor
    . intro _ front b later x heq
      simp at heq
    . intro _
      rfl
  | append_singleton l b ih =>
    rw [assignAll_concat, List.filter_append]
    by_cases h : ∃ x, a b = some ⟨f, x⟩
    . have ⟨x, hx⟩ := h
      rw [F.harmless_concat_of_assigned hx, F.get_assign_self hx]
      cases hb : wanted b with
      | true =>
        rw [List.filter_cons_of_pos hb, List.filter_nil, assignAll_concat, F.get_assign_self hx]
        simp
      | false =>
        rw [List.filter_cons_of_neg (by simp [hb]), List.filter_nil, List.append_nil]
        simp [eq_comm]
    . rw [not_exists] at h
      rw [F.harmless_concat_of_not_assigned h, F.get_assign_of_ne h, ← ih]
      cases hb : wanted b with
      | true =>
        rw [List.filter_cons_of_pos hb, List.filter_nil, assignAll_concat, F.get_assign_of_ne h]
      | false => rw [List.filter_cons_of_neg (by simp [hb]), List.filter_nil, List.append_nil]

/-- Assignments that are not wanted can be left out exactly if they are harmless. -/
theorem assignAll_eq_filter_iff (l : List α)
    : F.assignAll a s l = F.assignAll a s (l.filter wanted)
        ↔ ∀ f, F.Harmless a wanted s l f := by
  constructor
  . intro h f
    rw [← F.get_assignAll_filter_iff, h]
  . intro h
    apply F.ext
    intro f
    rw [F.get_assignAll_filter_iff]
    apply h

/--
A field has the value that was assigned to it last, by what `value` says about the assignments, or the
one that it started with.
-/
theorem get_assignAll {f : φ} {value : α → Option (Value f)}
    (hvalue : ∀ b x, value b = some x ↔ a b = some ⟨f, x⟩) (l : List α)
    : F.get (F.assignAll a s l) f = (l.filterMap value).getLast?.getD (F.get s f) := by
  induction l using List.reverseRecOn with
  | nil => rfl
  | append_singleton l b ih =>
    rw [assignAll_concat, List.filterMap_append]
    cases hb : value b with
    | some x =>
      rw [List.filterMap_cons_some hb, F.get_assign_self ((hvalue b x).mp hb)]
      simp
    | none =>
      have hother : ∀ x, a b ≠ some ⟨f, x⟩ := by
        intro x hx
        rw [(hvalue b x).mpr hx] at hb
        cases hb
      rw [List.filterMap_cons_none hb, F.get_assign_of_ne hother, ih]
      simp

end Run

end Fields

end Exec
