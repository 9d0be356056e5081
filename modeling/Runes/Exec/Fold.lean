import Mathlib.Data.List.Basic

/-!
This module contains rules for loops over lists: for loops that may fail, with an invariant that knows what
the loop has already been through, and for two loops that should do the same.
-/

namespace Exec

variable {α σ : Type} {f : σ → α → Option σ} {Inv : List α → σ → Prop}
  {Good : List α → α → Prop}

theorem forall_split_cons {a : α} {l : List α}
    : (∀ done b later, a :: l = done ++ b :: later → Good done b)
        ↔ Good [] a ∧ ∀ done b later, l = done ++ b :: later → Good (a :: done) b := by
  constructor
  . intro h
    constructor
    . apply h [] a l rfl
    . intro done b later hl
      apply h (a :: done) b later
      rw [hl, List.cons_append]
  . rintro ⟨ha, hl⟩ done b later heq
    cases done with
    | nil =>
      cases heq
      exact ha
    | cons d done =>
      cases heq
      apply hl done b later rfl

/-- If a step fails exactly where it is not good, so does the whole loop. -/
theorem foldlM_isSome_iff {l : List α}
    (hgood : ∀ done s a, Inv done s → a ∈ l → ((f s a).isSome = true ↔ Good done a))
    (hinv : ∀ done s a s', Inv done s → a ∈ l → f s a = some s' → Inv (done ++ [a]) s')
    {done : List α} {s : σ} (hs : Inv done s)
    : (l.foldlM f s).isSome = true
        ↔ ∀ earlier a later, l = earlier ++ a :: later → Good (done ++ earlier) a := by
  induction l generalizing done s with
  | nil => simp
  | cons a l ih =>
    have hsplit : (∀ earlier b later, a :: l = earlier ++ b :: later → Good (done ++ earlier) b)
        ↔ Good (done ++ []) a
          ∧ ∀ earlier b later, l = earlier ++ b :: later → Good (done ++ a :: earlier) b :=
      forall_split_cons
    rw [hsplit, List.append_nil, ← hgood done s a hs List.mem_cons_self, List.foldlM_cons]
    cases hstep : f s a with
    | none => simp
    | some s' =>
      have hnext := hinv done s a s' hs List.mem_cons_self hstep
      have hrest := ih (fun done s b hs hb => hgood done s b hs (List.mem_cons_of_mem a hb))
        (fun done s b s' hs hb => hinv done s b s' hs (List.mem_cons_of_mem a hb)) hnext
      rw [Option.bind_eq_bind, Option.bind_some, hrest]
      simp

section Agree

variable {α σ : Type} {f g : σ → α → σ}

-- The steps `f` and `g` do the same wherever the steps of `h` lead.
def AgreeAlong (f g h : σ → α → σ) (s : σ) (l : List α) : Prop :=
  ∀ front a later, l = front ++ a :: later → f (front.foldl h s) a = g (front.foldl h s) a

theorem agreeAlong_nil {h : σ → α → σ} {s : σ} : AgreeAlong f g h s [] := by
  intro front a later heq
  simp at heq

theorem agreeAlong_cons {h : σ → α → σ} {s : σ} {a : α} {l : List α}
    : AgreeAlong f g h s (a :: l) ↔ f s a = g s a ∧ AgreeAlong f g h (h s a) l :=
  forall_split_cons

/-- Two loops that do the same along one of them do the same along the other one. -/
theorem agreeAlong_iff {s : σ} {l : List α} : AgreeAlong f g f s l ↔ AgreeAlong f g g s l := by
  induction l generalizing s with
  | nil => exact iff_of_true agreeAlong_nil agreeAlong_nil
  | cons a l ih =>
    rw [agreeAlong_cons, agreeAlong_cons, ih]
    constructor
    . rintro ⟨hnow, hlater⟩
      rw [hnow] at hlater
      exact ⟨hnow, hlater⟩
    . rintro ⟨hnow, hlater⟩
      rw [hnow]
      exact ⟨rfl, hlater⟩

theorem foldl_eq_of_agreeAlong {s : σ} {l : List α} (h : AgreeAlong f g g s l)
    : l.foldl f s = l.foldl g s := by
  induction l generalizing s with
  | nil => rfl
  | cons a l ih =>
    have ⟨hnow, hlater⟩ := agreeAlong_cons.mp h
    rw [List.foldl_cons, List.foldl_cons, hnow, ih hlater]

end Agree
end Exec
