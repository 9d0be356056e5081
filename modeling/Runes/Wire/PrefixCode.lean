import Mathlib.Data.List.Basic

/-!
This module contains the theory of prefix codes: encodings that a reader can take off the front of
a stream without knowing where the encoded value ends.
-/

namespace Wire

/--
No encoded value is hidden in the front of a stream that starts with the encoding of another one.
-/
def PrefixCode (enc : α → List β) : Prop :=
  ∀ (x y : α) (r s : List β), enc x ++ r = enc y ++ s → x = y ∧ r = s

namespace PrefixCode

theorem of_length {enc : α → List β} (width : Nat) (hlen : ∀ x, (enc x).length = width)
    (hinj : ∀ x y, enc x = enc y → x = y)
    : PrefixCode enc := by
  intro x y r s h
  have hsplit := List.append_inj h (by rw [hlen, hlen])
  exact ⟨hinj x y hsplit.left, hsplit.right⟩

theorem flatMap {enc : α → List β} (henc : PrefixCode enc) (xs ys : List α) (r s : List β)
    (hlen : xs.length = ys.length) (h : xs.flatMap enc ++ r = ys.flatMap enc ++ s)
    : xs = ys ∧ r = s := by
  induction xs generalizing ys with
  | nil =>
    have : ys = [] := List.eq_nil_of_length_eq_zero hlen.symm
    subst this
    simpa using h
  | cons x xs ih =>
    cases ys with
    | nil => simp at hlen
    | cons y ys =>
      simp only [List.flatMap_cons, List.append_assoc] at h
      have hhead := henc x y _ _ h
      have htail := ih ys (by simpa using hlen) hhead.right
      rw [hhead.left, htail.left]
      exact ⟨rfl, htail.right⟩

end PrefixCode

end Wire
