import Mathlib.Data.List.TakeWhile

/-!
This module contains `strrchr` and `strtok_r`, for strings without their terminator.
-/

namespace Libc

def strrchr (s : List UInt8) (c : UInt8) : Option Nat :=
  match s with
  | [] => none
  | x :: s =>
    match strrchr s c with
    | some i => some (i + 1)
    | none => if x = c then some 0 else none

-- The next token and what is left of the string, one delimiter behind the token.
def strtok (s : List UInt8) (delim : UInt8) : Option (List UInt8 × List UInt8) :=
  let s := s.dropWhile (fun c => c = delim)
  if s = [] then
    none
  else
    some (s.takeWhile (fun c => c ≠ delim), (s.dropWhile (fun c => c ≠ delim)).drop 1)

section

variable {s rest token front behind : List UInt8} {c delim : UInt8}

theorem strrchr_eq_none (h : c ∉ s) : strrchr s c = none := by
  induction s with
  | nil => rfl
  | cons x s ih =>
    rw [List.mem_cons, not_or] at h
    rw [strrchr, ih h.right]
    exact if_neg (Ne.symm h.left)

theorem strrchr_append (h : c ∉ behind)
    : strrchr (front ++ c :: behind) c = some front.length := by
  induction front with
  | nil =>
    rw [List.nil_append, strrchr, strrchr_eq_none h]
    exact if_pos rfl
  | cons x front ih =>
    rw [List.cons_append, strrchr, ih]
    rfl

theorem length_strtok (h : strtok s delim = some (token, rest)) : rest.length < s.length := by
  unfold strtok at h
  dsimp only at h
  split at h
  . cases h
  . next hne =>
    simp only [Option.some.injEq, Prod.mk.injEq] at h
    rw [← h.right]
    have hdelim := (List.dropWhile_sublist (l := s) (fun c => decide (c = delim))).length_le
    have hrest := (List.dropWhile_sublist
      (l := s.dropWhile (fun c => decide (c = delim))) (fun c => decide (c ≠ delim))).length_le
    have hpos := List.length_pos_iff.mpr hne
    rw [List.length_drop]
    omega

end

end Libc
