import Mathlib.Data.List.TakeWhile

/-!
This module contains arrays of bytes with the functions of the C library that look for the end of a
string in them. There is nothing to be read or written outside of an array.
-/

namespace Libc

@[ext]
structure Buffer (n : Nat) where
  bytes : List UInt8
  size : bytes.length = n
  deriving DecidableEq

/-- How many bytes are accepted, up to the first one that is not. -/
def span (accept : UInt8 → Bool) (bytes : List UInt8) : Option Nat :=
  match bytes with
  | [] => none
  | c :: bytes => if accept c then (span accept bytes).map (· + 1) else some 0

namespace Buffer

variable {n : Nat}

def read (b : Buffer n) (i : Int) : Option UInt8 := if 0 ≤ i then b.bytes[i.toNat]? else none

def write (b : Buffer n) (i : Int) (c : UInt8) : Option (Buffer n) :=
  if 0 ≤ i ∧ i < n then
    some { bytes := b.bytes.set i.toNat c, size := by rw [List.length_set, b.size] }
  else
    none

def strlen (b : Buffer n) (p : Nat) : Option Nat := span (fun c => c ≠ 0) (b.bytes.drop p)

def strspn (b : Buffer n) (p : Nat) (set : List UInt8) : Option Nat :=
  span (fun c => c ≠ 0 && set.contains c) (b.bytes.drop p)

def strcspn (b : Buffer n) (p : Nat) (set : List UInt8) : Option Nat :=
  span (fun c => c ≠ 0 && !set.contains c) (b.bytes.drop p)

-- The string that a pointer to the byte at `p` stands for.
def string (b : Buffer n) (p : Nat) : Option (List UInt8) :=
  (b.strlen p).map (fun len => (b.bytes.drop p).take len)

def store (b : Buffer n) (front : List UInt8) : Buffer n where
  bytes := front.take n ++ b.bytes.drop front.length
  size := by
    rw [List.length_append, List.length_take, List.length_drop, b.size]
    omega

end Buffer

section Span

variable {accept : UInt8 → Bool} {bytes : List UInt8}

theorem span_eq_none (h : ∀ c ∈ bytes, accept c = true) : span accept bytes = none := by
  induction bytes with
  | nil => rfl
  | cons c bytes ih =>
    unfold span
    rw [if_pos (h c List.mem_cons_self)]
    rw [ih (fun d hd => h d (List.mem_cons_of_mem c hd)), Option.map_none]

theorem span_eq_some {c : UInt8} (hmem : c ∈ bytes) (hc : accept c = false)
    : span accept bytes = some (bytes.takeWhile accept).length := by
  induction bytes with
  | nil => cases hmem
  | cons d bytes ih =>
    unfold span
    rw [List.takeWhile_cons]
    cases hd : accept d with
    | true =>
      rcases List.mem_cons.mp hmem with rfl | hmem
      . rw [hc] at hd
        cases hd
      . rw [if_pos rfl, if_pos rfl, ih hmem, Option.map_some, List.length_cons]
    | false => simp

/-- A string is searched up to its terminator. -/
theorem span_terminated (p : UInt8 → Bool) {text : List UInt8} (htext : 0 ∉ text)
    (behind : List UInt8)
    : span (fun c => c ≠ 0 && p c) (text ++ 0 :: behind) = some (text.takeWhile p).length := by
  induction text with
  | nil => simp [span]
  | cons c text ih =>
    have ⟨hc, htext⟩ : ¬0 = c ∧ 0 ∉ text := by simpa using htext
    have hne : c ≠ 0 := fun heq => hc heq.symm
    rw [List.cons_append, span, ih htext, List.takeWhile_cons]
    cases p c <;> simp [hne]

theorem drop_takeWhile_length (bytes : List UInt8)
    : bytes.drop (bytes.takeWhile accept).length = bytes.dropWhile accept := by
  calc
    _ = (bytes.takeWhile accept ++ bytes.dropWhile accept).drop (bytes.takeWhile accept).length := by
      rw [List.takeWhile_append_dropWhile]
    _ = bytes.dropWhile accept := by rw [List.drop_left]

end Span

namespace Buffer

variable {n : Nat} {b : Buffer n} {front text behind : List UInt8}

theorem drop_of_bytes (h : b.bytes = front ++ behind) : b.bytes.drop front.length = behind := by
  rw [h, List.drop_left]

theorem read_eq (b : Buffer n) (p : Nat) : b.read p = (b.bytes.drop p).head? := by
  unfold read
  rw [if_pos (by omega), List.head?_drop, Int.toNat_natCast]

theorem strlen_of_bytes (h : b.bytes = front ++ (text ++ 0 :: behind)) (htext : 0 ∉ text)
    : b.strlen front.length = some text.length := by
  unfold strlen
  rw [drop_of_bytes h]
  have hall : text.takeWhile (fun _ => true) = text :=
    List.takeWhile_eq_self_iff.mpr (fun _ _ => rfl)
  have hspan := span_terminated (fun _ => true) htext behind
  rw [hall] at hspan
  simpa using hspan

theorem strspn_of_bytes (h : b.bytes = front ++ (text ++ 0 :: behind)) (htext : 0 ∉ text)
    (set : List UInt8)
    : b.strspn front.length set = some (text.takeWhile (fun c => set.contains c)).length := by
  unfold strspn
  rw [drop_of_bytes h]
  apply span_terminated _ htext

theorem strcspn_of_bytes (h : b.bytes = front ++ (text ++ 0 :: behind)) (htext : 0 ∉ text)
    (set : List UInt8)
    : b.strcspn front.length set = some (text.takeWhile (fun c => !set.contains c)).length := by
  unfold strcspn
  rw [drop_of_bytes h]
  apply span_terminated _ htext

theorem write_of_lt {i : Nat} (hi : i < n) (c : UInt8)
    : ∃ b' : Buffer n, b.write i c = some b' ∧ b'.bytes = b.bytes.set i c := by
  unfold write
  rw [if_pos (by omega)]
  exact ⟨_, rfl, rfl⟩

theorem strspn_of_mem {p : Nat} (h : 0 ∈ b.bytes.drop p) {set : List UInt8} (hset : 0 ∉ set)
    : b.strspn p set = some ((b.bytes.drop p).takeWhile (fun c => set.contains c)).length := by
  have haccept : (fun c : UInt8 => c ≠ 0 && set.contains c) = fun c => set.contains c := by
    funext c
    by_cases hc : c = 0
    . subst hc
      simpa using hset
    . simp [hc]
  unfold strspn
  rw [span_eq_some h (by simp), haccept]

theorem string_of_mem {p : Nat} (h : 0 ∈ b.bytes.drop p)
    : b.string p = some ((b.bytes.drop p).takeWhile (fun c => c ≠ 0)) := by
  unfold string strlen
  rw [span_eq_some h (by simp), Option.map_some]
  congr 1
  apply (List.prefix_iff_eq_take.mp (List.takeWhile_prefix _)).symm

theorem string_of_not_mem {p : Nat} (h : 0 ∉ b.bytes.drop p) : b.string p = none := by
  unfold string strlen
  rw [span_eq_none, Option.map_none]
  intro c hc
  have hne : c ≠ 0 := by
    rintro rfl
    exact h hc
  simpa using hne

theorem string_of_bytes (h : b.bytes = front ++ (text ++ 0 :: behind)) (htext : 0 ∉ text)
    : b.string front.length = some text := by
  unfold string
  rw [strlen_of_bytes h htext, drop_of_bytes h, Option.map_some, List.take_left]

end Buffer

end Libc
