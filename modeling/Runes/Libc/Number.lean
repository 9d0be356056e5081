import Mathlib.Algebra.Order.Ring.Int
import Runes.Libc.Buffer

/-!
This module contains how the C library reads numbers, in the C locale.
-/

namespace Libc

def ascii (s : String) : List UInt8 := s.toList.map (fun c => c.toNat.toUInt8)

def isSpace (c : UInt8) : Bool := c = 0x20 || (0x09 ≤ c && c ≤ 0x0d)

def isDigit (c : UInt8) : Bool := 0x30 ≤ c && c ≤ 0x39

def decimal (digits : List UInt8) : Nat := digits.foldl (fun n d => 10 * n + (d.toNat - 0x30)) 0

/--
`strtol` for decimal numbers. A `long` has 64 bits, and what does not fit becomes the number next to it
that does.
-/
def strtol (s : List UInt8) : Int :=
  let s := s.dropWhile isSpace
  if s.head? = some 0x2d then
    max (-number s.tail) (-2 ^ 63)
  else if s.head? = some 0x2b then
    min (number s.tail) (2 ^ 63 - 1)
  else
    min (number s) (2 ^ 63 - 1)
where
  number (s : List UInt8) : Int := decimal (s.takeWhile isDigit)

-- The conversion of the `long` to an `int` of 32 bits.
def atoi (s : List UInt8) : Int := (strtol s).bmod (2 ^ 32)

def hexDigit (c : UInt8) : Option Nat :=
  if isDigit c then
    some (c.toNat - 0x30)
  else if 0x61 ≤ c ∧ c ≤ 0x66 then
    some (c.toNat - 0x57)
  else if 0x41 ≤ c ∧ c ≤ 0x46 then
    some (c.toNat - 0x37)
  else
    none

/--
The conversion `%2x` of `sscanf`, with what is behind the number. The two characters include a sign, and
`0x` without a digit is no number.
-/
def scanHex (s : List UInt8) : Option (UInt32 × List UInt8) :=
  match s.dropWhile isSpace with
  | [] => none
  | c :: s =>
    if c = 0x2b ∨ c = 0x2d then
      match s.head?.bind hexDigit with
      | some n => some (if c = 0x2d then -UInt32.ofNat n else .ofNat n, s.tail)
      | none => none
    else
      match hexDigit c, s.head?.bind hexDigit with
      | some n, some m => some (.ofNat (16 * n + m), s.tail)
      | some n, none =>
        if n = 0 ∧ (s.head? = some 0x78 ∨ s.head? = some 0x58) then none else some (.ofNat n, s)
      | none, _ => none

theorem isSpace_of_isDigit {c : UInt8} (h : isDigit c = true) : isSpace c = false := by
  unfold isDigit at h
  unfold isSpace
  simp only [Bool.and_eq_true, decide_eq_true_eq, UInt8.le_iff_toNat_le] at h
  simp only [Bool.or_eq_false_iff, Bool.and_eq_false_iff, decide_eq_false_iff_not,
    UInt8.le_iff_toNat_le, ← UInt8.toNat_inj]
  have : (0x30 : UInt8).toNat = 48 := rfl
  have : (0x0d : UInt8).toNat = 13 := rfl
  have : (0x20 : UInt8).toNat = 32 := rfl
  omega

/-- A number without a sign in front of it. -/
theorem atoi_of_isDigit {s : List UInt8} (h : ∃ c, s.head? = some c ∧ isDigit c = true)
    : atoi s = (min (decimal (s.takeWhile isDigit) : Int) (2 ^ 63 - 1)).bmod (2 ^ 32) := by
  have ⟨c, hhead, hdigit⟩ := h
  cases s with
  | nil => cases hhead
  | cons d s =>
    rw [List.head?_cons, Option.some.injEq] at hhead
    subst hhead
    have hdrop : (d :: s).dropWhile isSpace = d :: s := by
      rw [List.dropWhile_cons_of_neg]
      rw [isSpace_of_isDigit hdigit]
      simp
    have hminus : d ≠ 0x2d := by
      rintro rfl
      cases hdigit
    have hplus : d ≠ 0x2b := by
      rintro rfl
      cases hdigit
    unfold atoi strtol
    rw [hdrop]
    simp only [List.head?_cons, Option.some.injEq, hminus, hplus, if_false]
    rfl

/-- Digits for a number that fits into an `int`. -/
theorem atoi_of_digits {s : List UInt8} (hne : s ≠ []) (hdigits : ∀ c ∈ s, isDigit c = true)
    (hlt : decimal s < 2 ^ 31)
    : atoi s = decimal s := by
  have ⟨c, rest, hcons⟩ := List.exists_cons_of_ne_nil hne
  have hhead : s.head? = some c := by rw [hcons, List.head?_cons]
  have hdigit : isDigit c = true := hdigits c (by simp [hcons])
  have htake : s.takeWhile isDigit = s := List.takeWhile_eq_self_iff.mpr hdigits
  have hmin : min (decimal s : Int) (2 ^ 63 - 1) = decimal s := by omega
  rw [atoi_of_isDigit ⟨c, hhead, hdigit⟩, htake, hmin]
  apply Int.bmod_eq_of_le <;> omega

/-- What `%2x` takes: two digits, one digit with no digit behind it, or a digit with a sign. -/
inductive HexNumber : List UInt8 → List UInt8 → Prop where
  | two {c d : UInt8} (hc : (hexDigit c).isSome = true) (hd : (hexDigit d).isSome = true)
      (rest : List UInt8)
      : HexNumber (c :: d :: rest) rest
  -- The `0` of a `0x` is not a number of its own.
  | one {c : UInt8} {rest : List UInt8} (hc : (hexDigit c).isSome = true)
      (hrest : rest.head?.bind hexDigit = none)
      (hzero : hexDigit c = some 0 → rest.head? ≠ some 0x78 ∧ rest.head? ≠ some 0x58)
      : HexNumber (c :: rest) rest
  | sign {c d : UInt8} (hc : c = 0x2b ∨ c = 0x2d) (hd : (hexDigit d).isSome = true)
      (rest : List UInt8)
      : HexNumber (c :: d :: rest) rest

section

variable {c d : UInt8} {s rest : List UInt8} {n m : Nat}

theorem hexDigit_sign (h : c = 0x2b ∨ c = 0x2d) : hexDigit c = none := by
  rcases h with rfl | rfl <;> decide

theorem hexNumber_sign (h : c = 0x2b ∨ c = 0x2d)
    : HexNumber (c :: s) rest ↔ ∃ d, s = d :: rest ∧ (hexDigit d).isSome = true := by
  constructor
  . intro hnumber
    cases hnumber with
    | two hc => simp [hexDigit_sign h] at hc
    | one hc => simp [hexDigit_sign h] at hc
    | sign hc hd => exact ⟨_, rfl, hd⟩
  . rintro ⟨d, rfl, hd⟩
    exact .sign h hd rest

theorem hexNumber_one (hsign : ¬(c = 0x2b ∨ c = 0x2d)) (hc : hexDigit c = some n)
    (hd : s.head?.bind hexDigit = none)
    : HexNumber (c :: s) rest
        ↔ s = rest ∧ ¬(n = 0 ∧ (s.head? = some 0x78 ∨ s.head? = some 0x58)) := by
  constructor
  . intro h
    cases h with
    | two _ hd' =>
      rw [List.head?_cons, Option.bind_some] at hd
      simp [hd] at hd'
    | one _ _ hzero =>
      rw [hc, Option.some.injEq] at hzero
      refine ⟨rfl, ?_⟩
      rintro ⟨hn, hx⟩
      have ⟨hlower, hupper⟩ := hzero hn
      exact hx.elim hlower hupper
    | sign hc' => exact absurd hc' hsign
  . rintro ⟨rfl, hzero⟩
    apply HexNumber.one (by rw [hc, Option.isSome_some]) hd
    intro hn
    rw [hc, Option.some.injEq] at hn
    exact ⟨fun hx => hzero ⟨hn, Or.inl hx⟩, fun hx => hzero ⟨hn, Or.inr hx⟩⟩

theorem hexNumber_two (hsign : ¬(c = 0x2b ∨ c = 0x2d)) (hc : hexDigit c = some n)
    (hd : hexDigit d = some m)
    : HexNumber (c :: d :: s) rest ↔ s = rest := by
  constructor
  . intro h
    cases h with
    | two => rfl
    | one _ hrest =>
      rw [List.head?_cons, Option.bind_some, hd] at hrest
      cases hrest
    | sign hc' => exact absurd hc' hsign
  . rintro rfl
    apply HexNumber.two
    . rw [hc, Option.isSome_some]
    . rw [hd, Option.isSome_some]

theorem scanHex_iff (s rest : List UInt8)
    : (∃ n, scanHex s = some (n, rest)) ↔ HexNumber (s.dropWhile isSpace) rest := by
  unfold scanHex
  cases s.dropWhile isSpace with
  | nil =>
    constructor
    . rintro ⟨n, h⟩
      cases h
    . intro h
      cases h
  | cons c s =>
    dsimp only
    by_cases hsign : c = 0x2b ∨ c = 0x2d
    . rw [if_pos hsign, hexNumber_sign hsign]
      cases s with
      | nil => simp
      | cons d s =>
        rw [List.head?_cons, Option.bind_some, List.tail_cons]
        cases hd : hexDigit d with
        | none => simp [hd]
        | some m => simp [hd]
    . rw [if_neg hsign]
      cases hc : hexDigit c with
      | none =>
        constructor
        . rintro ⟨n, h⟩
          cases h
        . intro h
          cases h with
          | two hc' => simp [hc] at hc'
          | one hc' => simp [hc] at hc'
          | sign hc' => exact absurd hc' hsign
      | some n =>
        cases hd : s.head?.bind hexDigit with
        | none =>
          rw [hexNumber_one hsign hc hd]
          dsimp only
          split
          . next hzero => simp [hzero]
          . next hzero => simp [hzero]
        | some m =>
          cases s with
          | nil => cases hd
          | cons d s =>
            rw [List.head?_cons, Option.bind_some] at hd
            rw [hexNumber_two hsign hc hd]
            simp

-- The values of the digits, with the ranges of the digits themselves.
theorem hexDigit_eq_some (h : hexDigit c = some n)
    : n < 16 ∧ ((48 ≤ c.toNat ∧ c.toNat ≤ 57) ∨ (65 ≤ c.toNat ∧ c.toNat ≤ 102)) := by
  unfold hexDigit isDigit at h
  simp only [Bool.and_eq_true, decide_eq_true_eq, UInt8.le_iff_toNat_le, UInt8.reduceToNat] at h
  split at h
  . cases h
    omega
  . split at h
    . cases h
      omega
    . split at h
      . cases h
        omega
      . cases h

theorem isSpace_of_hexDigit (h : hexDigit c = some n) : isSpace c = false := by
  have ⟨_, hrange⟩ := hexDigit_eq_some h
  unfold isSpace
  simp only [Bool.or_eq_false_iff, Bool.and_eq_false_iff, decide_eq_false_iff_not,
    UInt8.le_iff_toNat_le, ← UInt8.toNat_inj, UInt8.reduceToNat]
  omega
/-- Two digits are a number whatever follows them. -/
theorem scanHex_two (hc : hexDigit c = some n) (hd : hexDigit d = some m)
    : scanHex (c :: d :: rest) = some (.ofNat (16 * n + m), rest) := by
  have hsign : ¬(c = 0x2b ∨ c = 0x2d) := by
    intro h
    rw [hexDigit_sign h] at hc
    cases hc
  have hspace : ¬isSpace c = true := by
    rw [isSpace_of_hexDigit hc]
    simp
  unfold scanHex
  rw [List.dropWhile_cons_of_neg hspace]
  dsimp only
  rw [if_neg hsign, hc, List.head?_cons, Option.bind_some, hd, List.tail_cons]

end

end Libc
