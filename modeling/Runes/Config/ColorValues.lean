import Runes.Config.Names

/-!
This module contains which values the options for colours take.
-/

namespace Runes
namespace Config

open Libc Protocol

-- The number that two digits stand for.
def hexPair (c d : UInt8) : Option Nat := do
  let n ← hexDigit c
  let m ← hexDigit d
  return 16 * n + m

def documentedLevel (c d : UInt8) : Option Rat := (hexPair c d).map (fun (n : Nat) => mkRat n 255)

/-- The colour that a value stands for by the documentation: `#` and three pairs of digits. -/
def documentedColor (val : CString) : Option Rgb :=
  match val.bytes with
  | [hash, r, r', g, g', b, b'] =>
    if hash = 0x23 then do
      let red ← documentedLevel r r'
      let green ← documentedLevel g g'
      let blue ← documentedLevel b b'
      return ⟨red, green, blue⟩
    else
      none
  | _ => none

def Field.IsColor (f : Field) : Prop :=
  match f with
  | .mousecursorcolor | .cursorcolor | .fgdefault | .bgdefault | .color _ => True
  | _ => False

/--
A value is taken for the colour that it stands for, and if it stands for none, then no option for a
colour changes.
-/
structure ParsesExactly (val : CString) : Prop where
  color : (parseColor val).fst = documentedColor val
  kept : documentedColor val = none →
    ∀ config key f, keyField key = some f → f.IsColor → configAfter config key val = config

/--
Seven characters that are three numbers for `sscanf`, behind the `#` and with blanks and signs, but not
six digits.
-/
def StrayColorValue (val : CString) : Prop :=
  ∃ digits s₁ s₂ s₃,
    val.bytes = 0x23 :: digits
      ∧
    digits.length = 6
      ∧
    (∃ c ∈ digits, hexDigit c = none)
      ∧
    HexNumber (digits.dropWhile isSpace) s₁
      ∧
    HexNumber (s₁.dropWhile isSpace) s₂
      ∧
    HexNumber (s₂.dropWhile isSpace) s₃

section

variable {val : CString} {digits : List UInt8}

theorem hexPair_le {c d : UInt8} {n : Nat} (h : hexPair c d = some n) : n ≤ 255 := by
  unfold hexPair at h
  simp only [Option.bind_eq_bind, Option.bind_eq_some_iff, Option.pure_def, Option.some.injEq] at h
  have ⟨n, hc, m, hd, heq⟩ := h
  have := (hexDigit_eq_some hc).left
  have := (hexDigit_eq_some hd).left
  omega

theorem scanColor_of_scanHex {s₁ s₂ s₃ : List UInt8} {r g b : UInt32}
    (hr : scanHex digits = some (r, s₁)) (hg : scanHex s₁ = some (g, s₂))
    (hb : scanHex s₂ = some (b, s₃))
    : scanColor (0x23 :: digits) = some ⟨colorLevel r, colorLevel g, colorLevel b⟩ := by
  unfold scanColor
  rw [List.head?_cons, if_pos rfl, List.tail_cons]
  simp [hr, hg, hb]

theorem scanColor_isSome_iff
    : (scanColor (0x23 :: digits)).isSome = true
        ↔ ∃ s₁ s₂ s₃, HexNumber (digits.dropWhile isSpace) s₁ ∧ HexNumber (s₁.dropWhile isSpace) s₂
          ∧ HexNumber (s₂.dropWhile isSpace) s₃ := by
  simp only [← scanHex_iff]
  constructor
  . intro h
    have ⟨color, hscan⟩ := Option.isSome_iff_exists.mp h
    unfold scanColor at hscan
    rw [List.head?_cons, if_pos rfl, List.tail_cons] at hscan
    simp only [Option.bind_eq_bind, Option.bind_eq_some_iff, Prod.exists] at hscan
    have ⟨r, s₁, hr, g, s₂, hg, b, s₃, hb, _⟩ := hscan
    exact ⟨s₁, s₂, s₃, ⟨r, hr⟩, ⟨g, hg⟩, ⟨b, hb⟩⟩
  . rintro ⟨s₁, s₂, s₃, ⟨r, hr⟩, ⟨g, hg⟩, ⟨b, hb⟩⟩
    rw [scanColor_of_scanHex hr hg hb, Option.isSome_some]

theorem colorLevel_ofNat {n : Nat} (h : n ≤ 255) : colorLevel (.ofNat n) = mkRat n 255 := by
  have hn : (UInt32.ofNat n).toNat = n := by
    rw [UInt32.toNat_ofNat']
    omega
  unfold colorLevel
  rw [hn, if_pos h]

theorem scanHex_of_hexPair {c d : UInt8} {n : Nat} (h : hexPair c d = some n) (rest : List UInt8)
    : scanHex (c :: d :: rest) = some (.ofNat n, rest) := by
  unfold hexPair at h
  simp only [Option.bind_eq_bind, Option.bind_eq_some_iff, Option.pure_def, Option.some.injEq] at h
  have ⟨k, hc, m, hd, heq⟩ := h
  rw [← heq, scanHex_two hc hd]

-- Six digits are read as the documentation says.
theorem scanColor_of_hexPair {r r' g g' b b' : UInt8} {red green blue : Nat}
    (hr : hexPair r r' = some red) (hg : hexPair g g' = some green) (hb : hexPair b b' = some blue)
    : scanColor [0x23, r, r', g, g', b, b']
        = some ⟨mkRat red 255, mkRat green 255, mkRat blue 255⟩ := by
  rw [scanColor_of_scanHex (scanHex_of_hexPair hr _) (scanHex_of_hexPair hg _)
    (scanHex_of_hexPair hb []), colorLevel_ofNat (hexPair_le hr), colorLevel_ofNat (hexPair_le hg),
    colorLevel_ofNat (hexPair_le hb)]

theorem parseColor_fst
    : (parseColor val).fst = if val.bytes.length = 7 then scanColor val.bytes else none := by
  unfold parseColor
  by_cases hlen : val.bytes.length = 7
  . rw [if_neg (by simpa using hlen), if_pos hlen]
    cases scanColor val.bytes <;> rfl
  . rw [if_pos hlen, if_neg hlen]

theorem strayColorValue_iff (hbytes : val.bytes = 0x23 :: digits) (hlen : digits.length = 6)
    : StrayColorValue val
        ↔ (∃ c ∈ digits, hexDigit c = none) ∧ (scanColor val.bytes).isSome = true := by
  rw [hbytes, scanColor_isSome_iff]
  unfold StrayColorValue
  rw [hbytes]
  constructor
  . rintro ⟨digits', s₁, s₂, s₃, heq, _, hdigit, hnumbers⟩
    cases heq
    exact ⟨hdigit, s₁, s₂, s₃, hnumbers⟩
  . rintro ⟨hdigit, s₁, s₂, s₃, hnumbers⟩
    exact ⟨digits, s₁, s₂, s₃, rfl, hlen, hdigit, hnumbers⟩

theorem digits_of_documented {color : Rgb} (h : documentedColor val = some color)
    : ∃ r r' g g' b b' red green blue,
        val.bytes = [0x23, r, r', g, g', b, b']
          ∧
        hexPair r r' = some red ∧ hexPair g g' = some green ∧ hexPair b b' = some blue
          ∧
        color = ⟨mkRat red 255, mkRat green 255, mkRat blue 255⟩ := by
  unfold documentedColor at h
  split at h
  . next hash r r' g g' b b' hbytes =>
    split at h
    . next hhash =>
      subst hhash
      unfold documentedLevel at h
      simp only [Option.bind_eq_bind, Option.bind_eq_some_iff, Option.map_eq_some_iff,
        Option.pure_def, Option.some.injEq] at h
      have ⟨_, ⟨red, hr, hred⟩, _, ⟨green, hg, hgreen⟩, _, ⟨blue, hb, hblue⟩, hcolor⟩ := h
      subst hred hgreen hblue
      exact ⟨r, r', g, g', b, b', red, green, blue, hbytes, hr, hg, hb, hcolor.symm⟩
    . cases h
  . cases h

theorem hexDigit_isSome_of_hexPair {c d : UInt8} {n : Nat} (h : hexPair c d = some n)
    : hexDigit c ≠ none ∧ hexDigit d ≠ none := by
  unfold hexPair at h
  constructor
  . intro hc
    simp [hc] at h
  . intro hd
    simp [hd] at h

theorem parseColor_of_documented {color : Rgb} (h : documentedColor val = some color)
    : (parseColor val).fst = some color ∧ ¬StrayColorValue val := by
  have ⟨r, r', g, g', b, b', red, green, blue, hbytes, hr, hg, hb, hcolor⟩ := digits_of_documented h
  constructor
  . have hlen : val.bytes.length = 7 := by
      rw [hbytes]
      rfl
    rw [parseColor_fst, if_pos hlen, hbytes, scanColor_of_hexPair hr hg hb, hcolor]
  . rw [strayColorValue_iff hbytes rfl]
    have := hexDigit_isSome_of_hexPair hr
    have := hexDigit_isSome_of_hexPair hg
    have := hexDigit_isSome_of_hexPair hb
    simp_all

theorem documentedColor_of_digits (hbytes : val.bytes = 0x23 :: digits) (hlen : digits.length = 6)
    (hdigits : ∀ c ∈ digits, hexDigit c ≠ none)
    : ∃ color, documentedColor val = some color := by
  match digits, hlen with
  | [r, r', g, g', b, b'], _ =>
    simp only [List.forall_mem_cons, Option.ne_none_iff_exists'] at hdigits
    have ⟨⟨_, hr⟩, ⟨_, hr'⟩, ⟨_, hg⟩, ⟨_, hg'⟩, ⟨_, hb⟩, ⟨_, hb'⟩, _⟩ := hdigits
    unfold documentedColor
    rw [hbytes]
    simp [documentedLevel, hexPair, hr, hr', hg, hg', hb, hb']

-- What the documentation does not know is refused, unless it is one of the stray values.
theorem parseColor_of_not_documented (h : documentedColor val = none)
    : (parseColor val).fst = none ↔ ¬StrayColorValue val := by
  rw [parseColor_fst]
  by_cases hshape : val.bytes.length = 7 ∧ val.bytes.head? = some 0x23
  . have ⟨hlen, hhead⟩ := hshape
    have ⟨digits, hbytes⟩ := List.head?_eq_some_iff.mp hhead
    rw [hbytes, List.length_cons] at hlen
    have hdigit : ∃ c ∈ digits, hexDigit c = none := by
      by_contra hall
      have ⟨color, hsome⟩ := documentedColor_of_digits hbytes (by omega) (by simpa using hall)
      rw [h] at hsome
      cases hsome
    rw [strayColorValue_iff hbytes (by omega), if_pos hshape.left, Option.isSome_iff_ne_none]
    simp [hdigit]
  . have hnone : (if val.bytes.length = 7 then scanColor val.bytes else none) = none := by
      split
      . next hlen =>
        unfold scanColor
        rw [if_neg (fun hhead => hshape ⟨hlen, hhead⟩)]
      . rfl
    refine iff_of_true hnone ?_
    rintro ⟨digits, _, _, _, hbytes, hlen, _⟩
    apply hshape
    rw [hbytes, List.length_cons, hlen]
    exact ⟨rfl, rfl⟩

theorem configAfter_of_parseColor {config : RunesConfig} {key : CString} {f : Field}
    (hkey : keyField key = some f) (hcolor : f.IsColor) (hnone : (parseColor val).fst = none)
    : configAfter config key val = config := by
  have hparse : f.parse val = none := by
    cases f <;> first | exact hnone | cases hcolor
  rw [configAfter_of_some hkey, hparse]
  rfl

/--
The values that the documentation knows are read as it says, and the other ones change nothing, apart
from those that only `sscanf` takes for three numbers.
-/
theorem parsesExactly_iff (val : CString) : ParsesExactly val ↔ ¬StrayColorValue val := by
  constructor
  . intro hexact
    cases hdocumented : documentedColor val with
    | some color => exact (parseColor_of_documented hdocumented).right
    | none =>
      rw [← parseColor_of_not_documented hdocumented, ← hdocumented]
      exact hexact.color
  . intro hstray
    constructor
    . cases hdocumented : documentedColor val with
      | some color => exact (parseColor_of_documented hdocumented).left
      | none => exact (parseColor_of_not_documented hdocumented).mpr hstray
    . intro hdocumented config key f hkey hcolor
      apply configAfter_of_parseColor hkey hcolor
      exact (parseColor_of_not_documented hdocumented).mpr hstray

def spacedColor : CString where
  bytes := ascii "# 1 2-3"
  nul_free := by decide

def bgcolor : CString where
  bytes := ascii "bgcolor"
  nul_free := by decide

/-- Blanks and a sign between the digits. The sign makes the last number larger than 255. -/
theorem not_parsesExactly_spacedColor
    : documentedColor spacedColor = none
        ∧ (parseColor spacedColor).fst = some ⟨mkRat 1 255, mkRat 2 255, 1⟩
        ∧ (configAfter setDefaults bgcolor spacedColor).bgdefault ≠ setDefaults.bgdefault
        ∧ ¬ParsesExactly spacedColor := by
  have hparse : (parseColor spacedColor).fst = some ⟨mkRat 1 255, mkRat 2 255, 1⟩ := by
    decide +kernel
  refine ⟨rfl, hparse, by decide +kernel, ?_⟩
  intro hexact
  have hcolor := hexact.color
  rw [hparse] at hcolor
  cases hcolor

end

end Config
end Runes
