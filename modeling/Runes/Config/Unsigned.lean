import Runes.Config.FileLemmas
import Runes.Config.Names
import Runes.Config.New
import Runes.Exec.Fold

/-!
This module contains that the numeric fields of a configuration are only set to unsigned integers, as far as
this is true: `runes_config_parse_uint` warns about everything else, but passes it on.
-/

namespace Runes
namespace Config

open Libc Protocol Exec

def Field.isNumeric (f : Field) : Bool :=
  match f with
  | .defaultRows | .defaultCols | .scrollLines | .scrollbackLength | .redrawRate
  | .doubleClickRate => true
  | _ => false

-- The value of a numeric field.
def RunesConfig.number (config : RunesConfig) (f : Field) : Int :=
  match f with
  | .defaultRows => config.defaultRows
  | .defaultCols => config.defaultCols
  | .scrollLines => config.scrollLines
  | .scrollbackLength => config.scrollbackLength
  | .redrawRate => config.redrawRate
  | .doubleClickRate => config.doubleClickRate
  | _ => 0

-- Decimal digits for a number that fits into an `int`.
def IsUint (val : CString) : Prop :=
  val.bytes ≠ [] ∧ (∀ c ∈ val.bytes, isDigit c = true) ∧ decimal val.bytes < 2 ^ 31

instance (val : CString) : Decidable (IsUint val) := inferInstanceAs (Decidable (_ ∧ _ ∧ _))

-- The option names a numeric field, but the value is no such number.
def Setting.IsBad (o : Setting) (f : Field) : Prop :=
  keyField o.key = some f ∧ f.isNumeric = true ∧ ¬IsUint o.val

/-- What an option should do: for a numeric field, a value that is no unsigned integer changes nothing. -/
def documentedAfter (config : RunesConfig) (o : Setting) : RunesConfig :=
  match keyField o.key with
  | some f =>
    if f.isNumeric = true ∧ ¬IsUint o.val then config else configAfter config o.key o.val
  | none => config

def documented (l : List Setting) : RunesConfig := l.foldl documentedAfter setDefaults

-- No numeric field changes when it is set to something that is no unsigned integer.
def KeepsNumbers (l : List Setting) : Prop :=
  ∀ front o later f, l = front ++ o :: later → o.IsBad f →
    (configured (front ++ [o])).number f = (configured front).number f

/--
The numeric fields of the new configuration are not negative, and none of them has changed when it was
set to something that is no unsigned integer.
-/
structure NumbersUnsigned (configFile : Option (List UInt8)) (line : Buffer lineSize) (argc : Int)
    (argv : List CString)
    : Prop where
  nonneg : ∀ config, configNew configFile line argc argv = some config → ∀ f, 0 ≤ config.number f
  kept : ∀ l, settings configFile line argc argv = some l → KeepsNumbers l

/--
What is no unsigned integer is only given to a numeric field that has the value anyway which `atoi`
makes of it.
-/
def HarmlessNumbers (l : List Setting) : Prop :=
  ∀ front o later f, l = front ++ o :: later → o.IsBad f →
    atoi o.val.bytes = (documented front).number f

section

variable {config config' : RunesConfig} {key val : CString} {f : Field} {o : Setting}

theorem number_configAfter (hkey : keyField key = some f) (hnumeric : f.isNumeric = true)
    : (configAfter config key val).number f = atoi val.bytes := by
  rw [configAfter_of_some hkey]
  cases f <;> first | rfl | cases hnumeric

theorem number_configAfter_of_ne (hkey : keyField key ≠ some f)
    : (configAfter config key val).number f = config.number f := by
  have hget : (configAfter config key val).get f = config.get f := get_configAfter_of_ne hkey
  cases f <;> first | exact hget | rfl

theorem get_eq_of_number (hnumeric : f.isNumeric = true) (h : config.number f = config'.number f)
    : config.get f = config'.get f := by
  cases f <;> first | exact h | cases hnumeric

theorem number_of_not_numeric (hnumeric : f.isNumeric = false) : config.number f = 0 := by
  cases f <;> first | rfl | cases hnumeric

theorem configAfter_eq_self_iff (hkey : keyField key = some f) (hnumeric : f.isNumeric = true)
    : configAfter config key val = config ↔ atoi val.bytes = config.number f := by
  have hset : (configAfter config key val).number f = atoi val.bytes :=
    number_configAfter hkey hnumeric
  rw [← hset]
  constructor
  . intro heq
    rw [heq]
  . intro hnumber
    apply RunesConfig.ext_get
    intro g
    by_cases hg : g = f
    . rw [hg]
      apply get_eq_of_number hnumeric hnumber
    . apply get_configAfter_of_ne
      rw [hkey, ne_eq, Option.some.injEq]
      exact fun heq => hg heq.symm

theorem documentedAfter_of_isBad (h : o.IsBad f) : documentedAfter config o = config := by
  have ⟨hkey, hbad⟩ := h
  unfold documentedAfter
  rw [hkey]
  dsimp only
  rw [if_pos hbad]

theorem documentedAfter_of_not_isBad (h : ∀ f, ¬o.IsBad f)
    : documentedAfter config o = configAfter config o.key o.val := by
  unfold documentedAfter
  cases hkey : keyField o.key with
  | none => rw [configAfter_of_none hkey]
  | some f =>
    dsimp only
    rw [if_neg (fun hbad => h f ⟨hkey, hbad⟩)]

-- A bad option does what it should only by chance.
theorem configAfter_eq_documentedAfter_iff
    : configAfter config o.key o.val = documentedAfter config o
        ↔ ∀ f, o.IsBad f → atoi o.val.bytes = config.number f := by
  by_cases hbad : ∃ f, o.IsBad f
  . have ⟨f, hf⟩ := hbad
    rw [documentedAfter_of_isBad hf, configAfter_eq_self_iff hf.left hf.right.left]
    constructor
    . intro hatoi g hg
      have heq : some f = some g := hf.left.symm.trans hg.left
      cases heq
      exact hatoi
    . intro hall
      apply hall f hf
  . rw [not_exists] at hbad
    exact iff_of_true (documentedAfter_of_not_isBad hbad).symm (fun f hf => absurd hf (hbad f))

theorem number_documentedAfter_nonneg (h : ∀ f, 0 ≤ config.number f) (f : Field)
    : 0 ≤ (documentedAfter config o).number f := by
  by_cases hbad : ∃ g, o.IsBad g
  . have ⟨g, hg⟩ := hbad
    rw [documentedAfter_of_isBad hg]
    apply h
  . rw [not_exists] at hbad
    rw [documentedAfter_of_not_isBad hbad]
    by_cases hkey : keyField o.key = some f
    . cases hnumeric : f.isNumeric with
      | true =>
        have ⟨hne, hdigits, hlt⟩ : IsUint o.val := by
          by_contra huint
          exact hbad f ⟨hkey, hnumeric, huint⟩
        rw [number_configAfter hkey hnumeric, atoi_of_digits hne hdigits hlt]
        omega
      | false => rw [number_of_not_numeric hnumeric]
    . rw [number_configAfter_of_ne hkey]
      apply h

theorem number_documented_nonneg (l : List Setting) (f : Field) : 0 ≤ (documented l).number f := by
  induction l using List.reverseRecOn generalizing f with
  | nil => cases f <;> first | decide | exact Int.le_refl 0
  | append_singleton l o ih =>
    unfold documented at ih ⊢
    rw [List.foldl_append]
    apply number_documentedAfter_nonneg ih

end

theorem harmlessNumbers_iff (l : List Setting)
    : HarmlessNumbers l
        ↔ AgreeAlong (fun config o => configAfter config o.key o.val) documentedAfter
          documentedAfter setDefaults l := by
  unfold HarmlessNumbers AgreeAlong
  simp only [configAfter_eq_documentedAfter_iff]
  constructor
  . intro h front o later heq f hbad
    apply h front o later f heq hbad
  . intro h front o later f heq hbad
    apply h front o later heq f hbad

theorem keepsNumbers_iff (l : List Setting)
    : KeepsNumbers l
        ↔ AgreeAlong (fun config o => configAfter config o.key o.val) documentedAfter
          (fun config o => configAfter config o.key o.val) setDefaults l := by
  have hbad : ∀ front (o : Setting) f, o.IsBad f →
      (configured (front ++ [o])).number f = atoi o.val.bytes := by
    intro front o f hbad
    unfold configured
    rw [List.foldl_append]
    apply number_configAfter hbad.left hbad.right.left
  unfold KeepsNumbers AgreeAlong
  simp only [configAfter_eq_documentedAfter_iff]
  constructor
  . intro h front o later heq f hf
    rw [← hbad front o f hf]
    apply h front o later f heq hf
  . intro h front o later f heq hf
    rw [hbad front o f hf]
    apply h front o later heq f hf

theorem keepsNumbers_iff_harmlessNumbers (l : List Setting) : KeepsNumbers l ↔ HarmlessNumbers l := by
  rw [keepsNumbers_iff, harmlessNumbers_iff]
  apply agreeAlong_iff

theorem configured_of_harmlessNumbers {l : List Setting} (h : HarmlessNumbers l)
    : configured l = documented l :=
  foldl_eq_of_agreeAlong ((harmlessNumbers_iff l).mp h)

def negativeRows : List CString :=
  [
    ⟨ascii "runes", by decide⟩,
    ⟨ascii "--rows", by decide⟩,
    ⟨ascii "-5", by decide⟩
  ]

end Config
end Runes
