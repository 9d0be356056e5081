import Runes.Config.Set

/-!
This module contains which field of the configuration an option names, and that it does not touch any
other one.
-/

namespace Runes
namespace Config

open Libc Protocol Exec

def optionNames : List (List UInt8 × Field) :=
  [
    (ascii "font", .fontName),
    (ascii "bold_is_bright", .boldIsBright),
    (ascii "bold_is_bold", .boldIsBold),
    (ascii "audible_bell", .audibleBell),
    (ascii "bell_is_urgent", .bellIsUrgent),
    (ascii "bgcolor", .bgdefault),
    (ascii "fgcolor", .fgdefault),
    (ascii "cursorcolor", .cursorcolor),
    (ascii "mousecursorcolor", .mousecursorcolor),
    (ascii "rows", .defaultRows),
    (ascii "cols", .defaultCols),
    (ascii "scroll_lines", .scrollLines),
    (ascii "scrollback_length", .scrollbackLength),
    (ascii "redraw_rate", .redrawRate),
    (ascii "double_click_rate", .doubleClickRate),
    (ascii "command", .cmd)
  ]

-- An option is one of the list, or `color` with something that says which colour it is.
def fieldOf (number : List UInt8 → Option UInt8) (key : CString) : Option Field :=
  match optionNames.lookup key.bytes with
  | some f => some f
  | none =>
    if key.bytes.take 5 = ascii "color" then
      (number (key.bytes.drop 5)).map Field.color
    else
      none

-- The numbers that the configuration file documents.
def documentedNumber (number : List UInt8) : Option UInt8 :=
  if number ≠ [] ∧ number.all isDigit ∧ decimal number ≤ 255 then
    some (.ofNat (decimal number))
  else
    none

-- The numbers that the code takes.
def acceptedNumber (number : List UInt8) : Option UInt8 :=
  if number.head?.any isDigit ∧ 0 ≤ atoi number ∧ atoi number ≤ 255 then
    some (.ofNat (atoi number).toNat)
  else
    none

/-- The field that an option names by the documentation. -/
def namedField (key : CString) : Option Field := fieldOf documentedNumber key

-- The field that the comparisons of `runes_config_set` come to.
def keyField (key : CString) : Option Field := fieldOf acceptedNumber key

def assigned (key val : CString) : Option ((f : Field) × f.Value) :=
  match keyField key with
  | some f => (f.parse val).map (fun x => ⟨f, x⟩)
  | none => none

section

variable {config : RunesConfig} {key val : CString} {f : Field}

theorem assigned_of_keyField (h : keyField key = some f)
    : assigned key val = (f.parse val).map (fun x => ⟨f, x⟩) := by
  unfold assigned
  rw [h]

theorem keyField_of_lookup (h : optionNames.lookup key.bytes = some f) : keyField key = some f := by
  unfold keyField fieldOf
  rw [h]

theorem lookup_of_color (h : key.bytes.take 5 = ascii "color")
    : optionNames.lookup key.bytes = none := by
  have hnames : ∀ p ∈ optionNames, p.fst.take 5 ≠ ascii "color" := by decide
  rw [List.lookup_eq_none_iff]
  intro p hp
  rw [bne_iff_ne]
  intro heq
  rw [heq] at h
  exact hnames p hp h

theorem setColor_fst (put : Rgb → RunesConfig)
    : (setColor config put val).fst = ((parseColor val).fst.map put).getD config := by
  unfold setColor
  split
  . next heq => rw [heq, Option.map_some, Option.getD_some]
  . next heq => rw [heq, Option.map_none, Option.getD_none]

theorem assign_parse (config : RunesConfig) (x : Option f.Value)
    : configFields.assign config (x.map (fun x => ⟨f, x⟩)) = (x.map (config.put f)).getD config := by
  cases x <;> rfl

-- What `runes_config_set` does for an option of the list.
theorem assign_of_lookup {config' : RunesConfig} (h : optionNames.lookup key.bytes = some f)
    (hset : config' = ((f.parse val).map (config.put f)).getD config)
    : config' = configFields.assign config (assigned key val) := by
  rw [assigned_of_keyField (keyField_of_lookup h), assign_parse, hset]

theorem configAfter_color (h : key.bytes.take 5 = ascii "color")
    : (let i := atoi (key.bytes.drop 5)
      if !(key.bytes.drop 5).head?.any isDigit ∨ i < 0 ∨ i > 255 then
        (config, [.unknownOption key])
      else
        setColor config
          (fun newcolor =>
            { config with colors := fun j => if j.toNat = i then newcolor else config.colors j })
          val).fst
        = configFields.assign config (assigned key val) := by
  have hkey : keyField key = (acceptedNumber (key.bytes.drop 5)).map Field.color := by
    unfold keyField fieldOf
    rw [lookup_of_color h, if_pos h]
  unfold acceptedNumber at hkey
  dsimp only
  split
  . next hrefused =>
    have hnone : keyField key = none := by
      rw [hkey, if_neg, Option.map_none]
      simp only [Bool.not_eq_true'] at hrefused
      rintro ⟨hdigit, hlow, hhigh⟩
      rcases hrefused with hdigit' | hrange
      . rw [hdigit] at hdigit'
        cases hdigit'
      . omega
    unfold assigned
    rw [hnone]
    rfl
  . next hrefused =>
    simp only [Bool.not_eq_true', not_or, Bool.not_eq_false] at hrefused
    have ⟨hdigit, hlow, hhigh⟩ := hrefused
    rw [if_pos ⟨hdigit, by omega, by omega⟩, Option.map_some] at hkey
    rw [assigned_of_keyField hkey, assign_parse, setColor_fst]
    have hindex : ∀ j : UInt8, (j.toNat : Int) = atoi (key.bytes.drop 5)
        ↔ j = .ofNat (atoi (key.bytes.drop 5)).toNat := by
      intro j
      rw [← UInt8.toNat_inj, UInt8.toNat_ofNat']
      omega
    simp only [hindex]
    rfl

theorem ite_fst {α β : Type} {p : Prop} [Decidable p] {a b : α × β} {c : α}
    (hpos : p → a.fst = c) (hneg : ¬p → b.fst = c)
    : (if p then a else b).fst = c := by
  split
  . next h => apply hpos h
  . next h => apply hneg h

/-- `runes_config_set` assigns one field, or none. -/
theorem configAfter_eq (config : RunesConfig) (key val : CString)
    : configAfter config key val = configFields.assign config (assigned key val) := by
  unfold configAfter configSet
  apply ite_fst
  . intro h
    apply assign_of_lookup (f := .fontName) (by rw [h]; rfl) rfl
  intro h1
  apply ite_fst
  . intro h
    apply assign_of_lookup (f := .boldIsBright) (by rw [h]; rfl) rfl
  intro h2
  apply ite_fst
  . intro h
    apply assign_of_lookup (f := .boldIsBold) (by rw [h]; rfl) rfl
  intro h3
  apply ite_fst
  . intro h
    apply assign_of_lookup (f := .audibleBell) (by rw [h]; rfl) rfl
  intro h4
  apply ite_fst
  . intro h
    apply assign_of_lookup (f := .bellIsUrgent) (by rw [h]; rfl) rfl
  intro h5
  apply ite_fst
  . intro h
    apply assign_of_lookup (f := .bgdefault) (by rw [h]; rfl) (setColor_fst _)
  intro h6
  apply ite_fst
  . intro h
    apply assign_of_lookup (f := .fgdefault) (by rw [h]; rfl) (setColor_fst _)
  intro h7
  apply ite_fst
  . intro h
    apply assign_of_lookup (f := .cursorcolor) (by rw [h]; rfl) (setColor_fst _)
  intro h8
  apply ite_fst
  . intro h
    apply assign_of_lookup (f := .mousecursorcolor) (by rw [h]; rfl) (setColor_fst _)
  intro h9
  apply ite_fst
  . intro h
    apply configAfter_color h
  intro h10
  apply ite_fst
  . intro h
    apply assign_of_lookup (f := .defaultRows) (by rw [h]; rfl) rfl
  intro h11
  apply ite_fst
  . intro h
    apply assign_of_lookup (f := .defaultCols) (by rw [h]; rfl) rfl
  intro h12
  apply ite_fst
  . intro h
    apply assign_of_lookup (f := .scrollLines) (by rw [h]; rfl) rfl
  intro h13
  apply ite_fst
  . intro h
    apply assign_of_lookup (f := .scrollbackLength) (by rw [h]; rfl) rfl
  intro h14
  apply ite_fst
  . intro h
    apply assign_of_lookup (f := .redrawRate) (by rw [h]; rfl) rfl
  intro h15
  apply ite_fst
  . intro h
    apply assign_of_lookup (f := .doubleClickRate) (by rw [h]; rfl) rfl
  intro h16
  apply ite_fst
  . intro h
    apply assign_of_lookup (f := .cmd) (by rw [h]; rfl) rfl
  intro h17
  have hnone : optionNames.lookup key.bytes = none := by
    rw [List.lookup_eq_none_iff]
    simp [optionNames, *]
  unfold assigned keyField fieldOf
  rw [hnone]
  dsimp only
  rw [if_neg h10]
  rfl

theorem configAfter_of_none (h : keyField key = none) : configAfter config key val = config := by
  rw [configAfter_eq, assigned, h]
  rfl

theorem configAfter_of_some (h : keyField key = some f)
    : configAfter config key val = ((f.parse val).map (config.put f)).getD config := by
  rw [configAfter_eq, assigned_of_keyField h, assign_parse]

theorem configAfter_parsed {x : f.Value} (h : keyField key = some f) (hparse : f.parse val = some x)
    : configAfter config key val = config.put f x := by
  rw [configAfter_of_some h, hparse]
  rfl

theorem get_configAfter_of_ne {g : Field} (h : keyField key ≠ some g)
    : (configAfter config key val).get g = config.get g := by
  cases hkey : keyField key with
  | none => rw [configAfter_of_none hkey]
  | some f =>
    rw [configAfter_of_some hkey]
    cases f.parse val with
    | none => rfl
    | some x =>
      rw [Option.map_some, Option.getD_some]
      apply RunesConfig.get_put_of_ne
      intro heq
      rw [heq] at h
      exact h hkey

end

theorem acceptedNumber_of_documentedNumber {number : List UInt8} {i : UInt8}
    (h : documentedNumber number = some i)
    : acceptedNumber number = some i := by
  unfold documentedNumber at h
  split at h
  . next hdigits =>
    have ⟨hne, hall, hle⟩ := hdigits
    have hdigits := List.all_eq_true.mp hall
    have ⟨c, rest, hcons⟩ := List.exists_cons_of_ne_nil hne
    have hhead : number.head? = some c := by rw [hcons, List.head?_cons]
    have hdigit : isDigit c = true := hdigits c (by simp [hcons])
    have hatoi : atoi number = decimal number := atoi_of_digits hne hdigits (by omega)
    unfold acceptedNumber
    rw [hatoi, hhead, Option.any_some, if_pos ⟨hdigit, by omega, by omega⟩, Int.toNat_natCast]
    exact h
  . cases h

theorem keyField_of_namedField {key : CString} {f : Field} (h : namedField key = some f)
    : keyField key = some f := by
  unfold namedField fieldOf at h
  unfold keyField fieldOf
  split at h
  . exact h
  . split at h
    . next hcolor =>
      have ⟨i, hnumber, heq⟩ := Option.map_eq_some_iff.mp h
      rw [if_pos hcolor, acceptedNumber_of_documentedNumber hnumber, Option.map_some, heq]
    . cases h

/-- The option changes nothing but the field that it names, and nothing if it names none. -/
def TouchesOnlyNamed (key : CString) : Prop :=
  ∀ config val f, namedField key ≠ some f →
    (configAfter config key val).get f = config.get f

-- `color` with something that `atoi` takes for a number of a colour, although it is none.
def StrayColor (key : CString) : Prop :=
  let number := key.bytes.drop 5
  key.bytes.take 5 = ascii "color"
    ∧ number.head?.any isDigit
    ∧ 0 ≤ atoi number
    ∧ atoi number ≤ 255
    ∧ ¬(number.all isDigit ∧ decimal number ≤ 255)

section

variable {key : CString}

theorem StrayColor.keyField (h : StrayColor key) : ∃ i, keyField key = some (.color i) := by
  have ⟨hcolor, hdigit, hlow, hhigh, _⟩ := h
  unfold Config.keyField fieldOf acceptedNumber
  rw [lookup_of_color hcolor]
  dsimp only
  rw [if_pos hcolor, if_pos ⟨hdigit, hlow, hhigh⟩]
  exact ⟨_, rfl⟩

theorem StrayColor.namedField (h : StrayColor key) : namedField key = none := by
  have ⟨hcolor, _, _, _, hstray⟩ := h
  unfold Config.namedField fieldOf documentedNumber
  rw [lookup_of_color hcolor]
  dsimp only
  rw [if_pos hcolor, if_neg, Option.map_none]
  rintro ⟨_, hall, hle⟩
  exact hstray ⟨hall, hle⟩

theorem keyField_eq_namedField (h : ¬StrayColor key) : keyField key = namedField key := by
  unfold StrayColor at h
  unfold keyField namedField fieldOf
  split
  . rfl
  . split
    . next hcolor =>
      congr 1
      cases hnumber : documentedNumber (key.bytes.drop 5) with
      | some i => rw [acceptedNumber_of_documentedNumber hnumber]
      | none =>
        unfold acceptedNumber
        unfold documentedNumber at hnumber
        rw [if_neg]
        rintro ⟨hdigit, hlow, hhigh⟩
        apply h
        refine ⟨hcolor, hdigit, hlow, hhigh, ?_⟩
        rintro ⟨hall, hle⟩
        rw [if_pos] at hnumber
        . cases hnumber
        . refine ⟨?_, hall, hle⟩
          intro hnil
          rw [hnil] at hdigit
          cases hdigit
    . rfl

theorem touchesOnlyNamed_of_not_strayColor (h : ¬StrayColor key) : TouchesOnlyNamed key := by
  intro config val f hne
  apply get_configAfter_of_ne
  rw [keyField_eq_namedField h]
  exact hne

def white : CString where
  bytes := ascii "#ffffff"
  nul_free := by decide

theorem parseColor_white : (parseColor white).fst = some ⟨1, 1, 1⟩ := by decide +kernel

theorem colors_white {i : UInt8} (h : keyField key = some (.color i)) (config : RunesConfig)
    : (configAfter config key white).colors i = ⟨1, 1, 1⟩ := by
  have hset : configAfter config key white = config.put (.color i) ⟨1, 1, 1⟩ :=
    configAfter_parsed h parseColor_white
  rw [hset]
  apply config.get_put_self (.color i)

theorem not_touchesOnlyNamed_of_strayColor (h : StrayColor key) : ¬TouchesOnlyNamed key := by
  intro htouches
  have ⟨i, hkey⟩ := h.keyField
  have hnone : namedField key ≠ some (.color i) := by
    rw [h.namedField]
    simp
  let config := { setDefaults with colors := fun _ => ⟨0, 0, 0⟩ }
  have hsame : (configAfter config key white).colors i = ⟨0, 0, 0⟩ :=
    htouches config white (.color i) hnone
  rw [colors_white hkey] at hsame
  revert hsame
  decide

theorem configAfter_comm {key key' : CString} {f f' : Field} (hkey : keyField key = some f)
    (hkey' : keyField key' = some f') (hne : f ≠ f') (config : RunesConfig) (val val' : CString)
    : configAfter (configAfter config key val) key' val'
        = configAfter (configAfter config key' val') key val := by
  simp only [configAfter_of_some hkey, configAfter_of_some hkey']
  cases f.parse val with
  | none => rfl
  | some x =>
    cases f'.parse val' with
    | none => rfl
    | some y => apply configFields.put_comm config hne

/--
An option changes nothing but the field that it names, unless it is `color` with a number that only
begins with digits or does not fit. Options that name different fields can be exchanged.
-/
theorem touchesOnlyNamed_iff (key : CString)
    : (TouchesOnlyNamed key ↔ ¬StrayColor key)
        ∧
      ∀ key' f f', namedField key = some f → namedField key' = some f' → f ≠ f' →
        ∀ config val val', configAfter (configAfter config key val) key' val'
          = configAfter (configAfter config key' val') key val := by
  constructor
  . constructor
    . intro htouches hstray
      exact not_touchesOnlyNamed_of_strayColor hstray htouches
    . exact touchesOnlyNamed_of_not_strayColor
  . intro key' f f' hkey hkey' hne config val val'
    apply configAfter_comm (keyField_of_namedField hkey) (keyField_of_namedField hkey') hne

def color5x : CString where
  bytes := ascii "color5x"
  nul_free := by decide

theorem not_touchesOnlyNamed_color5x
    : namedField color5x = none
        ∧ ¬TouchesOnlyNamed color5x
        ∧ (configAfter setDefaults color5x white).colors 5 ≠ setDefaults.colors 5 := by
  have hstray : StrayColor color5x := by
    refine ⟨by decide, by decide, by decide, by decide, by decide⟩
  refine ⟨hstray.namedField, not_touchesOnlyNamed_of_strayColor hstray, ?_⟩
  decide +kernel

end

end Config
end Runes
