import Mathlib.Data.Rat.Defs
import Runes.Exec.Fields
import Runes.Libc.Number
import Runes.Protocol.Basic

/-!
This module contains the configuration of a terminal and `runes_config_set` with the functions that
parse the values of the options, see `config.c`. A pattern of cairo is the colour that it was made
with.
-/

namespace Runes
namespace Config

open Libc Protocol Exec

structure Rgb where
  r : Rat
  g : Rat
  b : Rat
  deriving DecidableEq

structure RunesConfig where
  mousecursorcolor : Rgb
  cursorcolor : Rgb
  fgdefault : Rgb
  bgdefault : Rgb
  colors : UInt8 → Rgb
  defaultRows : Int
  defaultCols : Int
  scrollLines : Int
  scrollbackLength : Int
  redrawRate : Int
  doubleClickRate : Int
  cmd : Option CString
  fontName : CString
  bellIsUrgent : Bool
  boldIsBright : Bool
  boldIsBold : Bool
  audibleBell : Bool

-- Colours in thousandths.
def rgb (r g b : Nat) : Rgb := ⟨mkRat r 1000, mkRat g 1000, mkRat b 1000⟩

def baseColors : List Rgb :=
  [
    rgb 0 0 0, rgb 804 0 0, rgb 0 804 0, rgb 804 804 0, rgb 0 0 804, rgb 804 0 804, rgb 0 804 804,
    rgb 898 898 898, rgb 302 302 302, rgb 1000 0 0, rgb 0 1000 0, rgb 1000 1000 0, rgb 0 0 1000,
    rgb 1000 0 1000, rgb 0 1000 1000, rgb 1000 1000 1000
  ]

def cubeLevels : List Nat := [0, 373, 529, 686, 843, 1000]

def greyLevels : List Nat :=
  [
    31, 71, 110, 149, 188, 227, 267, 306, 345, 376, 400, 463, 502, 541, 580, 620, 659, 698, 737, 776,
    816, 855, 894, 933
  ]

-- The source lists the 256 colours one by one.
def defaultColor (i : UInt8) : Rgb :=
  let i := i.toNat
  let cube n := cubeLevels.getD (n % 6) 0
  let grey := greyLevels.getD (i - 232) 0
  if i < 16 then
    baseColors.getD i (rgb 0 0 0)
  else if i < 232 then
    rgb (cube ((i - 16) / 36)) (cube ((i - 16) / 6)) (cube (i - 16))
  else
    rgb grey grey grey

-- The configuration that `runes_config_set_defaults` makes of a zeroed one.
def setDefaults : RunesConfig :=
  {
    mousecursorcolor := rgb 1000 1000 1000
    cursorcolor := rgb 0 1000 0
    fgdefault := rgb 827 827 827
    bgdefault := rgb 0 0 0
    colors := defaultColor
    defaultRows := 24
    defaultCols := 80
    scrollLines := 3
    scrollbackLength := 4096
    redrawRate := 20
    doubleClickRate := 500
    cmd := none
    fontName := ⟨ascii "monospace 10", by decide⟩
    bellIsUrgent := true
    boldIsBright := true
    boldIsBold := true
    audibleBell := true
  }

inductive SetWarning where
  | unknownOption (key : CString)
  | unknownBool (val : CString)
  | unknownUint (val : CString)
  | unknownColor (val : CString)
  deriving DecidableEq

def parseBool (val : CString) : Bool × List SetWarning :=
  if val.bytes = ascii "true" then
    (true, [])
  else if val.bytes = ascii "false" then
    (false, [])
  else
    (false, [.unknownBool val])

def parseUint (val : CString) : Int × List SetWarning :=
  let digits := val.bytes.takeWhile isDigit
  (atoi val.bytes, if digits.length ≠ val.bytes.length then [.unknownUint val] else [])

def parseString (val : CString) : CString := val

-- `cairo_pattern_create_rgb` clamps what is outside of its range.
def colorLevel (n : UInt32) : Rat := if n.toNat ≤ 255 then mkRat n.toNat 255 else 1

def scanColor (s : List UInt8) : Option Rgb :=
  if s.head? = some 0x23 then do
    let (r, s) ← scanHex s.tail
    let (g, s) ← scanHex s
    let (b, _) ← scanHex s
    return ⟨colorLevel r, colorLevel g, colorLevel b⟩
  else
    none

def parseColor (val : CString) : Option Rgb × List SetWarning :=
  if val.bytes.length ≠ 7 then
    (none, [.unknownColor val])
  else
    match scanColor val.bytes with
    | some color => (some color, [])
    | none => (none, [.unknownColor val])

-- What the options for colours have in common: a colour that cannot be parsed changes nothing.
def setColor (config : RunesConfig) (put : Rgb → RunesConfig) (val : CString)
    : RunesConfig × List SetWarning :=
  match parseColor val with
  | (some newcolor, warnings) => (put newcolor, warnings)
  | (none, warnings) => (config, warnings)

def setBool (put : Bool → RunesConfig) (val : CString) : RunesConfig × List SetWarning :=
  let (b, warnings) := parseBool val
  (put b, warnings)

def setUint (put : Int → RunesConfig) (val : CString) : RunesConfig × List SetWarning :=
  let (n, warnings) := parseUint val
  (put n, warnings)

def configSet (config : RunesConfig) (key val : CString) : RunesConfig × List SetWarning :=
  if key.bytes = ascii "font" then
    ({ config with fontName := parseString val }, [])
  else if key.bytes = ascii "bold_is_bright" then
    setBool ({ config with boldIsBright := · }) val
  else if key.bytes = ascii "bold_is_bold" then
    setBool ({ config with boldIsBold := · }) val
  else if key.bytes = ascii "audible_bell" then
    setBool ({ config with audibleBell := · }) val
  else if key.bytes = ascii "bell_is_urgent" then
    setBool ({ config with bellIsUrgent := · }) val
  else if key.bytes = ascii "bgcolor" then
    setColor config ({ config with bgdefault := · }) val
  else if key.bytes = ascii "fgcolor" then
    setColor config ({ config with fgdefault := · }) val
  else if key.bytes = ascii "cursorcolor" then
    setColor config ({ config with cursorcolor := · }) val
  else if key.bytes = ascii "mousecursorcolor" then
    setColor config ({ config with mousecursorcolor := · }) val
  else if key.bytes.take 5 = ascii "color" then
    let number := key.bytes.drop 5
    let i := atoi number
    if !number.head?.any isDigit ∨ i < 0 ∨ i > 255 then
      (config, [.unknownOption key])
    else
      let put newcolor :=
        { config with colors := fun j => if j.toNat = i then newcolor else config.colors j }
      setColor config put val
  else if key.bytes = ascii "rows" then
    setUint ({ config with defaultRows := · }) val
  else if key.bytes = ascii "cols" then
    setUint ({ config with defaultCols := · }) val
  else if key.bytes = ascii "scroll_lines" then
    setUint ({ config with scrollLines := · }) val
  else if key.bytes = ascii "scrollback_length" then
    setUint ({ config with scrollbackLength := · }) val
  else if key.bytes = ascii "redraw_rate" then
    setUint ({ config with redrawRate := · }) val
  else if key.bytes = ascii "double_click_rate" then
    setUint ({ config with doubleClickRate := · }) val
  else if key.bytes = ascii "command" then
    ({ config with cmd := some (parseString val) }, [])
  else
    (config, [.unknownOption key])

-- The configuration that `runes_config_set` leaves.
def configAfter (config : RunesConfig) (key val : CString) : RunesConfig :=
  (configSet config key val).fst

inductive Field where
  | mousecursorcolor
  | cursorcolor
  | fgdefault
  | bgdefault
  | color (i : UInt8)
  | defaultRows
  | defaultCols
  | scrollLines
  | scrollbackLength
  | redrawRate
  | doubleClickRate
  | cmd
  | fontName
  | bellIsUrgent
  | boldIsBright
  | boldIsBold
  | audibleBell
  deriving DecidableEq

def Field.Value (f : Field) : Type :=
  match f with
  | .mousecursorcolor | .cursorcolor | .fgdefault | .bgdefault | .color _ => Rgb
  | .defaultRows | .defaultCols | .scrollLines | .scrollbackLength | .redrawRate
  | .doubleClickRate => Int
  | .cmd => Option CString
  | .fontName => CString
  | .bellIsUrgent | .boldIsBright | .boldIsBold | .audibleBell => Bool

def RunesConfig.get (config : RunesConfig) (f : Field) : f.Value :=
  match f with
  | .mousecursorcolor => config.mousecursorcolor
  | .cursorcolor => config.cursorcolor
  | .fgdefault => config.fgdefault
  | .bgdefault => config.bgdefault
  | .color i => config.colors i
  | .defaultRows => config.defaultRows
  | .defaultCols => config.defaultCols
  | .scrollLines => config.scrollLines
  | .scrollbackLength => config.scrollbackLength
  | .redrawRate => config.redrawRate
  | .doubleClickRate => config.doubleClickRate
  | .cmd => config.cmd
  | .fontName => config.fontName
  | .bellIsUrgent => config.bellIsUrgent
  | .boldIsBright => config.boldIsBright
  | .boldIsBold => config.boldIsBold
  | .audibleBell => config.audibleBell

def RunesConfig.put (config : RunesConfig) (f : Field) (x : f.Value) : RunesConfig :=
  match f with
  | .mousecursorcolor => { config with mousecursorcolor := x }
  | .cursorcolor => { config with cursorcolor := x }
  | .fgdefault => { config with fgdefault := x }
  | .bgdefault => { config with bgdefault := x }
  | .color i => { config with colors := fun j => if j = i then x else config.colors j }
  | .defaultRows => { config with defaultRows := x }
  | .defaultCols => { config with defaultCols := x }
  | .scrollLines => { config with scrollLines := x }
  | .scrollbackLength => { config with scrollbackLength := x }
  | .redrawRate => { config with redrawRate := x }
  | .doubleClickRate => { config with doubleClickRate := x }
  | .cmd => { config with cmd := x }
  | .fontName => { config with fontName := x }
  | .bellIsUrgent => { config with bellIsUrgent := x }
  | .boldIsBright => { config with boldIsBright := x }
  | .boldIsBold => { config with boldIsBold := x }
  | .audibleBell => { config with audibleBell := x }

-- What a value means for a field, unless it is a colour that cannot be parsed.
def Field.parse (f : Field) (val : CString) : Option f.Value :=
  match f with
  | .mousecursorcolor | .cursorcolor | .fgdefault | .bgdefault | .color _ => (parseColor val).fst
  | .defaultRows | .defaultCols | .scrollLines | .scrollbackLength | .redrawRate
  | .doubleClickRate => some (parseUint val).fst
  | .cmd => some (some (parseString val))
  | .fontName => some (parseString val)
  | .bellIsUrgent | .boldIsBright | .boldIsBold | .audibleBell => some (parseBool val).fst

theorem RunesConfig.get_put_self (config : RunesConfig) (f : Field) (x : f.Value)
    : (config.put f x).get f = x := by
  cases f with
  | color i => exact if_pos rfl
  | _ => rfl

theorem RunesConfig.get_put_of_ne (config : RunesConfig) (f g : Field) (x : g.Value) (h : f ≠ g)
    : (config.put g x).get f = config.get f := by
  cases g with
  | color i =>
    cases f with
    | color j =>
      apply if_neg
      intro heq
      exact h (congrArg Field.color heq)
    | _ => rfl
  | _ =>
    cases f with
    | _ => first | rfl | exact absurd rfl h

theorem RunesConfig.ext_get (config config' : RunesConfig) (h : ∀ f, config.get f = config'.get f)
    : config = config' := by
  cases config
  cases config'
  simp only [mk.injEq]
  exact ⟨h .mousecursorcolor, h .cursorcolor, h .fgdefault, h .bgdefault,
    funext (fun i => h (.color i)), h .defaultRows, h .defaultCols, h .scrollLines,
    h .scrollbackLength, h .redrawRate, h .doubleClickRate, h .cmd, h .fontName, h .bellIsUrgent,
    h .boldIsBright, h .boldIsBold, h .audibleBell⟩

def configFields : Fields RunesConfig Field.Value where
  get := RunesConfig.get
  put := RunesConfig.put
  get_put_self := RunesConfig.get_put_self
  get_put_of_ne := RunesConfig.get_put_of_ne
  ext := RunesConfig.ext_get

end Config
end Runes
