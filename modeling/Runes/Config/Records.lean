import Mathlib.Logic.Function.Basic
import Runes.Config.Precedence
import Runes.Exec.Machine
import Runes.Heap.Basic
import Runes.Refs.Creates

/-!
This module contains the configurations as a process has them in its memory: with pointers to strings and to
patterns of cairo, which are made when a terminal is opened and given back when it is deleted.
-/

namespace Runes
namespace Config

open Libc Protocol Exec Unix

/--
The blocks of `malloc` with the strings in them, the patterns of cairo with their colours, and how many
files are open that were opened with `fopen`.
-/
structure Memory where
  heap : Heap Unit
  strings : Nat → CString
  refs : Refs
  colors : Nat → Rgb
  files : Nat

namespace Memory

def malloc (size : Nat) (m : Memory) : Nat × Memory :=
  (m.heap.next, { m with heap := m.heap.malloc size })

def strdup (s : CString) (m : Memory) : Nat × Memory :=
  (m.heap.next,
    { m with
      heap := m.heap.malloc (s.bytes.length + 1)
      strings := Function.update m.strings m.heap.next s
    })

def free (addr : Nat) (m : Memory) : Memory := { m with heap := m.heap.free (.block addr) }

def createRgb (color : Rgb) (m : Memory) : Nat × Memory :=
  (m.refs.next,
    { m with refs := m.refs.create, colors := Function.update m.colors m.refs.next color })

def destroy (p : Nat) (m : Memory) : Memory := { m with refs := m.refs.destroy p }

end Memory

-- The fields of a configuration that point to patterns.
inductive Slot where
  | cursorcolor
  | mousecursorcolor
  | fgdefault
  | bgdefault
  | color (i : UInt8)
  deriving DecidableEq

-- In the order in which the patterns are made and destroyed.
def Slot.all : List Slot :=
  [.cursorcolor, .mousecursorcolor, .fgdefault, .bgdefault]
    ++ (List.range 256).map (fun i => .color (UInt8.ofNat i))

def Slot.default (slot : Slot) : Rgb :=
  match slot with
  | .cursorcolor => setDefaults.cursorcolor
  | .mousecursorcolor => setDefaults.mousecursorcolor
  | .fgdefault => setDefaults.fgdefault
  | .bgdefault => setDefaults.bgdefault
  | .color i => setDefaults.colors i

/-- `struct runes_config`, with the block that it is in. -/
structure Record where
  block : Nat
  pattern : Slot → Nat
  defaultRows : Int
  defaultCols : Int
  scrollLines : Int
  scrollbackLength : Int
  redrawRate : Int
  doubleClickRate : Int
  cmd : Option Nat
  fontName : Nat
  bellIsUrgent : Bool
  boldIsBright : Bool
  boldIsBold : Bool
  audibleBell : Bool

/-- The configuration that a record stands for. -/
def Record.config (r : Record) (m : Memory) : RunesConfig :=
  {
    mousecursorcolor := m.colors (r.pattern .mousecursorcolor)
    cursorcolor := m.colors (r.pattern .cursorcolor)
    fgdefault := m.colors (r.pattern .fgdefault)
    bgdefault := m.colors (r.pattern .bgdefault)
    colors := fun i => m.colors (r.pattern (.color i))
    defaultRows := r.defaultRows
    defaultCols := r.defaultCols
    scrollLines := r.scrollLines
    scrollbackLength := r.scrollbackLength
    redrawRate := r.redrawRate
    doubleClickRate := r.doubleClickRate
    cmd := r.cmd.map m.strings
    fontName := m.strings r.fontName
    bellIsUrgent := r.bellIsUrgent
    boldIsBright := r.boldIsBright
    boldIsBold := r.boldIsBold
    audibleBell := r.audibleBell
  }

def createPatterns (slots : List Slot) (s : Memory × (Slot → Nat)) : Memory × (Slot → Nat) :=
  slots.foldl
    (fun (m, pattern) slot =>
      let (p, m) := m.createRgb slot.default
      (m, Function.update pattern slot p))
    s

def setDefaultsFrom (block fontName : Nat) (filled : Memory × (Slot → Nat)) : Memory × Record :=
  (filled.fst,
    {
      block
      pattern := filled.snd
      defaultRows := 24
      defaultCols := 80
      scrollLines := 3
      scrollbackLength := 4096
      redrawRate := 20
      doubleClickRate := 500
      cmd := none
      fontName
      bellIsUrgent := true
      boldIsBright := true
      boldIsBold := true
      audibleBell := true
    })

-- `runes_config_set_defaults`, for a record that is all zeros.
def setDefaultsIn (block : Nat) (m : Memory) : Memory × Record :=
  let (fontName, m) := m.strdup setDefaults.fontName
  setDefaultsFrom block fontName (createPatterns Slot.all (m, fun _ => 0))

/-- `runes_config_get_config_file`, with the names that it makes of the variables. -/
def getConfigFileIn (fopen : Path → Option (List UInt8)) (env : Environ) (m : Memory)
    : Option (List UInt8) × Memory :=
  let (dir, m) := m.malloc ((configDir env).length + 1)
  let first := configDir env ++ ascii "/runes/runes.conf"
  let (path, m) := m.malloc (first.length + 1)
  let m := m.free dir
  let m := m.free path
  match fopen first with
  | some file => (some file, { m with files := m.files + 1 })
  | none =>
    let second := printed (getenv env home) ++ ascii "/.runesrc"
    let (path, m) := m.malloc (second.length + 1)
    let m := m.free path
    match fopen second with
    | some file => (some file, { m with files := m.files + 1 })
    | none =>
      match fopen (ascii "/etc/runesrc") with
      | some file => (some file, { m with files := m.files + 1 })
      | none => (none, m)

-- What the options for colours have in common. The pattern is made by `runes_config_parse_color`.
def setPattern (slot : Slot) (val : CString) (s : Memory × Record) : Memory × Record :=
  match (parseColor val).fst with
  | some color =>
    let (newcolor, m) := s.fst.createRgb color
    (m.destroy (s.snd.pattern slot),
      { s.snd with pattern := Function.update s.snd.pattern slot newcolor })
  | none => s

def setFont (val : CString) (s : Memory × Record) : Memory × Record :=
  let (fontName, m) := (s.fst.free s.snd.fontName).strdup (parseString val)
  (m, { s.snd with fontName })

-- The old command is not freed.
def setCommand (val : CString) (s : Memory × Record) : Memory × Record :=
  let (cmd, m) := s.fst.strdup (parseString val)
  (m, { s.snd with cmd := some cmd })

/-- `runes_config_set` -/
def configSetIn (s : Memory × Record) (key val : CString) : Memory × Record :=
  let (m, r) := s
  if key.bytes = ascii "font" then
    setFont val s
  else if key.bytes = ascii "bold_is_bright" then
    (m, { r with boldIsBright := (parseBool val).fst })
  else if key.bytes = ascii "bold_is_bold" then
    (m, { r with boldIsBold := (parseBool val).fst })
  else if key.bytes = ascii "audible_bell" then
    (m, { r with audibleBell := (parseBool val).fst })
  else if key.bytes = ascii "bell_is_urgent" then
    (m, { r with bellIsUrgent := (parseBool val).fst })
  else if key.bytes = ascii "bgcolor" then
    setPattern .bgdefault val s
  else if key.bytes = ascii "fgcolor" then
    setPattern .fgdefault val s
  else if key.bytes = ascii "cursorcolor" then
    setPattern .cursorcolor val s
  else if key.bytes = ascii "mousecursorcolor" then
    setPattern .mousecursorcolor val s
  else if key.bytes.take 5 = ascii "color" then
    let number := key.bytes.drop 5
    let i := atoi number
    if !number.head?.any isDigit ∨ i < 0 ∨ i > 255 then
      s
    else
      setPattern (.color (UInt8.ofNat i.toNat)) val s
  else if key.bytes = ascii "rows" then
    (m, { r with defaultRows := (parseUint val).fst })
  else if key.bytes = ascii "cols" then
    (m, { r with defaultCols := (parseUint val).fst })
  else if key.bytes = ascii "scroll_lines" then
    (m, { r with scrollLines := (parseUint val).fst })
  else if key.bytes = ascii "scrollback_length" then
    (m, { r with scrollbackLength := (parseUint val).fst })
  else if key.bytes = ascii "redraw_rate" then
    (m, { r with redrawRate := (parseUint val).fst })
  else if key.bytes = ascii "double_click_rate" then
    (m, { r with doubleClickRate := (parseUint val).fst })
  else if key.bytes = ascii "command" then
    setCommand val s
  else
    s

-- With pointers of 64 bits.
def sizeofRunesConfig : Nat := 2128

/-- `runes_config_new`, if it neither reads nor writes where it must not. -/
def configNewIn (fopen : Path → Option (List UInt8)) (env : Environ) (line : Buffer lineSize) (argc : Int)
    (argv : List CString) (m : Memory)
    : Option (Memory × Record) :=
  let (block, m) := m.malloc sizeofRunesConfig
  let made := setDefaultsIn block m
  let opened := getConfigFileIn fopen env made.fst
  configNewWith configSetIn (opened.snd, made.snd) opened.fst line argc argv

def destroyPatterns (slots : List Slot) (pattern : Slot → Nat) (m : Memory) : Memory :=
  slots.foldl (fun m slot => m.destroy (pattern slot)) m

/-- `runes_config_delete` -/
def configDelete (r : Record) (m : Memory) : Memory :=
  (destroyPatterns Slot.all r.pattern (m.free r.fontName)).free r.block

/-- The configurations of the terminals that are open. -/
structure Process where
  memory : Memory
  terms : List Record

inductive Input where
  -- `line` is what happens to be in the buffer for lines, `fopen` what the files have in them now
  | new (fopen : Path → Option (List UInt8)) (line : Buffer lineSize) (argc : Int) (argv : List CString)
  | delete (i : Nat)

def stepProcess (env : Environ) (s : Process) (input : Input) : Option Process :=
  match input with
  | .new fopen line argc argv =>
    (configNewIn fopen env line argc argv s.memory).map fun (m, r) =>
      { memory := m, terms := s.terms ++ [r] }
  | .delete i =>
    s.terms[i]?.map fun r => { memory := configDelete r s.memory, terms := s.terms.eraseIdx i }

def processes (env : Environ) (m : Memory) : Machine Process Input where
  init := { memory := m, terms := [] }
  step := stepProcess env

def stepOpened (env : Environ) (configs : List RunesConfig) (input : Input) : Option (List RunesConfig) :=
  match input with
  | .new fopen line argc argv =>
    (configNew (getConfigFile fopen env) line argc argv).map (configs ++ [·])
  | .delete i => if i < configs.length then some (configs.eraseIdx i) else none

/-- The same, with configurations that are values. -/
def opened (env : Environ) : Machine (List RunesConfig) Input where
  init := []
  step := stepOpened env

end Config
end Runes
