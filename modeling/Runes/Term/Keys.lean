import Runes.Term.Screen

/-!
This module contains the keys that are sent to the program as a sequence of their own.
-/

namespace Runes
namespace Term

inductive KeySym where
  | up
  | down
  | right
  | left
  | pageUp
  | pageDown
  | home
  | «end»
  | f (n : Nat)
  | backSpace
  | delete
  | isoLeftTab
  | insert
  | other (n : UInt32)
  deriving DecidableEq

structure Modifiers where
  shift : Bool
  control : Bool
  mod1 : Bool
  button1 : Bool
  button2 : Bool
  button3 : Bool

structure FunctionKey where
  sym : KeySym
  str : List UInt8

def esc (s : String) : List UInt8 := 0x1b :: s.toList.map (fun c => c.toNat.toUInt8)

def keys : List FunctionKey :=
  [
    ⟨.up, esc "[A"⟩,
    ⟨.down, esc "[B"⟩,
    ⟨.right, esc "[C"⟩,
    ⟨.left, esc "[D"⟩,
    ⟨.pageUp, esc "[5~"⟩,
    ⟨.pageDown, esc "[6~"⟩,
    ⟨.home, esc "[H"⟩,
    ⟨.end, esc "[F"⟩,
    ⟨.f 1, esc "OP"⟩,
    ⟨.f 2, esc "OQ"⟩,
    ⟨.f 3, esc "OR"⟩,
    ⟨.f 4, esc "OS"⟩,
    ⟨.f 5, esc "[15~"⟩,
    ⟨.f 6, esc "[17~"⟩,
    ⟨.f 7, esc "[18~"⟩,
    ⟨.f 8, esc "[19~"⟩,
    ⟨.f 9, esc "[20~"⟩,
    ⟨.f 10, esc "[21~"⟩,
    ⟨.f 11, esc "[23~"⟩,
    ⟨.f 12, esc "[24~"⟩,
    ⟨.f 13, esc "[25~"⟩,
    ⟨.f 14, esc "[26~"⟩,
    ⟨.f 15, esc "[28~"⟩,
    ⟨.f 16, esc "[29~"⟩,
    ⟨.f 17, esc "[31~"⟩,
    ⟨.f 18, esc "[32~"⟩,
    ⟨.f 19, esc "[33~"⟩,
    ⟨.f 20, esc "[34~"⟩,
    ⟨.backSpace, [0x7f]⟩,
    ⟨.delete, esc "[3~"⟩
  ]

def shiftKeys : List FunctionKey :=
  [
    ⟨.up, esc "[a"⟩,
    ⟨.down, esc "[b"⟩,
    ⟨.right, esc "[c"⟩,
    ⟨.left, esc "[d"⟩,
    ⟨.isoLeftTab, esc "[Z"⟩,
    ⟨.delete, esc "[3$"⟩
  ]

def ctrlKeys : List FunctionKey :=
  [
    ⟨.up, esc "[Oa"⟩,
    ⟨.down, esc "[Ob"⟩,
    ⟨.right, esc "[Oc"⟩,
    ⟨.left, esc "[Od"⟩,
    ⟨.delete, esc "[3^"⟩
  ]

def applicationKeypadKeys : List FunctionKey := []

def applicationCursorKeys : List FunctionKey :=
  [
    ⟨.up, esc "OA"⟩,
    ⟨.down, esc "OB"⟩,
    ⟨.right, esc "OC"⟩,
    ⟨.left, esc "OD"⟩
  ]

def keyTables (keypad cursor : Bool) (state : Modifiers) : List FunctionKey :=
  let application :=
    if keypad then
      (if cursor then applicationCursorKeys else []) ++ applicationKeypadKeys
    else
      []
  let plain :=
    if state.shift then
      shiftKeys
    else if state.control then
      ctrlKeys
    else
      keys
  application ++ plain

/--
`runes_window_find_key_sequence`. The entry with `XK_VoidSymbol`, at the end of every table, stands
for `none`.
-/
def windowFindKeySequence {ρ : Type} (scr : Screen ρ) (sym : KeySym) (state : Modifiers)
    : Option FunctionKey :=
  (keyTables scr.applicationKeypad scr.applicationCursor state).find? (fun key => key.sym = sym)

theorem str_ne_nil_of_windowFindKeySequence {ρ : Type} {scr : Screen ρ} {sym : KeySym}
    {state : Modifiers} {key : FunctionKey} (h : windowFindKeySequence scr sym state = some key)
    : key.sym = sym ∧ key.str ≠ [] := by
  constructor
  . simpa using List.find?_some h
  . have hmem := List.mem_of_find?_eq_some h
    have hall : ∀ table ∈ [keys, shiftKeys, ctrlKeys, applicationCursorKeys],
        ∀ key ∈ table, key.str ≠ [] := by
      decide
    simp only [keyTables, applicationKeypadKeys, List.append_nil, List.mem_append] at hmem
    rcases hmem with hmem | hmem
    . split at hmem
      . split at hmem
        . exact hall applicationCursorKeys (by simp) key hmem
        . cases hmem
      . cases hmem
    . split at hmem
      . exact hall shiftKeys (by simp) key hmem
      . split at hmem
        . exact hall ctrlKeys (by simp) key hmem
        . exact hall keys (by simp) key hmem

end Term
end Runes
