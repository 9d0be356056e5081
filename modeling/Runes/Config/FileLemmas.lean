import Mathlib.Data.List.TakeDrop
import Runes.Config.File

/-!
This module contains what one line does to the configuration and to the buffer.
-/

namespace Runes
namespace Config

open Libc Protocol

def isBlank (c : UInt8) : Bool := blanks.contains c

def isKeyByte (c : UInt8) : Bool := !keyEnds.contains c

section Text

variable (text : List UInt8)

def keyPart : List UInt8 := (text.dropWhile isBlank).takeWhile isKeyByte

def gapPart : List UInt8 := ((text.dropWhile isBlank).dropWhile isKeyByte).takeWhile isBlank

-- What follows the key and the blanks behind it.
def afterKey : List UInt8 := ((text.dropWhile isBlank).dropWhile isKeyByte).dropWhile isBlank

def isComment : Bool := (text.dropWhile isBlank).head? = some 0x23

def isIgnored : Bool := text.isEmpty || isComment text

def hasEquals : Bool := (afterKey text).head? = some 0x3d

def keyStart : Nat := (text.takeWhile isBlank).length

def keyStop : Nat := keyStart text + (keyPart text).length

-- The string as it is in the buffer when the line is finished.
def stored : List UInt8 := if isIgnored text then text else text.set (keyStop text) 0

-- The bytes behind the one where the `=` should be.
def behindEquals (behind : List UInt8) : List UInt8 := (afterKey text ++ 0 :: behind).tail

end Text

-- The string that the bytes begin with, without blanks in front of it.
def valueOf (bytes : List UInt8) : Option (List UInt8) :=
  if 0 ∈ bytes then some ((bytes.dropWhile isBlank).takeWhile (fun c => c ≠ 0)) else none

def warned (warnings : List CString) (text : List UInt8) : List CString :=
  if hasEquals text then warnings else warnings ++ [.ofBytes text]

theorem valueOf_terminated {bytes : List UInt8} (hbytes : 0 ∉ bytes) (behind : List UInt8)
    : valueOf (bytes ++ 0 :: behind) = some (bytes.dropWhile isBlank) := by
  have hdrop : (bytes ++ 0 :: behind).dropWhile isBlank = bytes.dropWhile isBlank ++ 0 :: behind := by
    have hzero : isBlank 0 = false := by decide
    rw [List.dropWhile_append]
    split
    . next h =>
      rw [List.isEmpty_iff.mp h]
      simp [hzero]
    . rfl
  have hmem : ∀ c ∈ bytes.dropWhile isBlank, decide (c ≠ 0) = true := by
    intro c hc
    have hne : c ≠ 0 := by
      rintro rfl
      exact hbytes ((List.dropWhile_sublist _).subset hc)
    simpa using hne
  unfold valueOf
  rw [if_pos (by simp), hdrop, List.takeWhile_append_of_pos hmem]
  simp

theorem text_eq (text : List UInt8)
    : text = text.takeWhile isBlank ++ (keyPart text ++ (gapPart text ++ afterKey text)) := by
  unfold keyPart gapPart afterKey
  rw [List.takeWhile_append_dropWhile, List.takeWhile_append_dropWhile,
    List.takeWhile_append_dropWhile]

theorem keyStop_le_length (text : List UInt8)
    : keyStop text + (gapPart text).length ≤ text.length := by
  have hlen := congrArg List.length (text_eq text)
  simp only [List.length_append] at hlen
  unfold keyStop keyStart
  omega

theorem drop_equals (text behind : List UInt8)
    : (text ++ 0 :: behind).drop (keyStop text + (gapPart text).length)
        = afterKey text ++ 0 :: behind := by
  have hsplit : text ++ 0 :: behind = (text.takeWhile isBlank ++ (keyPart text ++ gapPart text))
      ++ (afterKey text ++ 0 :: behind) := by
    conv =>
      lhs
      rw [text_eq text]
    simp only [List.append_assoc]
  rw [hsplit]
  apply List.drop_left'
  simp only [List.length_append]
  unfold keyStop keyStart
  omega

theorem drop_behindEquals (text behind : List UInt8)
    : (text ++ 0 :: behind).drop (keyStop text + (gapPart text).length + 1)
        = behindEquals text behind := by
  rw [← List.drop_drop, drop_equals, List.drop_one]
  rfl

section

variable {text behind : List UInt8} {line : Buffer lineSize}
  (hbytes : line.bytes = text ++ 0 :: behind)
include hbytes

theorem strspn_kbegin (htext : 0 ∉ text) : line.strspn 0 blanks = some (keyStart text) :=
  Buffer.strspn_of_bytes (show line.bytes = [] ++ (text ++ 0 :: behind) from hbytes) htext blanks

theorem bytes_kbegin
    : line.bytes = text.takeWhile isBlank ++ (text.dropWhile isBlank ++ 0 :: behind) := by
  rw [hbytes, ← List.append_assoc, List.takeWhile_append_dropWhile]

theorem strcspn_kend (htext : 0 ∉ text)
    : line.strcspn (keyStart text) keyEnds = some (keyPart text).length := by
  apply Buffer.strcspn_of_bytes (bytes_kbegin hbytes)
  intro hmem
  exact htext ((List.dropWhile_sublist _).subset hmem)

theorem strspn_vbegin (htext : 0 ∉ text)
    : line.strspn (keyStop text) blanks = some (gapPart text).length := by
  have hsplit : line.bytes = (text.takeWhile isBlank ++ keyPart text)
      ++ ((text.dropWhile isBlank).dropWhile isKeyByte ++ 0 :: behind) := by
    unfold keyPart
    rw [bytes_kbegin hbytes, List.append_assoc, ← List.append_assoc (List.takeWhile isKeyByte _),
      List.takeWhile_append_dropWhile]
  have hlen : keyStop text = (text.takeWhile isBlank ++ keyPart text).length := by
    rw [List.length_append]
    rfl
  rw [hlen]
  apply Buffer.strspn_of_bytes hsplit
  intro hmem
  exact htext ((List.dropWhile_sublist _).subset ((List.dropWhile_sublist _).subset hmem))

theorem read_equals
    : line.read (keyStop text + (gapPart text).length : Nat)
        = some ((afterKey text).head?.getD 0) := by
  rw [Buffer.read_eq, hbytes, drop_equals]
  cases afterKey text <;> rfl

theorem string_line (htext : 0 ∉ text) : line.string 0 = some text :=
  Buffer.string_of_bytes (show line.bytes = [] ++ (text ++ 0 :: behind) from hbytes) htext

-- The key and the whole string are terminated, in this order.
theorem write_terminators
    : ∃ line₁ line₂ : Buffer lineSize,
        line.write (keyStop text) 0 = some line₁
          ∧
        line₁.write text.length 0 = some line₂
          ∧
        line₂.bytes = text.set (keyStop text) 0 ++ 0 :: behind := by
  have hsize := line.size
  rw [hbytes, List.length_append, List.length_cons] at hsize
  have hle := keyStop_le_length text
  have ⟨line₁, hwrite₁, hbytes₁⟩ := Buffer.write_of_lt (b := line) (i := keyStop text) (by omega) 0
  have ⟨line₂, hwrite₂, hbytes₂⟩ := Buffer.write_of_lt (b := line₁) (i := text.length) (by omega) 0
  refine ⟨line₁, line₂, hwrite₁, hwrite₂, ?_⟩
  rw [hbytes₂, hbytes₁, hbytes, List.set_append]
  split
  . rw [List.set_append, List.length_set, if_neg (by omega), Nat.sub_self]
    rfl
  . have heq : keyStop text = text.length := by omega
    rw [List.set_append, if_neg (by omega), heq, Nat.sub_self,
      List.set_eq_of_length_le (Nat.le_refl _)]
    rfl

end

section

variable {text behind : List UInt8} {line line' : Buffer lineSize}
  (hbytes' : line'.bytes = text.set (keyStop text) 0 ++ 0 :: behind)
include hbytes'

theorem string_key (htext : 0 ∉ text) : line'.string (keyStart text) = some (keyPart text) := by
  have hkey : 0 ∉ keyPart text := by
    intro hmem
    have hdrop := (List.takeWhile_sublist _).subset hmem
    exact htext ((List.dropWhile_sublist _).subset hdrop)
  have htext' : text = (text.takeWhile isBlank ++ keyPart text) ++ (gapPart text ++ afterKey text) := by
    rw [List.append_assoc]
    exact text_eq text
  have hlen : keyStop text = (text.takeWhile isBlank ++ keyPart text).length := by
    rw [List.length_append]
    rfl
  have hset := congrArg (fun t => t.set (keyStop text) 0) htext'
  rw [List.set_append_right _ _ (by omega), hlen, Nat.sub_self, ← hlen] at hset
  have ⟨tail, htail⟩ : ∃ tail, (gapPart text ++ afterKey text).set 0 0 ++ 0 :: behind = 0 :: tail := by
    cases gapPart text ++ afterKey text with
    | nil => exact ⟨_, rfl⟩
    | cons c tail => exact ⟨_, rfl⟩
  rw [hset, List.append_assoc, htail, List.append_assoc] at hbytes'
  apply Buffer.string_of_bytes hbytes' hkey

-- In front of the value nothing but the terminator of the key has changed.
theorem drop_value
    : line'.bytes.drop (keyStop text + (gapPart text).length + 1) = behindEquals text behind := by
  rw [hbytes', List.drop_append, List.drop_set_of_lt (by omega), List.length_set,
    ← List.drop_append, drop_behindEquals]

end

section

variable {σ : Type} (set : σ → CString → CString → σ) (s : FileState σ) {text behind : List UInt8}
  {line : Buffer lineSize}

theorem warnLine_eq (hbytes : line.bytes = text ++ 0 :: behind) (htext : 0 ∉ text)
    : warnLine s line ((afterKey text).head?.getD 0) = some (warned s.warnings text) := by
  have hequals : (afterKey text).head?.getD 0 ≠ 0x3d ↔ ¬hasEquals text = true := by
    unfold hasEquals
    cases afterKey text with
    | nil => simp
    | cons c rest => simp
  unfold warned warnLine
  rw [string_line hbytes htext, Option.map_some]
  by_cases h : hasEquals text = true
  . rw [if_neg (by rwa [hequals, not_not]), if_pos h]
  . rw [if_pos (by rwa [hequals]), if_neg h]

/-- What the source computes from the first byte of the value on. -/
theorem value_eq {line' : Buffer lineSize} {p : Nat} {bytes : List UInt8}
    (hdrop : line.bytes.drop p = bytes) (hdrop' : line'.bytes.drop p = bytes)
    : (line.strspn p blanks).bind (fun k => line'.string (p + k)) = valueOf bytes := by
  unfold valueOf
  split
  . next hmem =>
    have hspan := Buffer.strspn_of_mem (b := line) (p := p) (by rwa [hdrop])
      (show 0 ∉ blanks by decide)
    rw [hspan, Option.bind_some, hdrop]
    have hrest : line'.bytes.drop (p + (bytes.takeWhile isBlank).length)
        = bytes.dropWhile isBlank := by
      rw [← List.drop_drop, hdrop', drop_takeWhile_length]
    have hmem' : 0 ∈ bytes.dropWhile isBlank := by
      have hsplit := List.takeWhile_append_dropWhile (p := isBlank) (l := bytes)
      rw [← hsplit] at hmem
      rcases List.mem_append.mp hmem with hblank | hmem
      . have := List.mem_takeWhile_imp hblank
        cases this
      . exact hmem
    have hstring := Buffer.string_of_mem (b := line')
      (p := p + (bytes.takeWhile isBlank).length) (by rwa [hrest])
    rw [hrest] at hstring
    exact hstring
  . next hmem =>
    cases line.strspn p blanks with
    | none => rfl
    | some k =>
      rw [Option.bind_some]
      apply Buffer.string_of_not_mem
      rw [← List.drop_drop, hdrop']
      intro hmem'
      exact hmem (List.mem_of_mem_drop hmem')

theorem processOption_eq (hbytes : line.bytes = text ++ 0 :: behind) (htext : 0 ∉ text)
    : ∃ line' : Buffer lineSize, line'.bytes = text.set (keyStop text) 0 ++ 0 :: behind
        ∧ processOption set s line text.length
          = (valueOf (behindEquals text behind)).map (fun val =>
              ⟨set s.config (.ofBytes (keyPart text)) (.ofBytes val), line',
                warned s.warnings text⟩) := by
  have ⟨line₁, line', hwrite₁, hwrite₂, hbytes'⟩ := write_terminators hbytes
  have hdrop := drop_behindEquals text behind
  rw [← hbytes] at hdrop
  have hvalue := value_eq hdrop (drop_value hbytes')
  refine ⟨line', hbytes', ?_⟩
  unfold processOption
  simp only [Option.bind_eq_bind, Option.pure_def]
  rw [strspn_kbegin hbytes htext, Option.bind_some, strcspn_kend hbytes htext, Option.bind_some]
  have hstop : keyStart text + (keyPart text).length = keyStop text := rfl
  rw [hstop, strspn_vbegin hbytes htext, Option.bind_some, read_equals hbytes, Option.bind_some,
    warnLine_eq s hbytes htext, Option.bind_some]
  simp only [hwrite₁, hwrite₂, Option.bind_some, string_key hbytes' htext]
  rw [← hvalue, Option.map_eq_bind, Option.bind_assoc]
  rfl

-- The state after the line, if there is a value to be read.
def lineResult (text behind : List UInt8) (line' : Buffer lineSize) : Option (FileState σ) :=
  if isIgnored text then
    some { s with line := line' }
  else
    (valueOf (behindEquals text behind)).map (fun val =>
      ⟨set s.config (.ofBytes (keyPart text)) (.ofBytes val), line', warned s.warnings text⟩)

theorem processText_eq (hbytes : line.bytes = text ++ 0 :: behind) (htext : 0 ∉ text)
    : ∃ line' : Buffer lineSize, line'.bytes = stored text ++ 0 :: behind
        ∧ processText set s line text.length = lineResult set s text behind line' := by
  have hread : line.read (keyStart text) = some ((text.dropWhile isBlank).head?.getD 0) := by
    rw [Buffer.read_eq, bytes_kbegin hbytes]
    unfold keyStart
    rw [List.drop_left]
    cases text.dropWhile isBlank <;> rfl
  unfold processText lineResult stored isIgnored
  cases text with
  | nil => exact ⟨line, hbytes, rfl⟩
  | cons c rest =>
    have hlen : ¬(c :: rest).length = 0 := by simp
    rw [if_neg hlen, strspn_kbegin hbytes htext]
    simp only [Option.bind_eq_bind, Option.bind_some, Option.pure_def, hread]
    have hcomment : isComment (c :: rest) = true
        ↔ ((c :: rest).dropWhile isBlank).head?.getD 0 = 0x23 := by
      unfold isComment
      cases (c :: rest).dropWhile isBlank <;> simp
    rw [List.isEmpty_cons, Bool.false_or]
    by_cases h : isComment (c :: rest) = true
    . rw [if_pos h]
      exact ⟨line, hbytes, by rw [if_pos (hcomment.mp h), if_pos h]⟩
    . have ⟨line', hbytes', hoption⟩ := processOption_eq set s hbytes htext
      rw [if_neg h, if_neg (fun heq => h (hcomment.mpr heq))]
      exact ⟨line', hbytes', by rw [if_neg h, hoption]⟩

theorem processLine_empty (hbytes : s.line.bytes = 0 :: behind) : processLine set s = none := by
  unfold processLine
  have hlen : s.line.strlen 0 = some 0 :=
    Buffer.strlen_of_bytes (show s.line.bytes = [] ++ ([] ++ 0 :: behind) from hbytes) (by simp)
  rw [hlen]
  rfl

-- What `fgets` has read up to the first NUL, without its newline.
def lineText (str : List UInt8) : List UInt8 :=
  if str.getLast? = some newline then str.dropLast else str

-- What is behind the terminator of that. Where the newline was there is a second one.
def lineBehind (str behind : List UInt8) : List UInt8 :=
  if str.getLast? = some newline then 0 :: behind else behind

theorem processLine_eq {str : List UInt8} (hbytes : s.line.bytes = str ++ 0 :: behind)
    (hstr : 0 ∉ str) (hne : str ≠ [])
    : ∃ line' : Buffer lineSize,
        line'.bytes = stored (lineText str) ++ 0 :: lineBehind str behind
          ∧
        processLine set s = lineResult set s (lineText str) (lineBehind str behind) line' := by
  have hlen : s.line.strlen 0 = some str.length :=
    Buffer.strlen_of_bytes (show s.line.bytes = [] ++ (str ++ 0 :: behind) from hbytes) hstr
  have hpos := List.length_pos_of_ne_nil hne
  have hindex : ((str.length : Int) - 1) = (str.length - 1 : Nat) := by omega
  have hlast : s.line.read ((str.length : Int) - 1) = some (str.getLast hne) := by
    rw [hindex, Buffer.read_eq, hbytes, List.drop_append_of_le_length (by omega),
      List.drop_length_sub_one hne]
    rfl
  unfold processLine lineText lineBehind
  rw [hlen]
  simp only [Option.bind_eq_bind, Option.bind_some, hlast, List.getLast?_eq_some_getLast hne,
    Option.some.injEq]
  by_cases h : str.getLast hne = newline
  . have hsize := s.line.size
    rw [hbytes, List.length_append, List.length_cons] at hsize
    have ⟨line, hwrite, hbytes'⟩ :=
      Buffer.write_of_lt (b := s.line) (i := str.length - 1) (by omega) 0
    have hdrop : line.bytes = str.dropLast ++ 0 :: 0 :: behind := by
      have hsplit := List.dropLast_append_getLast hne
      rw [hbytes', hbytes, ← List.length_dropLast]
      conv =>
        lhs
        rw [← hsplit]
      simp
    have htext : 0 ∉ str.dropLast := fun hmem => hstr (List.dropLast_subset str hmem)
    rw [hindex, hwrite]
    simp only [h, if_true, Option.bind_some]
    rw [← List.length_dropLast]
    apply processText_eq set s hdrop htext
  . simp only [h, if_false]
    apply processText_eq set s hbytes hstr

end

theorem zero_mem_behindEquals (text behind : List UInt8)
    : 0 ∈ behindEquals text behind ↔ afterKey text ≠ [] ∨ 0 ∈ behind := by
  unfold behindEquals
  cases afterKey text with
  | nil => simp
  | cons c rest => simp

theorem isSome_lineResult {σ : Type} (set : σ → CString → CString → σ) (s : FileState σ)
    (text behind : List UInt8) (line' : Buffer lineSize)
    : (lineResult set s text behind line').isSome = true
        ↔ (isIgnored text = false → afterKey text = [] → 0 ∈ behind) := by
  unfold lineResult valueOf
  have hmem := zero_mem_behindEquals text behind
  cases isIgnored text with
  | true => simp
  | false =>
    rw [if_neg (by simp)]
    split
    . next h =>
      simp only [Option.map_some, Option.isSome_some, true_iff]
      intro _ hnil
      exact (hmem.mp h).resolve_left (by simp [hnil])
    . next h =>
      rw [hmem, not_or, not_not] at h
      simp [h]

-- The state in which the body of the loop finds what `fgets` has read.
def withPiece {σ : Type} (s : FileState σ) (piece : List UInt8) : FileState σ :=
  { s with line := s.line.store (piece ++ [0]) }

theorem store_bytes (line : Buffer lineSize) {piece : List UInt8} (hlen : piece.length < lineSize)
    : (line.store (piece ++ [0])).bytes = piece ++ 0 :: line.bytes.drop (piece.length + 1) := by
  unfold Buffer.store
  dsimp only
  rw [List.take_of_length_le, List.length_append, List.append_assoc]
  . rfl
  . rw [List.length_append, List.length_singleton]
    omega

/-- A whole line with its newline. -/
theorem processLine_newline {σ : Type} (set : σ → CString → CString → σ) {s : FileState σ}
    {text : List UInt8} (hnul : 0 ∉ text) (hlen : text.length + 1 < lineSize)
    : ∃ line', line'.bytes = stored text ++ 0 :: 0 :: s.line.bytes.drop (text.length + 2)
        ∧ processLine set (withPiece s (text ++ [newline]))
          = lineResult set s text (0 :: s.line.bytes.drop (text.length + 2)) line' := by
  have hstr : 0 ∉ text ++ [newline] := by
    rw [List.mem_append, not_or]
    exact ⟨hnul, by decide⟩
  have hsize : (text ++ [newline]).length < lineSize := by
    rwa [List.length_append, List.length_singleton]
  have hstore := store_bytes s.line hsize
  rw [List.length_append] at hstore
  have ⟨line', hbytes', hline⟩ := processLine_eq set (withPiece s (text ++ [newline])) hstore hstr
    (by simp)
  have htext : lineText (text ++ [newline]) = text := by
    unfold lineText
    simp
  have hbehind (behind : List UInt8) : lineBehind (text ++ [newline]) behind = 0 :: behind := by
    unfold lineBehind
    simp
  rw [htext, hbehind] at hbytes' hline
  exact ⟨line', hbytes', hline⟩

def zeroedLine {σ : Type} (config : σ) : FileState σ where
  config
  line := ⟨List.replicate lineSize 0, List.length_replicate⟩
  warnings := []

end Config
end Runes
