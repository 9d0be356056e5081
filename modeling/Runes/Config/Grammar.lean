import Runes.Config.FileLemmas
import Runes.Config.Names

/-!
This module contains the grammar of configuration files, and when a file is read by it.
-/

namespace Runes
namespace Config

open Libc Protocol Exec

/-- A line that sets an option: blanks, a key, blanks, `=`, blanks and a value. -/
structure OptionLine (line key val : List UInt8) : Prop where
  not_comment : isComment line = false
  key_bytes : ∀ c ∈ key, isKeyByte c = true
  val_begins : ∀ c ∈ val.head?, isBlank c = false
  split : ∃ indent gap space, (∀ c ∈ indent ++ (gap ++ space), isBlank c = true)
    ∧ line = indent ++ (key ++ (gap ++ 0x3d :: (space ++ val)))

def valuePart (line : List UInt8) : List UInt8 := (afterKey line).tail.dropWhile isBlank

def settingOf (line : List UInt8) : Option (List UInt8 × List UInt8) :=
  if isIgnored line || !hasEquals line then none else some (keyPart line, valuePart line)

-- A line that is neither empty nor a comment and has no `=` behind the key.
def isMalformed (line : List UInt8) : Bool := !isIgnored line && !hasEquals line

def fileLines (file : List UInt8) : List (List UInt8) := file.splitOn newline

def applySetting (config : RunesConfig) (setting : List UInt8 × List UInt8) : RunesConfig :=
  configAfter config (.ofBytes setting.fst) (.ofBytes setting.snd)

/-- What a configuration becomes by the lines of a file that set an option. -/
def grammarConfig (lines : List (List UInt8)) (config : RunesConfig) : RunesConfig :=
  (lines.filterMap settingOf).foldl applySetting config

section

variable {line key val : List UInt8}

theorem takeWhile_append_of_head {p : UInt8 → Bool} {l rest : List UInt8} (hl : ∀ c ∈ l, p c = true)
    (hrest : ∀ c ∈ rest.head?, p c = false)
    : (l ++ rest).takeWhile p = l ∧ (l ++ rest).dropWhile p = rest := by
  rw [List.takeWhile_append_of_pos hl, List.dropWhile_append_of_pos hl]
  cases rest with
  | nil => simp
  | cons c rest =>
    have hc : p c = false := hrest c rfl
    simp [hc]

theorem isBlank_of_isKeyByte {c : UInt8} (h : isKeyByte c = true) : isBlank c = false := by
  unfold isKeyByte keyEnds at h
  unfold isBlank blanks
  simp only [List.contains_eq_mem, List.mem_cons, Bool.not_eq_true', decide_eq_false_iff_not,
    not_or] at h ⊢
  simp [h.left, h.right.left]

theorem isKeyByte_of_isBlank {c : UInt8} (h : isBlank c = true) : isKeyByte c = false := by
  cases hkey : isKeyByte c with
  | false => rfl
  | true =>
    rw [isBlank_of_isKeyByte hkey] at h
    cases h

-- If the key is empty, the blanks behind it cannot be told from those in front of it.
theorem OptionLine.dropWhile_isBlank (h : OptionLine line key val)
    : ∃ gap space, (∀ c ∈ gap, isBlank c = true) ∧ (∀ c ∈ space, isBlank c = true)
        ∧ line.dropWhile isBlank = key ++ (gap ++ 0x3d :: (space ++ val)) := by
  have ⟨indent, gap, space, hblank, hline⟩ := h.split
  rw [List.forall_mem_append, List.forall_mem_append] at hblank
  have hequals : isBlank 0x3d = false := by decide
  rw [hline, List.dropWhile_append_of_pos hblank.left]
  cases key with
  | nil =>
    refine ⟨[], space, by simp, hblank.right.right, ?_⟩
    rw [List.nil_append, List.dropWhile_append_of_pos hblank.right.left]
    simp [hequals]
  | cons c key =>
    refine ⟨gap, space, hblank.right.left, hblank.right.right, ?_⟩
    have hc := isBlank_of_isKeyByte (h.key_bytes c List.mem_cons_self)
    simp [hc]

theorem OptionLine.parts (h : OptionLine line key val)
    : keyPart line = key ∧ afterKey line = 0x3d :: (afterKey line).tail ∧ valuePart line = val := by
  have ⟨gap, space, hgap, hspace, hline⟩ := h.dropWhile_isBlank
  have hequals : isBlank 0x3d = false ∧ isKeyByte 0x3d = false := by decide
  have hrest : ∀ c ∈ (gap ++ 0x3d :: (space ++ val)).head?, isKeyByte c = false := by
    cases gap with
    | nil => simp [hequals.right]
    | cons c gap =>
      have hc := isKeyByte_of_isBlank (hgap c List.mem_cons_self)
      simp [hc]
  have ⟨hkey, hrest⟩ := takeWhile_append_of_head h.key_bytes hrest
  have hafter : afterKey line = 0x3d :: (space ++ val) := by
    unfold afterKey
    rw [hline, hrest, List.dropWhile_append_of_pos hgap]
    simp [hequals.left]
  unfold keyPart valuePart
  rw [hline, hkey, hafter]
  refine ⟨rfl, rfl, ?_⟩
  apply (takeWhile_append_of_head hspace h.val_begins).right

theorem OptionLine.hasEquals (h : OptionLine line key val) : hasEquals line = true := by
  unfold Config.hasEquals
  rw [h.parts.right.left]
  rfl

theorem OptionLine.isIgnored (h : OptionLine line key val) : isIgnored line = false := by
  have hafter := h.parts.right.left
  unfold Config.isIgnored
  rw [h.not_comment, Bool.or_false, List.isEmpty_eq_false_iff]
  rintro rfl
  cases hafter

theorem valueOf_of_hasEquals (h : hasEquals line = true) (hline : 0 ∉ line) (behind : List UInt8)
    : valueOf (behindEquals line behind) = some (valuePart line) := by
  have hafter : afterKey line ≠ [] := by
    intro hnil
    unfold hasEquals at h
    simp [hnil] at h
  have htail : 0 ∉ (afterKey line).tail := by
    intro hmem
    apply hline
    rw [text_eq line]
    simp [List.mem_of_mem_tail hmem]
  unfold behindEquals
  rw [List.tail_append_of_ne_nil hafter, valueOf_terminated htail]
  rfl

theorem settingOf_eq_some_iff : settingOf line = some (key, val) ↔ OptionLine line key val := by
  unfold settingOf
  constructor
  . intro h
    split at h
    . cases h
    . next hline =>
      simp only [Bool.or_eq_true, Bool.not_eq_true', not_or, Bool.not_eq_true,
        Bool.not_eq_false] at hline
      cases h
      have ⟨rest, hafter⟩ : ∃ rest, afterKey line = 0x3d :: rest := by
        have hequals := hline.right
        unfold hasEquals at hequals
        cases hcons : afterKey line with
        | nil => simp [hcons] at hequals
        | cons c rest => exact ⟨rest, by simpa [hcons] using hequals⟩
      refine ⟨?_, ?_, ?_, ?_⟩
      . have hignored := hline.left
        unfold isIgnored at hignored
        rw [Bool.or_eq_false_iff] at hignored
        exact hignored.right
      . intro c hc
        apply List.mem_takeWhile_imp hc
      . intro c hc
        have := List.head?_dropWhile_not isBlank (afterKey line).tail
        unfold valuePart at hc
        rw [Option.mem_def] at hc
        rw [hc] at this
        simpa using this
      . refine ⟨line.takeWhile isBlank, gapPart line, rest.takeWhile isBlank, ?_, ?_⟩
        . rw [List.forall_mem_append, List.forall_mem_append]
          refine ⟨?_, ?_, ?_⟩ <;> apply List.mem_takeWhile_imp
        . have hval : rest.takeWhile isBlank ++ valuePart line = rest := by
            unfold valuePart
            rw [hafter, List.tail_cons, List.takeWhile_append_dropWhile]
          rw [hval, ← hafter]
          exact text_eq line
  . intro h
    have ⟨hkey, _, hval⟩ := h.parts
    rw [h.hasEquals, h.isIgnored, hkey, hval]
    rfl

end

/-- A line as the loop finds it in the buffer, with the bytes behind its terminator. -/
structure LineText where
  text : List UInt8
  behind : List UInt8

namespace LineText

variable (b : LineText)

-- If there is nothing behind the key, what would be the value begins behind the terminator.
def HasValue : Prop := isIgnored b.text = false → afterKey b.text = [] → 0 ∈ b.behind

instance : Decidable b.HasValue :=
  inferInstanceAs (Decidable (isIgnored b.text = false → afterKey b.text = [] → 0 ∈ b.behind))

def assigned : Option ((f : Field) × f.Value) :=
  if isIgnored b.text then
    none
  else
    (valueOf (behindEquals b.text b.behind)).bind (fun val =>
      Config.assigned (.ofBytes (keyPart b.text)) (.ofBytes val))

def inGrammar : Bool := !isMalformed b.text

end LineText

-- The buffer after a line that has a newline.
def afterLine (bytes line : List UInt8) : List UInt8 := stored line ++ 0 :: 0 :: bytes.drop (line.length + 2)

def lineTexts (bytes : List UInt8) (lines : List (List UInt8)) : List LineText :=
  match lines with
  | [] => []
  | [last] => [⟨last, bytes.drop (last.length + 1)⟩]
  | line :: lines => ⟨line, 0 :: bytes.drop (line.length + 2)⟩ :: lineTexts (afterLine bytes line) lines

def malformedLines (lines : List (List UInt8)) : List CString :=
  (lines.filter isMalformed).map CString.ofBytes

section

variable {s : FileState RunesConfig} {b : LineText} {line : Buffer lineSize}

theorem lineResult_of_hasValue (h : b.HasValue)
    : lineResult configAfter s b.text b.behind line
        = some ⟨configFields.assign s.config b.assigned, line, s.warnings ++ malformedLines [b.text]⟩ := by
  unfold lineResult LineText.assigned malformedLines isMalformed
  cases hignored : isIgnored b.text with
  | true => simp [hignored, Fields.assign]
  | false =>
    have hmem : 0 ∈ behindEquals b.text b.behind := by
      rw [zero_mem_behindEquals]
      by_cases hafter : afterKey b.text = []
      . exact Or.inr (h hignored hafter)
      . exact Or.inl hafter
    unfold valueOf warned
    rw [if_pos hmem]
    cases hequals : hasEquals b.text <;> simp [hignored, hequals, configAfter_eq]

theorem lineResult_of_not_hasValue (h : ¬b.HasValue)
    : lineResult configAfter s b.text b.behind line = none := by
  rw [← Option.not_isSome_iff_eq_none, isSome_lineResult]
  exact h

-- In the grammar nothing depends on what is behind the line.
theorem assign_of_inGrammar (h : b.inGrammar = true) (htext : 0 ∉ b.text) (config : RunesConfig)
    : configFields.assign config b.assigned = grammarConfig [b.text] config := by
  unfold grammarConfig LineText.assigned settingOf
  unfold LineText.inGrammar isMalformed at h
  cases hignored : isIgnored b.text with
  | true => simp [hignored, Fields.assign]
  | false =>
    have hequals : hasEquals b.text = true := by simpa [hignored] using h
    rw [valueOf_of_hasEquals hequals htext]
    simp [hignored, hequals, applySetting, configAfter_eq]

theorem grammarConfig_of_not_inGrammar (h : b.inGrammar = false) (config : RunesConfig)
    : grammarConfig [b.text] config = config := by
  have hmalformed : isMalformed b.text = true := by
    unfold LineText.inGrammar at h
    simpa using h
  unfold isMalformed at hmalformed
  rw [Bool.and_eq_true, Bool.not_eq_true', Bool.not_eq_true'] at hmalformed
  unfold grammarConfig settingOf
  simp [hmalformed.left, hmalformed.right]

theorem grammarConfig_cons (text : List UInt8) (lines : List (List UInt8)) (config : RunesConfig)
    : grammarConfig (text :: lines) config = grammarConfig lines (grammarConfig [text] config) := by
  unfold grammarConfig
  rw [← List.foldl_append, ← List.filterMap_append, List.singleton_append]

theorem grammarConfig_eq (lines : List LineText) (htext : ∀ b ∈ lines, 0 ∉ b.text)
    (config : RunesConfig)
    : grammarConfig (lines.map LineText.text) config
        = configFields.assignAll LineText.assigned config (lines.filter LineText.inGrammar) := by
  induction lines generalizing config with
  | nil => rfl
  | cons b lines ih =>
    rw [List.forall_mem_cons] at htext
    rw [List.map_cons, grammarConfig_cons, ih htext.right]
    cases h : b.inGrammar with
    | true =>
      rw [List.filter_cons_of_pos h, ← assign_of_inGrammar h htext.left]
      rfl
    | false => rw [List.filter_cons_of_neg (by simp [h]), grammarConfig_of_not_inGrammar h]

theorem lineTexts_cons {lines : List (List UInt8)} (h : lines ≠ []) (bytes line : List UInt8)
    : lineTexts bytes (line :: lines)
        = ⟨line, 0 :: bytes.drop (line.length + 2)⟩ :: lineTexts (afterLine bytes line) lines := by
  cases lines with
  | nil => exact absurd rfl h
  | cons _ _ => rfl

theorem map_text_lineTexts (bytes : List UInt8) (lines : List (List UInt8))
    : (lineTexts bytes lines).map LineText.text = lines := by
  induction lines generalizing bytes with
  | nil => rfl
  | cons line lines ih =>
    by_cases h : lines = []
    . rw [h]
      rfl
    . rw [lineTexts_cons h, List.map_cons, ih]

theorem malformedLines_cons (line : List UInt8) (lines : List (List UInt8))
    : malformedLines (line :: lines) = malformedLines [line] ++ malformedLines lines := by
  unfold malformedLines
  rw [← List.map_append, ← List.filter_append, List.singleton_append]

theorem processLine_afterLine {text : List UInt8} (hnul : 0 ∉ text) (hlen : text.length ≤ 1022)
    : ∃ line', line'.bytes = afterLine s.line.bytes text
        ∧ processLine configAfter (withPiece s (text ++ [newline]))
          = some ⟨configFields.assign s.config
              (LineText.assigned ⟨text, 0 :: s.line.bytes.drop (text.length + 2)⟩), line',
              s.warnings ++ malformedLines [text]⟩ := by
  have ⟨line', hbytes', hline⟩ := processLine_newline configAfter (s := s) hnul (by
    unfold lineSize
    omega)
  refine ⟨line', hbytes', ?_⟩
  rw [hline]
  apply lineResult_of_hasValue (b := ⟨text, 0 :: s.line.bytes.drop (text.length + 2)⟩)
  intro _ _
  apply List.mem_cons_self

theorem processLine_last {text : List UInt8} (hnul : 0 ∉ text) (hline : newline ∉ text)
    (hne : text ≠ []) (hlen : text.length ≤ 1022)
    : ∃ line', processLine configAfter (withPiece s text)
        = lineResult configAfter s text (s.line.bytes.drop (text.length + 1)) line' := by
  have hsize : text.length < lineSize := by
    unfold lineSize
    omega
  have hstore := store_bytes s.line hsize
  have ⟨line', _, hresult⟩ := processLine_eq configAfter (withPiece s text) hstore hnul hne
  have hlast : text.getLast? ≠ some newline := by
    intro heq
    exact hline (List.mem_of_getLast? heq)
  unfold lineText lineBehind at hresult
  rw [if_neg hlast, if_neg hlast] at hresult
  exact ⟨line', hresult⟩

theorem mem_of_mem_fileLines {file : List UInt8} {c : UInt8}
    : ∀ text ∈ fileLines file, c ∈ text → c ∈ file := by
  induction file using lines_induction with
  | last text hline =>
    have hfile : fileLines text = [text] := List.splitOn_eq_singleton hline
    rw [hfile, List.forall_mem_singleton]
    exact id
  | cons text rest hline ih =>
    have hfile : fileLines (text ++ newline :: rest) = text :: fileLines rest :=
      List.splitOn_append_cons_self_of_not_mem hline rest
    rw [hfile, List.forall_mem_cons]
    constructor
    . intro hc
      apply List.mem_append_left _ hc
    . intro text' htext' hc
      apply List.mem_append_right
      apply List.mem_cons_of_mem
      apply ih text' htext' hc

theorem processLines_nil (s : FileState RunesConfig) : processLines configAfter [] s = some s := by
  have hpieces : pieces (lineSize - 1) [] = [] := by
    unfold pieces
    rfl
  rw [processLines_eq, hpieces]
  rfl

theorem processLines_last {text : List UInt8} (hnul : 0 ∉ text) (hline : newline ∉ text)
    (hne : text ≠ []) (hlen : text.length ≤ 1022)
    : ∃ line', processLines configAfter text s
        = lineResult configAfter s text (s.line.bytes.drop (text.length + 1)) line' := by
  have hpieces : pieces (lineSize - 1) text = [text] := by
    apply pieces_last hline _ hne
    unfold lineSize
    omega
  have ⟨line', hresult⟩ := processLine_last (s := s) hnul hline hne hlen
  refine ⟨line', ?_⟩
  unfold withPiece at hresult
  rw [processLines_eq, hpieces, List.foldlM_cons, hresult]
  cases lineResult configAfter s text (s.line.bytes.drop (text.length + 1)) line' <;> rfl

theorem processLines_cons {text : List UInt8} (hnul : 0 ∉ text) (hline : newline ∉ text)
    (hlen : text.length ≤ 1022) (rest : List UInt8)
    : ∃ line', line'.bytes = afterLine s.line.bytes text
        ∧ processLines configAfter (text ++ newline :: rest) s
          = processLines configAfter rest
            ⟨configFields.assign s.config
              (LineText.assigned ⟨text, 0 :: s.line.bytes.drop (text.length + 2)⟩), line',
              s.warnings ++ malformedLines [text]⟩ := by
  have hpieces : pieces (lineSize - 1) (text ++ newline :: rest)
      = (text ++ [newline]) :: pieces (lineSize - 1) rest := by
    apply pieces_newline hline
    unfold lineSize
    omega
  have ⟨line', hbytes', hresult⟩ := processLine_afterLine (s := s) hnul hlen
  refine ⟨line', hbytes', ?_⟩
  unfold withPiece at hresult
  rw [processLines_eq, hpieces, List.foldlM_cons, hresult, Option.bind_eq_bind, Option.bind_some,
    ← processLines_eq]

/-- The whole loop, for a file with short lines and without NULs. -/
theorem processLines_eq_some_iff (file : List UInt8) (s : FileState RunesConfig)
    (config : RunesConfig) (warnings : List CString) (hnul : 0 ∉ file)
    (hlines : ∀ l ∈ fileLines file, l.length ≤ 1022)
    : (∃ line', processLines configAfter file s = some ⟨config, line', warnings⟩)
        ↔ (∀ b ∈ lineTexts s.line.bytes (fileLines file), b.HasValue)
          ∧ config = configFields.assignAll LineText.assigned s.config
              (lineTexts s.line.bytes (fileLines file))
          ∧ warnings = s.warnings ++ malformedLines (fileLines file) := by
  induction file using lines_induction generalizing s with
  | last text hline =>
    have hfile : fileLines text = [text] := List.splitOn_eq_singleton hline
    rw [hfile, List.forall_mem_singleton] at hlines
    rw [hfile]
    dsimp only [lineTexts]
    rw [List.forall_mem_singleton]
    by_cases hne : text = []
    . subst hne
      have hvalue : LineText.HasValue ⟨[], s.line.bytes.drop (([] : List UInt8).length + 1)⟩ := by
        intro hignored
        cases hignored
      have hassign (behind : List UInt8)
          : configFields.assignAll LineText.assigned s.config [⟨[], behind⟩] = s.config := rfl
      have hmalformed : malformedLines [[]] = [] := rfl
      rw [processLines_nil, and_iff_right hvalue, hassign, hmalformed, List.append_nil]
      cases s
      simp [eq_comm]
    . have ⟨line', hresult⟩ := processLines_last (s := s) hnul hline hne hlines
      rw [hresult]
      by_cases hvalue : LineText.HasValue ⟨text, s.line.bytes.drop (text.length + 1)⟩
      . rw [lineResult_of_hasValue hvalue]
        simp [hvalue, Fields.assignAll, eq_comm]
      . rw [lineResult_of_not_hasValue hvalue]
        simp [hvalue]
  | cons text rest hline ih =>
    have hfile : fileLines (text ++ newline :: rest) = text :: fileLines rest :=
      List.splitOn_append_cons_self_of_not_mem hline rest
    have hrest : fileLines rest ≠ [] := List.splitOn_ne_nil newline rest
    rw [hfile, List.forall_mem_cons] at hlines
    have ⟨hlen, hlines⟩ := hlines
    have hnul' : 0 ∉ text ∧ 0 ∉ rest := by simpa [newline] using hnul
    have ⟨line', hbytes', hresult⟩ := processLines_cons (s := s) hnul'.left hline hlen rest
    have hvalue : LineText.HasValue ⟨text, 0 :: s.line.bytes.drop (text.length + 2)⟩ := by
      intro _ _
      apply List.mem_cons_self
    rw [hresult, ih _ hnul'.right hlines, hfile, lineTexts_cons hrest, List.forall_mem_cons,
      and_iff_right hvalue, hbytes', malformedLines_cons text (fileLines rest), ← List.append_assoc]
    rfl

/-- The configuration is the one of the grammar, and all the malformed lines are warned about. -/
def FollowsGrammar (file : List UInt8) (s : FileState RunesConfig) : Prop :=
  ∃ line', processConfigFile configAfter (some file) s
    = some ⟨grammarConfig (fileLines file) s.config, line', s.warnings ++ malformedLines (fileLines file)⟩

/--
A file is read by its grammar exactly if the last line has a value inside of the buffer and if no
malformed line is the last one to set its option, unless the option has the value anyway.
-/
theorem followsGrammar_iff (file : List UInt8) (s : FileState RunesConfig) (hnul : 0 ∉ file)
    (hlines : ∀ l ∈ fileLines file, l.length ≤ 1022)
    : FollowsGrammar file s
        ↔ (∀ b ∈ lineTexts s.line.bytes (fileLines file), b.HasValue)
          ∧ ∀ f, configFields.Harmless LineText.assigned LineText.inGrammar s.config
              (lineTexts s.line.bytes (fileLines file)) f := by
  have hmap := map_text_lineTexts s.line.bytes (fileLines file)
  have htext : ∀ b ∈ lineTexts s.line.bytes (fileLines file), 0 ∉ b.text := by
    intro b hb hmem
    have htext := List.mem_map_of_mem (f := LineText.text) hb
    rw [hmap] at htext
    exact hnul (mem_of_mem_fileLines b.text htext hmem)
  unfold FollowsGrammar
  dsimp only [processConfigFile]
  rw [processLines_eq_some_iff file s _ _ hnul hlines, ← configFields.assignAll_eq_filter_iff,
    ← grammarConfig_eq _ htext, hmap]
  simp [eq_comm]

theorem processConfigFile_of_hasValue {α : Type} {file : List UInt8} {s : FileState RunesConfig}
    (get : RunesConfig → α) (hnul : 0 ∉ file) (hlines : ∀ l ∈ fileLines file, l.length ≤ 1022)
    (hvalue : ∀ b ∈ lineTexts s.line.bytes (fileLines file), b.HasValue)
    : (processConfigFile configAfter (some file) s).map (fun s => get s.config)
        = some (get (configFields.assignAll LineText.assigned s.config
            (lineTexts s.line.bytes (fileLines file)))) := by
  have ⟨line', hline⟩ := (processLines_eq_some_iff file s _ _ hnul hlines).mpr ⟨hvalue, rfl, rfl⟩
  dsimp only [processConfigFile]
  rw [hline, Option.map_some]

theorem harmless_of_inGrammar {lines : List LineText} (h : ∀ b ∈ lines, b.inGrammar = true)
    (config : RunesConfig) (f : Field)
    : configFields.Harmless LineText.assigned LineText.inGrammar config lines f := by
  intro front b later x heq hb
  have hmem : b ∈ lines := by simp [heq]
  rw [h b hmem] at hb
  cases hb

theorem followsGrammar_rows : FollowsGrammar (ascii "rows = 30\n# rows") (zeroedLine setDefaults) := by
  rw [followsGrammar_iff (ascii "rows = 30\n# rows") (zeroedLine setDefaults) (by decide) (by decide)]
  constructor
  . decide +kernel
  . intro f
    apply harmless_of_inGrammar
    decide +kernel

theorem not_followsGrammar_of_ne {α : Type} {file : List UInt8} {s : FileState RunesConfig} {x : α}
    (get : RunesConfig → α)
    (hx : (processConfigFile configAfter (some file) s).map (fun s => get s.config) = some x)
    (hne : x ≠ get (grammarConfig (fileLines file) s.config)) : ¬FollowsGrammar file s := by
  rintro ⟨line', h⟩
  rw [h, Option.map_some] at hx
  cases hx
  exact hne rfl

/-- A line with nothing but a key, and one that takes what is left of the line before. -/
theorem not_followsGrammar_rows
    : (processConfigFile configAfter (some (ascii "rows\n")) (zeroedLine setDefaults)).map
        (fun s => s.config.defaultRows) = some 0
        ∧ ¬FollowsGrammar (ascii "rows\n") (zeroedLine setDefaults)
        ∧ (processConfigFile configAfter (some (ascii "abcd=77\nrows")) (zeroedLine setDefaults)).map
            (fun s => s.config.defaultRows) = some 77
        ∧ ¬FollowsGrammar (ascii "abcd=77\nrows") (zeroedLine setDefaults) := by
  have hrows : (processConfigFile configAfter (some (ascii "rows\n")) (zeroedLine setDefaults)).map
      (fun s => s.config.defaultRows) = some 0 := by
    rw [processConfigFile_of_hasValue _ (by decide) (by decide) (by decide +kernel)]
    decide +kernel
  have hleft : (processConfigFile configAfter (some (ascii "abcd=77\nrows"))
      (zeroedLine setDefaults)).map (fun s => s.config.defaultRows) = some 77 := by
    rw [processConfigFile_of_hasValue _ (by decide) (by decide) (by decide +kernel)]
    decide +kernel
  refine ⟨hrows, ?_, hleft, ?_⟩
  . apply not_followsGrammar_of_ne _ hrows
    decide +kernel
  . apply not_followsGrammar_of_ne _ hleft
    decide +kernel

end

end Config
end Runes
