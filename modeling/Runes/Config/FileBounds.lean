import Runes.Config.FileLemmas
import Runes.Config.Set
import Runes.Exec.Fold

/-!
This module contains when the configuration file reader stays inside of its buffer.
-/

namespace Runes
namespace Config

open Libc Protocol Exec

/--
What `fgets` has read does not begin with a NUL. If there is nothing behind its key, then it has a NUL or
a newline, or there is a NUL behind it: one that an earlier, longer line has left or one that has been
there before.
-/
structure StaysInside (line : Buffer lineSize) (earlier : List (List UInt8)) (piece : List UInt8)
    : Prop where
  first : piece.head? ≠ some 0
  value : isIgnored piece = false → afterKey piece = []
    → 0 ∈ piece ∨ newline ∈ piece ∨ (∃ q ∈ earlier, piece.length < q.length)
      ∨ 0 ∈ line.bytes.drop (piece.length + 1)

-- A piece is what is in front of its first NUL, and the rest.
theorem split_nul (piece : List UInt8)
    : ∃ str rest, piece = str ++ rest ∧ 0 ∉ str
        ∧ ((0 ∉ piece ∧ rest = []) ∨ ∃ tail, 0 ∈ piece ∧ rest = 0 :: tail) := by
  induction piece with
  | nil => exact ⟨[], [], rfl, by simp, Or.inl ⟨by simp, rfl⟩⟩
  | cons c piece ih =>
    by_cases hc : c = 0
    . exact ⟨[], c :: piece, rfl, by simp, Or.inr ⟨piece, by simp [hc], by rw [hc]⟩⟩
    . have ⟨str, rest, hpiece, hstr, hrest⟩ := ih
      have hc' : ¬0 = c := fun heq => hc heq.symm
      refine ⟨c :: str, rest, by rw [hpiece, List.cons_append], by simp [hc', hstr], ?_⟩
      rcases hrest with ⟨hmem, hnil⟩ | ⟨tail, hmem, htail⟩
      . exact Or.inl ⟨by simp [hc', hmem], hnil⟩
      . exact Or.inr ⟨tail, by simp [hmem], htail⟩

theorem length_stored (text : List UInt8) : (stored text).length = text.length := by
  unfold stored
  split
  . rfl
  . rw [List.length_set]

-- Nothing behind the first NUL changes.
theorem stored_lineBehind (str behind : List UInt8)
    : ∃ front : List UInt8, front.length = str.length
        ∧ stored (lineText str) ++ 0 :: lineBehind str behind = front ++ 0 :: behind := by
  unfold lineText lineBehind
  by_cases h : str.getLast? = some newline
  . have hne : str ≠ [] := by
      rintro rfl
      cases h
    have hpos := List.length_pos_of_ne_nil hne
    rw [if_pos h, if_pos h]
    refine ⟨stored str.dropLast ++ [0], ?_, by simp⟩
    rw [List.length_append, length_stored, List.length_dropLast, List.length_singleton]
    omega
  . rw [if_neg h, if_neg h]
    exact ⟨stored str, length_stored str, rfl⟩

theorem zero_mem_drop_iff {front old : List UInt8} (k : Nat)
    : 0 ∈ (front ++ 0 :: old.drop (front.length + 1)).drop k
        ↔ k ≤ front.length ∨ 0 ∈ old.drop k := by
  rw [List.drop_append, List.mem_append]
  by_cases h : k ≤ front.length
  . have hzero : k - front.length = 0 := by omega
    simp [h, hzero]
  . have ⟨j, hj⟩ : ∃ j, k = front.length + 1 + j := ⟨k - (front.length + 1), by omega⟩
    have hdrop : front.drop k = [] := List.drop_eq_nil_of_le (by omega)
    have hsub : k - front.length = j + 1 := by omega
    rw [hdrop, hsub, List.drop_succ_cons, List.drop_drop, ← hj]
    simp [h]

section

variable {σ : Type} (set : σ → CString → CString → σ) {s : FileState σ} {piece : List UInt8}

theorem line_of_lineResult {text behind : List UInt8} {line' : Buffer lineSize} {s' : FileState σ}
    (h : lineResult set s text behind line' = some s') : s'.line = line' := by
  unfold lineResult at h
  split at h
  . cases h
    rfl
  . have ⟨val, _, heq⟩ := Option.map_eq_some_iff.mp h
    rw [← heq]

theorem newline_not_mem (hpiece : IsPiece (lineSize - 1) piece) (hlast : piece.getLast? ≠ some newline)
    : newline ∉ piece := by
  rw [← List.dropLast_append_getLast hpiece.ne_nil, List.mem_append, List.mem_singleton, not_or]
  constructor
  . apply hpiece.newline
  . intro heq
    apply hlast
    rw [List.getLast?_eq_some_getLast hpiece.ne_nil, heq]

/-- What is in the buffer after a piece that does not begin with a NUL, and when the loop gets there. -/
theorem processLine_piece (hpiece : IsPiece (lineSize - 1) piece) (hfirst : piece.head? ≠ some 0)
    : ∃ text behind line' front,
        processLine set (withPiece s piece) = lineResult set (withPiece s piece) text behind line'
          ∧
        line'.bytes = front ++ 0 :: s.line.bytes.drop (front.length + 1) ∧ front.length = piece.length
          ∧
        ((isIgnored text = false → afterKey text = [] → 0 ∈ behind)
          ↔ (isIgnored piece = false → afterKey piece = []
            → 0 ∈ piece ∨ newline ∈ piece ∨ 0 ∈ s.line.bytes.drop (piece.length + 1))) := by
  have hlt : piece.length < lineSize := by
    have := hpiece.length_le
    unfold lineSize at *
    omega
  have hbytes : (withPiece s piece).line.bytes = piece ++ 0 :: s.line.bytes.drop (piece.length + 1) :=
    store_bytes s.line hlt
  generalize hold : s.line.bytes.drop (piece.length + 1) = old at hbytes
  have ⟨str, rest, hsplit, hstr, hrest⟩ := split_nul piece
  rcases hrest with ⟨hnul, hnil⟩ | ⟨tail, hnul, htail⟩
  . rw [hnil, List.append_nil] at hsplit
    subst hsplit
    have ⟨line', hbytes', hline⟩ := processLine_eq set (withPiece s piece) hbytes hnul hpiece.ne_nil
    have ⟨front, hfront, heq⟩ := stored_lineBehind piece old
    refine ⟨lineText piece, lineBehind piece old, line', front, hline, ?_, hfront, ?_⟩
    . rw [hbytes', heq, hfront, hold]
    . by_cases hlast : piece.getLast? = some newline
      . have hmem : newline ∈ piece := List.mem_of_getLast? hlast
        unfold lineBehind
        simp [hlast, hmem]
      . have hmem := newline_not_mem hpiece hlast
        unfold lineText lineBehind
        simp [hlast, hmem, hnul]
  . subst htail
    have hne : str ≠ [] := by
      rintro rfl
      rw [hsplit] at hfirst
      exact hfirst rfl
    have hcut : (withPiece s piece).line.bytes = str ++ 0 :: (tail ++ 0 :: old) := by
      rw [hbytes, hsplit, List.append_assoc, List.cons_append]
    have ⟨line', hbytes', hline⟩ := processLine_eq set (withPiece s piece) hcut hstr hne
    have ⟨front, hfront, heq⟩ := stored_lineBehind str (tail ++ 0 :: old)
    have hlen : (front ++ 0 :: tail).length = piece.length := by
      rw [hsplit, List.length_append, List.length_append, hfront]
    refine ⟨lineText str, lineBehind str (tail ++ 0 :: old), line', front ++ 0 :: tail, hline, ?_,
      hlen, ?_⟩
    . rw [hbytes', heq, hlen, hold, List.append_assoc, List.cons_append]
    . have hmem : 0 ∈ lineBehind str (tail ++ 0 :: old) := by
        unfold lineBehind
        split <;> simp
      simp [hmem, hnul]

/-- The invariant of the loop. It knows behind which places there are NULs. -/
def LineOk (line : Buffer lineSize) (done : List (List UInt8)) (s : FileState σ) : Prop :=
  ∀ k, 0 ∈ s.line.bytes.drop k ↔ (∃ q ∈ done, k ≤ q.length) ∨ 0 ∈ line.bytes.drop k

variable {line : Buffer lineSize} {done : List (List UInt8)}

theorem isSome_processLine_iff (hs : LineOk line done s) (hpiece : IsPiece (lineSize - 1) piece)
    : (processLine set (withPiece s piece)).isSome = true ↔ StaysInside line done piece := by
  by_cases hfirst : piece.head? = some 0
  . have ⟨tail, htail⟩ : ∃ tail, piece = 0 :: tail := by
      cases piece with
      | nil => cases hfirst
      | cons c tail =>
        cases hfirst
        exact ⟨tail, rfl⟩
    have hbytes : (withPiece s piece).line.bytes
        = 0 :: (tail ++ 0 :: s.line.bytes.drop (piece.length + 1)) := by
      have hle := hpiece.length_le
      unfold withPiece
      rw [store_bytes s.line (by unfold lineSize at *; omega), htail, List.cons_append]
    have hnone : processLine set (withPiece s piece) = none := processLine_empty set _ hbytes
    rw [hnone]
    constructor
    . intro h
      cases h
    . intro h
      exact absurd hfirst h.first
  . have ⟨text, behind, line', front, hline, _, _, hiff⟩ :=
      processLine_piece set (s := s) hpiece hfirst
    rw [hline, isSome_lineResult, hiff]
    have hdrop := hs (piece.length + 1)
    simp only [Nat.succ_le_iff] at hdrop
    constructor
    . intro h
      refine ⟨hfirst, ?_⟩
      rwa [← hdrop]
    . intro h
      have := h.value
      rwa [← hdrop] at this

theorem lineOk_processLine (hs : LineOk line done s) (hpiece : IsPiece (lineSize - 1) piece)
    {s' : FileState σ} (h : processLine set (withPiece s piece) = some s')
    : LineOk line (done ++ [piece]) s' := by
  have hfirst : piece.head? ≠ some 0 := by
    have hsome : (processLine set (withPiece s piece)).isSome = true := by rw [h, Option.isSome_some]
    apply ((isSome_processLine_iff set hs hpiece).mp hsome).first
  have ⟨text, behind, line', front, hline, hbytes, hlen, _⟩ :=
    processLine_piece set (s := s) hpiece hfirst
  rw [hline] at h
  intro k
  rw [line_of_lineResult set h, hbytes, zero_mem_drop_iff, hlen, hs k]
  simp only [List.mem_append, List.mem_singleton, or_and_right, exists_or, exists_eq_left]
  rw [← or_assoc, or_comm (a := k ≤ piece.length)]

theorem processLines_isSome_iff (file : List UInt8) (s : FileState σ)
    : (processLines set file s).isSome = true
        ↔ ∀ earlier piece later, pieces (lineSize - 1) file = earlier ++ piece :: later
            → StaysInside s.line earlier piece := by
  have hpieces := isPiece_of_mem (n := lineSize - 1) (by decide) file
  have hstart : LineOk s.line [] s := by
    intro k
    simp
  have hgood : ∀ done s' piece, LineOk s.line done s' → piece ∈ pieces (lineSize - 1) file →
      ((processLine set (withPiece s' piece)).isSome = true ↔ StaysInside s.line done piece) := by
    intro done s' piece hs hmem
    apply isSome_processLine_iff set hs (hpieces piece hmem)
  have hinv : ∀ done s' piece s'', LineOk s.line done s' → piece ∈ pieces (lineSize - 1) file →
      processLine set (withPiece s' piece) = some s'' → LineOk s.line (done ++ [piece]) s'' := by
    intro done s' piece s'' hs hmem h
    apply lineOk_processLine set hs (hpieces piece hmem) h
  rw [processLines_eq]
  apply foldlM_isSome_iff hgood hinv hstart

/--
The reader stays inside of its buffer exactly if all the pieces do that `fgets` cuts the file into,
whatever was in the buffer before.
-/
theorem processConfigFile_isSome_iff (file : List UInt8) (s : FileState σ)
    : (processConfigFile set (some file) s).isSome = true
        ↔ ∀ earlier piece later, pieces (lineSize - 1) file = earlier ++ piece :: later
            → StaysInside s.line earlier piece := by
  apply processLines_isSome_iff

theorem processConfigFile_eq_none {file : List UInt8} {later : List (List UInt8)}
    (hpieces : pieces (lineSize - 1) file = piece :: later) (h : ¬StaysInside s.line [] piece)
    : processConfigFile set (some file) s = none := by
  rw [← Option.not_isSome_iff_eq_none]
  dsimp only [processConfigFile]
  rw [processLines_isSome_iff]
  intro hinside
  exact h (hinside [] piece later hpieces)

end

theorem key_replicate (n : Nat)
    : isIgnored (List.replicate (n + 1) 0x61) = false ∧ afterKey (List.replicate (n + 1) 0x61) = [] := by
  have hblank : isBlank 0x61 = false := by decide
  have hkey : isKeyByte 0x61 = true := by decide
  unfold isIgnored isComment afterKey
  simp [hblank, hkey, List.head?_replicate]

/--
For a NUL in front of the first newline the reader looks at the byte in front of its buffer. For 1023
bytes of a key the value would begin behind the end of the buffer.
-/
theorem processConfigFile_stray
    : processConfigFile configAfter (some [0, newline]) (zeroedLine setDefaults) = none
        ∧ processConfigFile configAfter (some (List.replicate 1023 0x61)) (zeroedLine setDefaults) = none := by
  constructor
  . have hpieces : pieces (lineSize - 1) [0, newline] = [0, newline] :: pieces (lineSize - 1) [] :=
      pieces_newline (show newline ∉ [0] by decide) (by decide) []
    apply processConfigFile_eq_none configAfter hpieces
    intro h
    exact h.first rfl
  . have hpieces : pieces (lineSize - 1) (List.replicate 1023 0x61) = [List.replicate 1023 0x61] := by
      apply pieces_last
      . intro hmem
        have := List.eq_of_mem_replicate hmem
        cases this
      . rw [List.length_replicate]
        decide
      . intro hnil
        cases hnil
    apply processConfigFile_eq_none configAfter hpieces
    intro h
    have ⟨hignored, hafter⟩ := key_replicate 1022
    rcases h.value hignored hafter with hmem | hmem | ⟨_, hmem, _⟩ | hmem
    . have := List.eq_of_mem_replicate hmem
      cases this
    . have := List.eq_of_mem_replicate hmem
      cases this
    . cases hmem
    . rw [List.length_replicate, List.drop_eq_nil_of_le] at hmem
      . cases hmem
      . apply Nat.le_of_eq List.length_replicate

end Config
end Runes
