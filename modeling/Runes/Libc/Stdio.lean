import Runes.Libc.Buffer

/-!
This module contains `fgets`, and the pieces that it reads a whole stream in.
-/

namespace Libc

def newline : UInt8 := 0x0a

/-- A line of the stream with its newline, or as much of it as fits into `n` bytes, and the rest. -/
def takeLine (n : Nat) (stream : List UInt8) : List UInt8 × List UInt8 :=
  match stream with
  | [] => ([], [])
  | c :: stream =>
    if c = newline ∨ n ≤ 1 then
      ([c], stream)
    else
      let (line, rest) := takeLine (n - 1) stream
      (c :: line, rest)

-- The buffer that `fgets` leaves, for a size of at least two, and the rest of the stream.
def fgets {n : Nat} (b : Buffer n) (stream : List UInt8) : Option (Buffer n × List UInt8) :=
  match stream with
  | [] => none
  | c :: stream =>
    let (line, rest) := takeLine (n - 1) (c :: stream)
    some (b.store (line ++ [0]), rest)

theorem length_takeLine (n : Nat) (c : UInt8) (stream : List UInt8)
    : (takeLine n (c :: stream)).snd.length < (c :: stream).length := by
  induction stream generalizing n c with
  | nil =>
    unfold takeLine
    split <;> simp [takeLine]
  | cons d stream ih =>
    unfold takeLine
    split
    . simp
    . have := ih (n - 1) d
      simp only [List.length_cons] at this ⊢
      omega

def pieces (n : Nat) (stream : List UInt8) : List (List UInt8) :=
  match stream with
  | [] => []
  | c :: stream => (takeLine n (c :: stream)).fst :: pieces n (takeLine n (c :: stream)).snd
termination_by stream.length
decreasing_by apply length_takeLine

section

variable {n : Nat} {line stream : List UInt8}

/-- A piece has at most `n` bytes, and no newline in front of its last one. -/
structure IsPiece (n : Nat) (piece : List UInt8) : Prop where
  ne_nil : piece ≠ []
  length_le : piece.length ≤ n
  newline : newline ∉ piece.dropLast

theorem isPiece_takeLine (hn : 0 < n) (c : UInt8) (stream : List UInt8)
    : IsPiece n (takeLine n (c :: stream)).fst := by
  induction stream generalizing n c with
  | nil =>
    unfold takeLine takeLine
    split
    . exact ⟨by simp, hn, by simp⟩
    . exact ⟨by simp, hn, by simp⟩
  | cons d stream ih =>
    unfold takeLine
    split
    . exact ⟨by simp, hn, by simp⟩
    . next h =>
      have hpiece := ih (n := n - 1) (by omega) d
      have hle := hpiece.length_le
      refine ⟨by simp, ?_, ?_⟩
      . dsimp only
        rw [List.length_cons]
        omega
      . dsimp only
        rw [List.dropLast_cons_of_ne_nil hpiece.ne_nil, List.mem_cons]
        rintro (heq | hmem)
        . exact h (Or.inl heq.symm)
        . exact hpiece.newline hmem

theorem isPiece_of_mem (hn : 0 < n) (stream : List UInt8)
    : ∀ piece ∈ pieces n stream, IsPiece n piece := by
  induction stream using pieces.induct n with
  | case1 => simp [pieces]
  | case2 c stream ih =>
    unfold pieces
    rw [List.forall_mem_cons]
    exact ⟨isPiece_takeLine hn c stream, ih⟩

theorem takeLine_newline (hline : newline ∉ line) (hlt : line.length < n) (rest : List UInt8)
    : takeLine n (line ++ newline :: rest) = (line ++ [newline], rest) := by
  induction line generalizing n with
  | nil =>
    unfold takeLine
    simp
  | cons c line ih =>
    rw [List.mem_cons, not_or] at hline
    rw [List.length_cons] at hlt
    rw [List.cons_append, takeLine, if_neg, ih hline.right (by omega)]
    . rfl
    . rintro (heq | hle)
      . exact hline.left heq.symm
      . omega

theorem takeLine_last (hline : newline ∉ line) (hle : line.length ≤ n) : takeLine n line = (line, []) := by
  induction line generalizing n with
  | nil => rfl
  | cons c line ih =>
    rw [List.mem_cons, not_or] at hline
    rw [List.length_cons] at hle
    unfold takeLine
    split
    . next h =>
      have hnil : line = [] := by
        rcases h with heq | hle'
        . exact absurd heq.symm hline.left
        . apply List.eq_nil_of_length_eq_zero
          omega
      rw [hnil]
    . rw [ih hline.right (by omega)]

theorem pieces_newline (hline : newline ∉ line) (hlt : line.length < n) (rest : List UInt8)
    : pieces n (line ++ newline :: rest) = (line ++ [newline]) :: pieces n rest := by
  have htake := takeLine_newline hline hlt rest
  cases hcons : line ++ newline :: rest with
  | nil => simp at hcons
  | cons c stream =>
    rw [hcons] at htake
    rw [pieces, htake]

theorem pieces_last (hline : newline ∉ line) (hle : line.length ≤ n) (hne : line ≠ [])
    : pieces n line = [line] := by
  have htake := takeLine_last hline hle
  cases line with
  | nil => exact absurd rfl hne
  | cons c line =>
    rw [pieces, htake]
    simp [pieces]

end

/-- A stream is a last line without a newline, or begins with a line that has one. -/
theorem lines_induction {motive : List UInt8 → Prop} (last : ∀ line, newline ∉ line → motive line)
    (cons : ∀ line rest, newline ∉ line → motive rest → motive (line ++ newline :: rest))
    (stream : List UInt8) : motive stream := by
  induction hn : stream.length using Nat.strongRecOn generalizing stream with
  | ind n ih =>
    by_cases h : newline ∈ stream
    . have ⟨line, rest, hsplit, hline⟩ := List.eq_append_cons_of_mem h
      subst hsplit
      apply cons line rest hline
      apply ih rest.length _ rest rfl
      rw [List.length_append, List.length_cons] at hn
      omega
    . exact last stream h

end Libc
