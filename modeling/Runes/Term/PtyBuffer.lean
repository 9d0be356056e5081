import Runes.Exec.Machine
import Runes.Term.Callbacks

/-!
This module contains the read buffer of the pty as it lies in memory, and that the callback of the
pty works on it as on the list of the bytes that are left, see `pty-unix.c`.
-/

namespace Runes
namespace Term

/--
A parser for a stream of bytes. It is given the bytes that are there and says how many of them it
has processed.
-/
structure Parser (σ : Type) where
  process : σ → List UInt8 → σ × Nat
  processed_le : ∀ scr buf, (process scr buf).snd ≤ buf.length

-- What `read` returns. Without bytes it is `0`, and a failure may be one that goes away again.
inductive ReadAnswer where
  | got (buf : List UInt8)
  | failed (lasting : Bool)
  deriving DecidableEq

def ReadAnswer.readlen (answer : ReadAnswer) : Int :=
  match answer with
  | .got buf => buf.length
  | .failed _ => -1

-- `struct runes_pty` with all of `readbuf`.
structure PtyBuffer where
  readbuf : List UInt8
  readlen : Int
  remaininglen : Int

namespace PtyBuffer

variable {σ : Type}

def new : PtyBuffer :=
  { readbuf := List.replicate readBufferLength 0, readlen := 0, remaininglen := 0 }

-- The number of bytes that `read` is asked for.
def room (pty : PtyBuffer) : Int := readBufferLength - pty.remaininglen

def writeAt (mem : List UInt8) (offset : Nat) (bytes : List UInt8) : List UInt8 :=
  mem.take offset ++ bytes ++ mem.drop (offset + bytes.length)

def memmove (mem : List UInt8) (dst src n : Nat) : List UInt8 :=
  writeAt mem dst ((mem.drop src).take n)

def read (answer : ReadAnswer) (pty : PtyBuffer) : PtyBuffer :=
  match answer with
  | .got buf =>
    {
      pty with
      readbuf := writeAt pty.readbuf pty.remaininglen.toNat buf
      readlen := answer.readlen
    }
  | .failed _ => { pty with readlen := answer.readlen }

def toProcess (pty : PtyBuffer) : List UInt8 :=
  pty.readbuf.take (pty.readlen + pty.remaininglen).toNat

def keepRest (processed : Nat) (pty : PtyBuffer) : PtyBuffer :=
  let remaininglen := pty.readlen + pty.remaininglen - processed
  {
    pty with
    remaininglen
    readbuf := memmove pty.readbuf 0 processed remaininglen.toNat
  }

/--
The callback of the pty up to what it does to the window, and whether it wants to be called again.
-/
def inputCb (parser : Parser σ) (answer : ReadAnswer) (scr : σ) (pty : PtyBuffer)
    : Bool × σ × PtyBuffer :=
  let pty := pty.read answer
  if pty.readlen > 0 then
    let (scr, processed) := parser.process scr pty.toProcess
    (true, scr, pty.keepRest processed)
  else
    (false, scr, pty)

def rest (pty : PtyBuffer) : List UInt8 := pty.readbuf.take pty.remaininglen.toNat

structure Fits (pty : PtyBuffer) : Prop where
  length : pty.readbuf.length = readBufferLength
  nonneg : 0 ≤ pty.remaininglen
  le : pty.remaininglen ≤ readBufferLength

-- An answer that `read` can give when it is asked for the bytes that there is room for.
def Legal (pty : PtyBuffer) (answer : ReadAnswer) : Prop :=
  match answer with
  | .got buf => buf.length ≤ pty.room
  | .failed _ => True

instance (pty : PtyBuffer) (answer : ReadAnswer) : Decidable (pty.Legal answer) := by
  cases answer <;> unfold Legal <;> infer_instance

theorem fits_new : new.Fits where
  length := List.length_replicate
  nonneg := Int.le_refl 0
  le := by simp [new]

variable {pty : PtyBuffer} {buf : List UInt8}

theorem length_writeAt {mem bytes : List UInt8} {offset : Nat}
    (h : offset + bytes.length ≤ mem.length)
    : (writeAt mem offset bytes).length = mem.length := by
  unfold writeAt
  simp only [List.length_append, List.length_take, List.length_drop]
  omega

theorem take_writeAt {mem bytes : List UInt8} {offset : Nat} (h : offset ≤ mem.length)
    : (writeAt mem offset bytes).take (offset + bytes.length) = mem.take offset ++ bytes := by
  unfold writeAt
  apply List.take_left'
  rw [List.length_append, List.length_take]
  omega

theorem Fits.toProcess_read (h : pty.Fits)
    : (pty.read (.got buf)).toProcess = pty.rest ++ buf := by
  have hlength := h.length
  have hnonneg := h.nonneg
  have hle := h.le
  unfold toProcess rest
  simp only [PtyBuffer.read, ReadAnswer.readlen]
  have hsum : (buf.length + pty.remaininglen : Int).toNat = pty.remaininglen.toNat + buf.length := by
    omega
  rw [hsum]
  apply take_writeAt
  omega

theorem Fits.read (h : pty.Fits) {answer : ReadAnswer} (hlegal : pty.Legal answer)
    : (pty.read answer).Fits := by
  have hlength := h.length
  have hnonneg := h.nonneg
  cases answer with
  | got buf =>
    simp only [Legal, room] at hlegal
    refine ⟨?_, h.nonneg, h.le⟩
    simp only [PtyBuffer.read]
    rw [length_writeAt]
    . exact hlength
    . omega
  | failed lasting => exact ⟨h.length, h.nonneg, h.le⟩

section

variable (hlength : pty.readbuf.length = readBufferLength) (hnonneg : 0 ≤ pty.remaininglen)
  (hreadlen : 0 ≤ pty.readlen) (hle : pty.readlen + pty.remaininglen ≤ readBufferLength)
  {processed : Nat}
include hlength hnonneg hreadlen hle

theorem fits_keepRest (hprocessed : processed ≤ pty.toProcess.length)
    : (pty.keepRest processed).Fits := by
  unfold toProcess at hprocessed
  rw [List.length_take] at hprocessed
  refine ⟨?_, ?_, ?_⟩
  . simp only [keepRest, memmove]
    rw [length_writeAt]
    . exact hlength
    . rw [List.length_take, List.length_drop]
      omega
  . simp only [keepRest]
    omega
  . simp only [keepRest]
    omega

theorem rest_keepRest : (pty.keepRest processed).rest = pty.toProcess.drop processed := by
  unfold rest keepRest memmove writeAt toProcess
  dsimp only
  rw [List.take_zero, List.nil_append, List.drop_take, List.take_left']
  . congr 1
    omega
  . rw [List.length_take, List.length_drop]
    omega

end

theorem Fits.inputCb_got (h : pty.Fits) (parser : Parser σ) (scr : σ) (hlegal : pty.Legal (.got buf))
    (hbuf : buf ≠ [])
    : ∃ pty',
        inputCb parser (.got buf) scr pty = (true, (parser.process scr (pty.rest ++ buf)).fst, pty')
          ∧
        pty'.Fits
          ∧
        pty'.readlen = buf.length
          ∧
        pty'.rest = (pty.rest ++ buf).drop (parser.process scr (pty.rest ++ buf)).snd := by
  have hpos := List.length_pos_iff.mpr hbuf
  have hread := h.read hlegal
  have hlegal : (buf.length : Int) ≤ readBufferLength - pty.remaininglen := hlegal
  have hprocessed := parser.processed_le scr (pty.read (.got buf)).toProcess
  have hreadlen : (pty.read (.got buf)).readlen = buf.length := rfl
  have hremaining : (pty.read (.got buf)).remaininglen = pty.remaininglen := rfl
  have hsum : (pty.read (.got buf)).readlen + (pty.read (.got buf)).remaininglen
      ≤ readBufferLength := by
    omega
  refine ⟨(pty.read (.got buf)).keepRest (parser.process scr (pty.rest ++ buf)).snd, ?_, ?_, ?_, ?_⟩
  . unfold inputCb
    dsimp only
    rw [if_pos (by omega), h.toProcess_read]
  . rw [h.toProcess_read] at hprocessed
    apply fits_keepRest hread.length hread.nonneg (by omega) hsum
    rwa [h.toProcess_read]
  . rfl
  . rw [rest_keepRest hread.length hread.nonneg (by omega) hsum, h.toProcess_read]

theorem Fits.inputCb_closes (h : pty.Fits) (parser : Parser σ) (scr : σ) {answer : ReadAnswer}
    (hanswer : ∀ buf, answer = .got buf → buf = [])
    : ∃ pty',
        inputCb parser answer scr pty = (false, scr, pty')
          ∧
        pty'.Fits
          ∧
        pty'.readlen = answer.readlen
          ∧
        pty'.rest = pty.rest := by
  cases answer with
  | got buf =>
    have hnil := hanswer buf rfl
    subst hnil
    have hlegal : pty.Legal (.got []) := by
      have := h.le
      simp only [Legal, room, List.length_nil]
      omega
    refine ⟨pty.read (.got []), rfl, h.read hlegal, rfl, ?_⟩
    simp [rest, PtyBuffer.read, writeAt]
  | failed lasting => exact ⟨pty.read (.failed lasting), rfl, ⟨h.length, h.nonneg, h.le⟩, rfl, rfl⟩

-- The buffer as the rest of the terminal sees it.
def toRunesPty (pty : PtyBuffer) : RunesPty := { readbuf := pty.rest, readlen := pty.readlen }

end PtyBuffer

def ReadAnswer.toOption (answer : ReadAnswer) : Option (List UInt8) :=
  match answer with
  | .got buf => some buf
  | .failed _ => none

theorem ReadAnswer.got_or_ends (answer : ReadAnswer)
    : (∃ buf, buf ≠ [] ∧ answer = .got buf) ∨ ∀ buf, answer = .got buf → buf = [] := by
  cases answer with
  | got buf =>
    by_cases hbuf : buf = []
    . exact Or.inr (fun _ h => (ReadAnswer.got.inj h) ▸ hbuf)
    . exact Or.inl ⟨buf, hbuf, rfl⟩
  | failed lasting => exact Or.inr (fun _ h => by cases h)

def VT100.parser {ρ : Type} (vt : VT100 ρ)
    (h : ∀ scr buf, (vt.processString scr buf).snd ≤ buf.length)
    : Parser (Screen ρ) :=
  { process := vt.processString, processed_le := h }

variable {ρ : Type} {env : Env ρ} {s : World ρ} {pty : PtyBuffer} {answer : ReadAnswer}

/--
The callback of the terminal does with the list of the bytes that are left what the callback in
memory does with the buffer.
-/
theorem ptyInputCb_eq (hlib : ∀ scr buf, (env.vt100.processString scr buf).snd ≤ buf.length)
    (hpty : pty.Fits) (habs : s.term.pty = pty.toRunesPty) (hlegal : pty.Legal answer)
    : ∃ again scr pty',
        pty.inputCb (env.vt100.parser hlib) answer s.term.scr = (again, scr, pty')
          ∧
        ptyInputCb env answer.toOption s =
          if again then
            (true, windowFlush env (modifyTerm ({ · with scr, pty := pty'.toRunesPty }) s))
          else
            (false, termRefcntDec (act .requestClose
              (modifyTerm ({ · with pty := pty'.toRunesPty }) s))) := by
  rcases answer.got_or_ends with ⟨buf, hbuf, rfl⟩ | hends
  . have ⟨pty', hcb, _, hreadlen, hrest⟩ :=
      hpty.inputCb_got (env.vt100.parser hlib) s.term.scr hlegal hbuf
    refine ⟨_, _, _, hcb, ?_⟩
    have hpos := List.length_pos_iff.mpr hbuf
    unfold ptyInputCb
    dsimp only [ReadAnswer.toOption, Option.getD_some]
    rw [if_pos (by omega), if_pos rfl, habs, PtyBuffer.toRunesPty, PtyBuffer.toRunesPty, hreadlen,
      hrest]
    rfl
  . have ⟨pty', hcb, _, hreadlen, hrest⟩ :=
      hpty.inputCb_closes (env.vt100.parser hlib) s.term.scr hends
    refine ⟨_, _, _, hcb, ?_⟩
    have habs' : s.term.pty.readbuf = pty.rest := congrArg RunesPty.readbuf habs
    unfold PtyBuffer.toRunesPty
    rw [hreadlen, hrest, if_neg (by simp), ← habs']
    cases answer with
    | got buf =>
      have hnil := hends buf rfl
      subst hnil
      rfl
    | failed lasting => rfl

end Term
end Runes
