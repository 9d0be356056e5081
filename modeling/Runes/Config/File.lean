import Runes.Libc.Stdio
import Runes.Protocol.Basic

/-!
This module contains how `config.c` reads a configuration file, line by line into a buffer on the stack.
It has no result if it reads or writes outside of the buffer.
-/

namespace Runes
namespace Config

open Libc Protocol

def lineSize : Nat := 1024

def blanks : List UInt8 := [0x20, 0x09]

def keyEnds : List UInt8 := [0x20, 0x09, 0x3d]

structure FileState (σ : Type) where
  config : σ
  line : Buffer lineSize
  -- The lines that could not be parsed.
  warnings : List CString

-- The warnings after the test for the `=`. It has no other effect.
def warnLine (s : FileState σ) (line : Buffer lineSize) (c : UInt8) : Option (List CString) :=
  if c ≠ 0x3d then
    (line.string 0).map (fun text => s.warnings ++ [.ofBytes text])
  else
    some s.warnings

-- The loop from the key on.
def processOption (set : σ → CString → CString → σ) (s : FileState σ) (line : Buffer lineSize)
    (len : Nat)
    : Option (FileState σ) := do
  let kbegin ← line.strspn 0 blanks
  let kend := kbegin + (← line.strcspn kbegin keyEnds)
  let vbegin := kend + (← line.strspn kend blanks)
  let warnings ← warnLine s line (← line.read vbegin)
  let vbegin := vbegin + 1
  let vbegin := vbegin + (← line.strspn vbegin blanks)
  let vend := len
  let line ← line.write kend 0
  let line ← line.write vend 0
  let key ← line.string kbegin
  let val ← line.string vbegin
  return { config := set s.config (.ofBytes key) (.ofBytes val), line, warnings }

-- The loop from the test for comments on.
def processText (set : σ → CString → CString → σ) (s : FileState σ) (line : Buffer lineSize)
    (len : Nat)
    : Option (FileState σ) :=
  if len = 0 then
    some { s with line }
  else do
    let c ← line.read (← line.strspn 0 blanks)
    if c = 0x23 then
      return { s with line }
    else
      processOption set s line len

/--
The body of the loop of `runes_config_process_config_file`, for any effect that `runes_config_set` may
have on the configuration. For an empty string `len - 1` is the index of the byte in front of the
buffer.
-/
def processLine (set : σ → CString → CString → σ) (s : FileState σ) : Option (FileState σ) := do
  let len ← s.line.strlen 0
  let last ← s.line.read (len - 1)
  if last = newline then
    let line ← s.line.write (len - 1) 0
    processText set s line (len - 1)
  else
    processText set s s.line len

def processLines (set : σ → CString → CString → σ) (file : List UInt8) (s : FileState σ)
    : Option (FileState σ) :=
  match _h : fgets s.line file with
  | none => some s
  | some (line, rest) => do
    let s ← processLine set { s with line }
    processLines set rest s
termination_by file.length
decreasing_by
  cases file with
  | nil => cases _h
  | cons c file =>
    unfold fgets at _h
    cases _h
    apply length_takeLine

theorem processLines_eq (set : σ → CString → CString → σ) (file : List UInt8) (s : FileState σ)
    : processLines set file s
        = (pieces (lineSize - 1) file).foldlM
            (fun s piece => processLine set { s with line := s.line.store (piece ++ [0]) }) s := by
  induction file using pieces.induct (lineSize - 1) generalizing s with
  | case1 => simp [processLines, pieces, fgets]
  | case2 c stream ih =>
    rw [processLines, pieces, List.foldlM_cons]
    simp only [fgets, ih]

/-- `runes_config_process_config_file`, with the bytes that are in the buffer when it is called. -/
def processConfigFile (set : σ → CString → CString → σ) (configFile : Option (List UInt8))
    (s : FileState σ)
    : Option (FileState σ) :=
  match configFile with
  | none => some s
  | some file => processLines set file s

end Config
end Runes
