import Runes.Config.Args
import Runes.Config.Grammar

/-!
This module contains that the configuration file and the command line agree.
-/

namespace Runes
namespace Config

open Libc Protocol Exec

/-- An option that can be written as a line of a configuration file. -/
structure FileOption where
  key : CString
  val : CString
  key_ne_nil : key.bytes ≠ []
  key_not_comment : key.bytes.head? ≠ some 0x23
  key_bytes : ∀ c ∈ key.bytes, isKeyByte c = true ∧ c ≠ newline
  val_begins : ∀ c ∈ val.bytes.head?, isBlank c = false
  val_bytes : newline ∉ val.bytes
  fits : (key.bytes ++ (ascii " = " ++ val.bytes)).length + 1 ≤ lineSize - 1

def FileOption.line (o : FileOption) : List UInt8 := o.key.bytes ++ (ascii " = " ++ o.val.bytes)

def optionFile (options : List FileOption) : List UInt8 :=
  options.flatMap (fun o => o.line ++ [newline])

def longOption (key : CString) : CString where
  bytes := 45 :: 45 :: key.bytes
  nul_free := by
    have := key.nul_free
    simpa using this

def optionArgs (options : List FileOption) : List CString :=
  options.flatMap (fun o => [longOption o.key, o.val])

section

variable {σ : Type} (set : σ → CString → CString → σ) (options : List FileOption)

def setAll (config : σ) : σ := options.foldl (fun config o => set config o.key o.val) config

theorem FileOption.optionLine (o : FileOption) : OptionLine o.line o.key.bytes o.val.bytes := by
  refine ⟨?_, fun c hc => (o.key_bytes c hc).left, o.val_begins, [], [0x20], [0x20], ?_, rfl⟩
  . have hne := o.key_ne_nil
    have hcomment := o.key_not_comment
    have hkey := o.key_bytes
    unfold isComment line
    cases hbytes : o.key.bytes with
    | nil => exact absurd hbytes hne
    | cons c rest =>
      rw [hbytes] at hcomment hkey
      have hc := isBlank_of_isKeyByte (hkey c List.mem_cons_self).left
      simpa [hc] using hcomment
  . intro c hc
    rw [show c = 0x20 by simpa using hc]
    rfl

theorem FileOption.line_bytes (o : FileOption) : 0 ∉ o.line ∧ newline ∉ o.line := by
  have hkey := o.key_bytes
  have hsep : 0 ∉ ascii " = " ∧ newline ∉ ascii " = " := by decide
  unfold line
  simp only [List.mem_append, not_or]
  refine ⟨⟨o.key.nul_free, hsep.left, o.val.nul_free⟩, ?_, hsep.right, o.val_bytes⟩
  intro hmem
  exact (hkey newline hmem).right rfl

theorem processLine_optionLine {text : List UInt8} {key val : CString} {s : FileState σ}
    (h : OptionLine text key.bytes val.bytes) (hnul : 0 ∉ text) (hlen : text.length + 1 < lineSize)
    : ∃ line', processLine set (withPiece s (text ++ [newline]))
        = some ⟨set s.config key val, line', s.warnings⟩ := by
  have ⟨line', _, hline⟩ := processLine_newline set (s := s) hnul hlen
  refine ⟨line', ?_⟩
  have ⟨hkey, _, hval⟩ := h.parts
  rw [hline]
  unfold lineResult warned
  rw [h.isIgnored, h.hasEquals, valueOf_of_hasEquals h.hasEquals hnul, hkey, hval]
  simp

theorem processLines_optionFile (s : FileState σ)
    : ∃ line', processLines set (optionFile options) s
        = some ⟨setAll set options s.config, line', s.warnings⟩ := by
  induction options generalizing s with
  | nil =>
    rw [processLines_eq]
    exact ⟨s.line, by simp [optionFile, pieces, setAll]⟩
  | cons o options ih =>
    have hpieces : pieces (lineSize - 1) (optionFile (o :: options))
        = (o.line ++ [newline]) :: pieces (lineSize - 1) (optionFile options) := by
      unfold optionFile
      rw [List.flatMap_cons, List.append_assoc, List.singleton_append]
      apply pieces_newline o.line_bytes.right
      exact o.fits
    obtain ⟨line', hline⟩ := processLine_optionLine set (s := s) o.optionLine o.line_bytes.left (by
      apply Nat.lt_of_le_of_lt o.fits
      decide)
    obtain ⟨line'', hrest⟩ := ih ⟨set s.config o.key o.val, line', s.warnings⟩
    refine ⟨line'', ?_⟩
    unfold withPiece at hline
    rw [processLines_eq, hpieces, List.foldlM_cons, hline, Option.bind_eq_bind, Option.bind_some,
      ← processLines_eq, hrest]
    rfl

theorem isOption_longOption (key : CString) : isOption (longOption key) = true := rfl

theorem processArgs.go_optionArgs (front : List CString) (s : ArgsState σ)
    : ∃ s', (processArgs.go set (front ++ optionArgs options).length (front ++ optionArgs options)
        front.length).run s = .ok () s' ∧ s'.config = setAll set options s.config := by
  induction options generalizing front s with
  | nil =>
    unfold processArgs.go
    rw [dif_neg (by simp [optionArgs])]
    exact ⟨s, rfl, rfl⟩
  | cons o options ih =>
    have hargs : front ++ optionArgs (o :: options)
        = (front ++ [longOption o.key, o.val]) ++ optionArgs options := by
      unfold optionArgs
      rw [List.flatMap_cons, List.append_assoc]
    have hlen : (front ++ [longOption o.key, o.val]).length = front.length + 2 := by
      rw [List.length_append]
      rfl
    have hlt : front.length + 1 < (front ++ optionArgs (o :: options)).length := by
      rw [hargs, List.length_append, hlen]
      omega
    have hkey : (front ++ optionArgs (o :: options))[front.length] = longOption o.key := by
      simp [optionArgs]
    have hval : (front ++ optionArgs (o :: options))[front.length + 1] = o.val := by
      simp [optionArgs]
    unfold processArgs.go
    rw [dif_pos (by omega), run_bind_ok (run_derefArg_of_lt (by omega) s), hkey,
      if_pos (isOption_longOption o.key), if_pos (by omega),
      run_bind_ok (run_derefArg_of_lt hlt _), hval, run_bind_ok (run_setOption _ _ _), hargs, ← hlen]
    have ⟨s', hrun, hconfig⟩ := ih (front ++ [longOption o.key, o.val])
      ⟨set s.config o.key o.val, s.derefs ++ [front.length] ++ [front.length + 1], s.warnings⟩
    exact ⟨s', hrun, hconfig⟩

theorem length_optionArgs : (optionArgs options).length = 2 * options.length := by
  unfold optionArgs
  simp [Nat.mul_comm]

/-- The same options make the same configuration, in the configuration file and on the command line. -/
theorem processConfigFile_eq_processArgs (line : Buffer lineSize) (warnings : List CString)
    (argv₀ : CString) (a : ArgsState σ)
    : ∃ s a',
        processConfigFile set (some (optionFile options)) ⟨a.config, line, warnings⟩ = some s
          ∧
        (processArgs set (1 + 2 * options.length) (argv₀ :: optionArgs options)).run a = .ok () a'
          ∧
        s.config = a'.config := by
  have ⟨line', hfile⟩ := processLines_optionFile set options ⟨a.config, line, warnings⟩
  have ⟨a', hrun, hconfig⟩ := processArgs.go_optionArgs set options [argv₀] a
  have hargc : ((([argv₀] ++ optionArgs options).length : Nat) : Int) = 1 + 2 * options.length := by
    rw [List.length_append, length_optionArgs]
    simp
  rw [hargc] at hrun
  exact ⟨_, a', hfile, hrun, hconfig.symm⟩

end

def record (options : List (List UInt8 × List UInt8)) (key val : CString)
    : List (List UInt8 × List UInt8) :=
  options ++ [(key.bytes, val.bytes)]

-- Values with the bytes that mean something in a line.
def quotedOptions : List FileOption :=
  [
    { key := ⟨ascii "font", by decide⟩, val := ⟨ascii "Mono = 10 #b", by decide⟩, key_ne_nil := by decide,
      key_not_comment := by decide, key_bytes := by decide +kernel, val_begins := by decide +kernel,
      val_bytes := by decide, fits := by decide },
    { key := ⟨ascii "cmd", by decide⟩, val := ⟨ascii "#= x ", by decide⟩, key_ne_nil := by decide,
      key_not_comment := by decide, key_bytes := by decide +kernel, val_begins := by decide +kernel,
      val_bytes := by decide, fits := by decide }
  ]

theorem processConfigFile_eq_processArgs_quoted
    : ∃ s a',
        processConfigFile record (some (ascii "font = Mono = 10 #b\ncmd = #= x \n"))
            ⟨[], (zeroedLine ()).line, []⟩ = some s
          ∧
        (processArgs record 5
            ([ascii "runes", ascii "--font", ascii "Mono = 10 #b", ascii "--cmd", ascii "#= x "].map
              CString.ofBytes)).run ⟨[], [], []⟩ = .ok () a'
          ∧
        s.config = a'.config
          ∧
        a'.config = [(ascii "font", ascii "Mono = 10 #b"), (ascii "cmd", ascii "#= x ")] := by
  have hfile : optionFile quotedOptions = ascii "font = Mono = 10 #b\ncmd = #= x \n" := by
    decide +kernel
  have hargs : CString.ofBytes (ascii "runes") :: optionArgs quotedOptions
      = [ascii "runes", ascii "--font", ascii "Mono = 10 #b", ascii "--cmd", ascii "#= x "].map
          CString.ofBytes := by
    decide +kernel
  rw [← hfile, ← hargs]
  have ⟨s, a', hs, ha, heq⟩ :=
    processConfigFile_eq_processArgs record quotedOptions (zeroedLine ()).line []
      (.ofBytes (ascii "runes")) ⟨[], [], []⟩
  have ⟨a'', hrun, hconfig⟩ :=
    processArgs.go_optionArgs record quotedOptions [.ofBytes (ascii "runes")] ⟨[], [], []⟩
  have hsame : EStateM.Result.ok () a' = EStateM.Result.ok () a'' := ha.symm.trans hrun
  cases hsame
  exact ⟨s, a', hs, ha, heq, hconfig⟩

end Config
end Runes
