import Runes.Config.Args
import Runes.Config.File
import Runes.Config.Set

/-!
This module contains how `runes_config_new` makes a configuration: it sets the options of the configuration
file and then those of the command line.
-/

namespace Runes
namespace Config

open Libc Protocol Exec

/--
`runes_config_new`, for any effect that `runes_config_set` may have on a configuration. The file is the
one that `runes_config_get_config_file` opens, and `line` is what is in the buffer for its lines. There is
no result if the code reads or writes where it must not.
-/
def configNewWith {σ : Type} (set : σ → CString → CString → σ) (defaults : σ)
    (configFile : Option (List UInt8)) (line : Buffer lineSize) (argc : Int) (argv : List CString)
    : Option σ :=
  match processConfigFile set configFile { config := defaults, line, warnings := [] } with
  | some s =>
    match (processArgs set argc argv).run { config := s.config, derefs := [], warnings := [] } with
    | .ok _ a => some a.config
    | .error _ _ => none
  | none => none

def configNew (configFile : Option (List UInt8)) (line : Buffer lineSize) (argc : Int)
    (argv : List CString)
    : Option RunesConfig :=
  configNewWith configAfter setDefaults configFile line argc argv

structure Setting where
  key : CString
  val : CString

-- The calls of `runes_config_set`, in their order.
def settings (configFile : Option (List UInt8)) (line : Buffer lineSize) (argc : Int)
    (argv : List CString)
    : Option (List Setting) :=
  configNewWith (fun l key val => l ++ [⟨key, val⟩]) [] configFile line argc argv

section

variable {σ τ : Type} {set : σ → CString → CString → σ} {set' : τ → CString → CString → τ} {h : σ → τ}

def FileState.map (h : σ → τ) (s : FileState σ) : FileState τ :=
  { config := h s.config, line := s.line, warnings := s.warnings }

def ArgsState.map (h : σ → τ) (s : ArgsState σ) : ArgsState τ :=
  { config := h s.config, derefs := s.derefs, warnings := s.warnings }

section

variable (hset : ∀ config key val, h (set config key val) = set' (h config) key val)

include hset

theorem processOption_map (s : FileState σ) (line : Buffer lineSize) (len : Nat)
    : processOption set' (s.map h) line len = (processOption set s line len).map (FileState.map h) := by
  unfold processOption warnLine FileState.map
  simp only [Option.bind_eq_bind, Option.map_bind, Function.comp_def, Option.pure_def,
    Option.map_some, hset]

theorem processText_map (s : FileState σ) (line : Buffer lineSize) (len : Nat)
    : processText set' (s.map h) line len = (processText set s line len).map (FileState.map h) := by
  unfold processText
  simp only [Option.bind_eq_bind, apply_ite (Option.map (FileState.map h)), Option.map_bind,
    Function.comp_def, Option.pure_def, Option.map_some, processOption_map hset]
  rfl

theorem processLine_map (s : FileState σ)
    : processLine set' (s.map h) = (processLine set s).map (FileState.map h) := by
  unfold processLine
  simp only [Option.bind_eq_bind, apply_ite (Option.map (FileState.map h)), Option.map_bind,
    Function.comp_def, processText_map hset]
  rfl

theorem processConfigFile_map (configFile : Option (List UInt8)) (s : FileState σ)
    : processConfigFile set' configFile (s.map h)
        = (processConfigFile set configFile s).map (FileState.map h) := by
  cases configFile with
  | none => rfl
  | some file =>
    unfold processConfigFile
    dsimp only
    rw [processLines_eq, processLines_eq]
    induction pieces (lineSize - 1) file generalizing s with
    | nil => rfl
    | cons piece later ih =>
      have hline := processLine_map hset { s with line := s.line.store (piece ++ [0]) }
      have hstore : { s.map h with line := (s.map h).line.store (piece ++ [0]) }
          = FileState.map h { s with line := s.line.store (piece ++ [0]) } := rfl
      rw [List.foldlM_cons, List.foldlM_cons, hstore, hline]
      cases processLine set { s with line := s.line.store (piece ++ [0]) } with
      | none => rfl
      | some s' => apply ih

theorem processArgs.go_map (argc : Int) (argv : List CString) (i : Nat) (a : ArgsState σ)
    : (go set' argc argv i).run (a.map h) = mapState (ArgsState.map h) ((go set argc argv i).run a) := by
  induction hn : (argc - i).toNat using Nat.strongRecOn generalizing i a with
  | ind n ih =>
    unfold go
    by_cases hlt : i < argc
    . rw [dif_pos hlt, dif_pos hlt]
      by_cases hi : i < argv.length
      . rw [run_bind_ok (run_derefArg_of_lt hi _), run_bind_ok (run_derefArg_of_lt hi _)]
        split
        . split
          . by_cases hi' : i + 1 < argv.length
            . rw [run_bind_ok (run_derefArg_of_lt hi' _), run_bind_ok (run_derefArg_of_lt hi' _),
                run_bind_ok (run_setOption _ _ _), run_bind_ok (run_setOption _ _ _),
                ← ih _ (by omega) (i + 2) _ rfl]
              unfold ArgsState.map
              rw [hset]
            . rw [run_bind_error (run_derefArg_of_le (by omega) _),
                run_bind_error (run_derefArg_of_le (by omega) _)]
              rfl
          . rw [run_bind_ok (run_warn _ _), run_bind_ok (run_warn _ _),
              ← ih _ (by omega) (i + 1) _ rfl]
            rfl
        . rw [run_bind_ok (run_warn _ _), run_bind_ok (run_warn _ _),
            ← ih _ (by omega) (i + 1) _ rfl]
          rfl
      . rw [run_bind_error (run_derefArg_of_le (by omega) _),
          run_bind_error (run_derefArg_of_le (by omega) _)]
        rfl
    . rw [dif_neg hlt, dif_neg hlt]
      rfl

/-- A new configuration depends on the options only through what `runes_config_set` does with them. -/
theorem configNewWith_map (defaults : σ) (configFile : Option (List UInt8)) (line : Buffer lineSize)
    (argc : Int) (argv : List CString)
    : configNewWith set' (h defaults) configFile line argc argv
        = (configNewWith set defaults configFile line argc argv).map h := by
  have hfile := processConfigFile_map hset configFile { config := defaults, line, warnings := [] }
  unfold configNewWith
  unfold FileState.map at hfile
  rw [hfile]
  cases processConfigFile set configFile { config := defaults, line, warnings := [] } with
  | none => rfl
  | some s =>
    have hargs := processArgs.go_map hset argc argv 1 { config := s.config, derefs := [], warnings := [] }
    unfold processArgs
    unfold ArgsState.map at hargs
    simp only [Option.map_some]
    rw [hargs]
    cases (processArgs.go set argc argv 1).run { config := s.config, derefs := [], warnings := [] } <;> rfl

end

end

def configured (l : List Setting) : RunesConfig :=
  l.foldl (fun config o => configAfter config o.key o.val) setDefaults

/-- Making a configuration is setting one option after the other, from the defaults on. -/
theorem configNew_eq (configFile : Option (List UInt8)) (line : Buffer lineSize) (argc : Int)
    (argv : List CString)
    : configNew configFile line argc argv = (settings configFile line argc argv).map configured := by
  have hset : ∀ (l : List Setting) key val,
      configured (l ++ [⟨key, val⟩]) = configAfter (configured l) key val := by
    intro l key val
    unfold configured
    rw [List.foldl_append]
    rfl
  exact configNewWith_map hset [] configFile line argc argv

end Config
end Runes
