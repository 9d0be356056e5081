import Runes.Exec.EState
import Runes.Protocol.Load

/-!
This module contains the loop over the command line options of a terminal, and how the arguments of
a client reach it through the daemon, see `config.c` and `daemon.c`.
-/

namespace Runes
namespace Config

open Protocol Exec

inductive Warning where
  | noArgument (arg : CString)
  | unknownArgument (arg : CString)
  deriving DecidableEq

structure ArgsState (σ : Type) where
  config : σ
  derefs : List Nat
  warnings : List Warning

abbrev ArgsM (σ : Type) := EStateM Crash (ArgsState σ)

-- `argv[i]`, when it is passed to a function that reads the string. Behind the strings there is
-- nothing that could be read.
def derefArg (argv : List CString) (i : Nat) : ArgsM σ CString := do
  modify (fun s => { s with derefs := s.derefs ++ [i] })
  match argv[i]? with
  | some arg => return arg
  | none => throw .segfault

def warn (w : Warning) : ArgsM σ Unit :=
  modify (fun s => { s with warnings := s.warnings ++ [w] })

def setOption (set : σ → CString → CString → σ) (key val : CString) : ArgsM σ Unit :=
  modify (fun s => { s with config := set s.config key val })

def isOption (arg : CString) : Bool := arg.bytes.take 2 == [45, 45]

def optionKey (arg : CString) : CString where
  bytes := arg.bytes.drop 2
  nul_free := fun h => arg.nul_free (List.mem_of_mem_drop h)

/--
`runes_config_process_args`, for any effect that `runes_config_set` may have on the configuration.
-/
def processArgs (set : σ → CString → CString → σ) (argc : Int) (argv : List CString)
    : ArgsM σ Unit :=
  go 1
where
  go (i : Nat) : ArgsM σ Unit := do
    if _h : i < argc then
      let arg ← derefArg argv i
      if isOption arg then
        if i + 1 < argc then
          let val ← derefArg argv (i + 1)
          setOption set (optionKey arg) val
          go (i + 2)
        else
          warn (.noArgument arg)
          go (i + 1)
      else
        warn (.unknownArgument arg)
        go (i + 1)
    else
      return ()
  termination_by (argc - i).toNat

def processMessageArgs (set : σ → CString → CString → σ) (msg : LoadedMessage) : ArgsM σ Unit :=
  processArgs set (intOfU32 msg.argc) (msg.argv.strings.map (fun str => .ofBytes str.bytes))

section Loop

variable {set : σ → CString → CString → σ} {argc : Int} {argv : List CString}

theorem run_derefArg_of_lt {i : Nat} (hi : i < argv.length) (s : ArgsState σ)
    : (derefArg argv i).run s = .ok argv[i] { s with derefs := s.derefs ++ [i] } := by
  unfold derefArg
  rw [List.getElem?_eq_getElem hi]
  rfl

theorem run_derefArg_of_le {i : Nat} (hi : argv.length ≤ i) (s : ArgsState σ)
    : (derefArg argv i).run s = .error .segfault { s with derefs := s.derefs ++ [i] } := by
  unfold derefArg
  rw [List.getElem?_eq_none hi]
  rfl

theorem run_warn (w : Warning) (s : ArgsState σ)
    : (warn w).run s = .ok () { s with warnings := s.warnings ++ [w] } := rfl

theorem run_setOption (key val : CString) (s : ArgsState σ)
    : (setOption set key val).run s = .ok () { s with config := set s.config key val } := rfl

/--
Every one of the subscripts is that of a string.
-/
def Inside (argv : List CString) (derefs : List Nat) : Prop := ∀ i ∈ derefs, i < argv.length

theorem inside_append (derefs : List Nat) (i : Nat)
    : Inside argv (derefs ++ [i]) ↔ Inside argv derefs ∧ i < argv.length := by
  simp only [Inside, List.forall_mem_append, List.forall_mem_singleton]

theorem inside_append_and {p q : Prop} {i : Nat} (hi : i < argv.length) (h : p ↔ q)
    (derefs : List Nat)
    : Inside argv (derefs ++ [i]) ∧ p ↔ Inside argv derefs ∧ q := by
  rw [inside_append, and_iff_left hi, h]

theorem inside_append_iff_of_le {p q : Prop} {i : Nat} (hi : argv.length ≤ i) (h : ¬q)
    (derefs : List Nat)
    : Inside argv (derefs ++ [i]) ↔ p ∧ q := by
  rw [inside_append]
  constructor
  . intro hin
    omega
  . intro hin
    exact absurd hin.right h

theorem processArgs.go_inside (set : σ → CString → CString → σ) (argc : Int)
    (argv : List CString) (i : Nat) (s : ArgsState σ)
    : Inside argv (endState ((go set argc argv i).run s)).derefs
        ↔
      Inside argv s.derefs ∧ (argc ≤ i ∨ argc ≤ argv.length) := by
  induction hn : (argc - i).toNat using Nat.strongRecOn generalizing i s with
  | ind n ih =>
    unfold go
    by_cases hlt : i < argc
    . rw [dif_pos hlt]
      by_cases hi : i < argv.length
      . rw [run_bind_ok (run_derefArg_of_lt hi s)]
        by_cases hopt : isOption argv[i] = true
        . rw [if_pos hopt]
          by_cases harg : i + 1 < argc
          . rw [if_pos harg]
            by_cases hi' : i + 1 < argv.length
            . rw [run_bind_ok (run_derefArg_of_lt hi' _)]
              rw [run_bind_ok (run_setOption _ _ _)]
              rw [ih _ (by omega) (i + 2) _ rfl]
              dsimp only
              rw [inside_append_and hi' Iff.rfl]
              apply inside_append_and hi (by omega)
            . rw [run_bind_error (run_derefArg_of_le (by omega) _)]
              apply inside_append_iff_of_le (by omega) (by omega)
          . rw [if_neg harg, run_bind_ok (run_warn _ _)]
            rw [ih _ (by omega) (i + 1) _ rfl]
            apply inside_append_and hi (by omega)
        . rw [if_neg hopt, run_bind_ok (run_warn _ _)]
          rw [ih _ (by omega) (i + 1) _ rfl]
          apply inside_append_and hi (by omega)
      . rw [run_bind_error (run_derefArg_of_le (by omega) _)]
        apply inside_append_iff_of_le (by omega) (by omega)
    . rw [dif_neg hlt, run_pure]
      apply (and_iff_left (by omega)).symm

end Loop

end Config
end Runes
