import Runes.Config.Agree
import Runes.Config.Names
import Runes.Config.New
import Runes.Libc.Environ
import Runes.Unix.Paths

/-!
This module contains which of the settings for an option a new configuration has: those of the command
line, then those of the configuration file, then the default, and of several ones the last.
-/

namespace Runes
namespace Config

open Libc Protocol Exec Unix

def home : EnvName := ⟨ascii "HOME", by decide, by decide⟩

def xdgConfigHome : EnvName := ⟨ascii "XDG_CONFIG_HOME", by decide, by decide⟩

-- What `%s` prints, of a null pointer that it is handed as well.
def printed (str : Option (List UInt8)) : List UInt8 := str.getD (ascii "(null)")

def configDir (env : Environ) : Path :=
  match getenv env xdgConfigHome with
  | some dir => dir
  | none => printed (getenv env home) ++ ascii "/.config"

/--
`runes_config_get_config_file`, with the bytes that are read from a file if `fopen` opens it.
-/
def getConfigFile (fopen : Path → Option (List UInt8)) (env : Environ) : Option (List UInt8) :=
  match fopen (configDir env ++ ascii "/runes/runes.conf") with
  | some file => some file
  | none =>
    match fopen (printed (getenv env home) ++ ascii "/.runesrc") with
    | some file => some file
    | none => fopen (ascii "/etc/runesrc")

def configPaths (env : Environ) : List Path :=
  [
    configDir env ++ ascii "/runes/runes.conf", printed (getenv env home) ++ ascii "/.runesrc",
    ascii "/etc/runesrc"
  ]

theorem getConfigFile_eq (fopen : Path → Option (List UInt8)) (env : Environ)
    : getConfigFile fopen env = (configPaths env).findSome? fopen := by
  unfold getConfigFile configPaths
  rw [List.findSome?_cons, List.findSome?_cons, List.findSome?_cons]
  cases fopen (configDir env ++ ascii "/runes/runes.conf") with
  | some file => rfl
  | none =>
    cases fopen (printed (getenv env home) ++ ascii "/.runesrc") with
    | some file => rfl
    | none => cases fopen (ascii "/etc/runesrc") <;> rfl

/-- The options of a command line, without what has no argument or is no option. -/
def argOptions (args : List CString) : List Setting :=
  match args with
  | arg :: val :: rest =>
    if isOption arg then ⟨optionKey arg, val⟩ :: argOptions rest else argOptions (val :: rest)
  | _ => []

-- What a setting says about a field, which is nothing if its value cannot be parsed.
def Setting.value (f : Field) (o : Setting) : Option f.Value :=
  if keyField o.key = some f then f.parse o.val else none

def lastValue (f : Field) (l : List Setting) : Option f.Value := (l.filterMap (Setting.value f)).getLast?

section

variable {σ : Type} (set : σ → CString → CString → σ) {argv : List CString} {f : Field}

/-- The loop takes the options of the arguments, and reads no argument behind them. -/
theorem processArgs.go_argOptions (argv : List CString) (i : Nat) (a : ArgsState σ)
    : ∃ a', (go set argv.length argv i).run a = .ok () a' ∧
        a'.config = (argOptions (argv.drop i)).foldl (fun config o => set config o.key o.val) a.config
        := by
  induction hn : argv.length - i using Nat.strongRecOn generalizing i a with
  | ind n ih =>
    unfold go
    by_cases hi : i < argv.length
    . rw [dif_pos (Int.ofNat_lt.mpr hi), run_bind_ok (run_derefArg_of_lt hi a),
        List.drop_eq_getElem_cons hi]
      by_cases hi' : i + 1 < argv.length
      . rw [List.drop_eq_getElem_cons hi']
        unfold argOptions
        by_cases hopt : isOption argv[i] = true
        . have hrest := ih (argv.length - (i + 2)) (by omega) (i + 2)
          rw [if_pos hopt, if_pos (by omega), run_bind_ok (run_derefArg_of_lt hi' _),
            run_bind_ok (run_setOption _ _ _), if_pos hopt]
          apply hrest _ rfl
        . have hrest := ih (argv.length - (i + 1)) (by omega) (i + 1)
          rw [if_neg hopt, run_bind_ok (run_warn _ _), if_neg hopt, ← List.drop_eq_getElem_cons hi']
          apply hrest _ rfl
      . -- the last argument has none behind it
        have hrest := ih (argv.length - (i + 1)) (by omega) (i + 1)
        rw [List.drop_eq_nil_of_le (by omega)] at hrest ⊢
        by_cases hopt : isOption argv[i] = true
        . rw [if_pos hopt, if_neg (by omega), run_bind_ok (run_warn _ _)]
          apply hrest _ rfl
        . rw [if_neg hopt, run_bind_ok (run_warn _ _)]
          apply hrest _ rfl
    . rw [dif_neg (by omega), List.drop_eq_nil_of_le (by omega)]
      exact ⟨a, rfl, rfl⟩

theorem configNewWith_eq (defaults : σ) (configFile : Option (List UInt8)) (line : Buffer lineSize)
    (argv : List CString)
    : configNewWith set defaults configFile line argv.length argv
        = (configNewWith set defaults configFile line 0 []).map
            ((argOptions argv.tail).foldl (fun config o => set config o.key o.val)) := by
  unfold configNewWith
  cases processConfigFile set configFile { config := defaults, line, warnings := [] } with
  | none => rfl
  | some s =>
    obtain ⟨a', hrun, hconfig⟩ := processArgs.go_argOptions set argv 1 ⟨s.config, [], []⟩
    obtain ⟨a, hnone, hsame⟩ := processArgs.go_argOptions set [] 1 ⟨s.config, [], []⟩
    have hnone : (processArgs set 0 []).run ⟨s.config, [], []⟩ = .ok () a := hnone
    unfold processArgs at hnone ⊢
    dsimp only
    rw [hrun, hnone, Option.map_some, hsame, ← List.drop_one]
    exact congrArg some hconfig

end

theorem settings_eq (configFile : Option (List UInt8)) (line : Buffer lineSize) (argv : List CString)
    : settings configFile line argv.length argv
        = (settings configFile line 0 []).map (· ++ argOptions argv.tail) := by
  have hfold : ∀ l o : List Setting, o.foldl (fun l o => l ++ [⟨o.key, o.val⟩]) l = l ++ o := by
    intro l o
    induction o generalizing l with
    | nil => simp
    | cons first o ih => rw [List.foldl_cons, ih, List.append_assoc, List.singleton_append]
  have heq := configNewWith_eq (fun (l : List Setting) key val => l ++ [⟨key, val⟩]) [] configFile line
    argv
  unfold settings
  rw [heq]
  congr 1
  funext l
  apply hfold

theorem get_configured (l : List Setting) (f : Field)
    : (configured l).get f = (lastValue f l).getD (setDefaults.get f) := by
  have hassign : configured l
      = configFields.assignAll (fun o : Setting => assigned o.key o.val) setDefaults l := by
    unfold configured Fields.assignAll
    congr 1
    funext config o
    rw [configAfter_eq]
  have hvalue : ∀ (o : Setting) (x : f.Value),
      o.value f = some x ↔ assigned o.key o.val = some ⟨f, x⟩ := by
    intro o x
    unfold Setting.value assigned
    cases hkey : keyField o.key with
    | none => simp
    | some g =>
      by_cases heq : g = f
      . subst heq
        simp
      . have hne : ∀ y, (⟨g, y⟩ : (f : Field) × f.Value) ≠ ⟨f, x⟩ := by
          intro y h
          exact heq (congrArg Sigma.fst h)
        simp [heq, hne]
  rw [hassign]
  exact configFields.get_assignAll hvalue l

theorem lastValue_append (f : Field) (l l' : List Setting)
    : lastValue f (l ++ l') = (lastValue f l').or (lastValue f l) := by
  unfold lastValue
  rw [List.filterMap_append, List.getLast?_append]

def FileOption.setting (o : FileOption) : Setting := ⟨o.key, o.val⟩

theorem settings_optionFile (options : List FileOption) (line : Buffer lineSize)
    : settings (some (optionFile options)) line 0 [] = some (options.map FileOption.setting) := by
  have hset : ∀ l : List Setting, setAll (fun l key val => l ++ [⟨key, val⟩]) options l
      = l ++ options.map FileOption.setting := by
    unfold setAll
    induction options with
    | nil => simp
    | cons o options ih =>
      intro l
      rw [List.foldl_cons, ih, List.map_cons, List.append_assoc, List.singleton_append]
      rfl
  obtain ⟨line', hfile⟩ := processLines_optionFile (fun l key val => l ++ [⟨key, val⟩]) options
    (⟨[], line, []⟩ : FileState (List Setting))
  obtain ⟨a, hargs, hconfig⟩ := processArgs.go_argOptions (fun l key val => l ++ [⟨key, val⟩]) [] 1
    (⟨options.map FileOption.setting, [], []⟩ : ArgsState (List Setting))
  unfold settings configNewWith processConfigFile processArgs
  dsimp only
  rw [hfile]
  dsimp only
  rw [hset]
  have hargs : (processArgs.go (fun (l : List Setting) key val => l ++ [⟨key, val⟩]) 0 [] 1).run
    ⟨[] ++ options.map FileOption.setting, [], []⟩ = .ok () a := hargs
  rw [hargs]
  exact congrArg some hconfig

section New

variable {fopen : Path → Option (List UInt8)} {env : Environ} {line : Buffer lineSize} {l : List Setting}

-- The file is the first one that can be opened.
theorem configNew_of_settings (h : settings ((configPaths env).findSome? fopen) line 0 [] = some l)
    (argv : List CString)
    : configNew (getConfigFile fopen env) line argv.length argv
        = some (configured (l ++ argOptions argv.tail)) := by
  rw [configNew_eq, settings_eq, getConfigFile_eq, h]
  rfl

theorem get_configured_append (l l' : List Setting) (f : Field)
    : (configured (l ++ l')).get f
        = ((lastValue f l').or (lastValue f l)).getD (setDefaults.get f) := by
  rw [get_configured, lastValue_append]

/--
If the configuration file can be read, the options of the command line are taken from its arguments alone.
Each field has the value of the last of them that names it, or else of the last line of the file that
does, or else its default.
-/
theorem get_configNew (h : settings ((configPaths env).findSome? fopen) line 0 [] = some l)
    (argv : List CString)
    : ∃ config, configNew (getConfigFile fopen env) line argv.length argv = some config ∧
        ∀ f, config.get f
            = ((lastValue f (argOptions argv.tail)).or (lastValue f l)).getD (setDefaults.get f) := by
  refine ⟨configured (l ++ argOptions argv.tail), configNew_of_settings h argv, ?_⟩
  apply get_configured_append

end New

def sizeOptions : List FileOption :=
  [
    { key := ⟨ascii "rows", by decide⟩, val := ⟨ascii "30", by decide⟩, key_ne_nil := by decide,
      key_not_comment := by decide, key_bytes := by decide +kernel, val_begins := by decide +kernel,
      val_bytes := by decide, fits := by decide },
    { key := ⟨ascii "cols", by decide⟩, val := ⟨ascii "90", by decide⟩, key_ne_nil := by decide,
      key_not_comment := by decide, key_bytes := by decide +kernel, val_begins := by decide +kernel,
      val_bytes := by decide, fits := by decide }
  ]

-- Only the last of the three files is there.
def etcOnly (path : Path) : Option (List UInt8) :=
  if path = ascii "/etc/runesrc" then some (optionFile sizeOptions) else none

theorem get_configNew_etc
    : ∃ config, configNew (getConfigFile etcOnly [ascii "HOME=/h"]) (zeroedLine ()).line 3
          [⟨ascii "runes", by decide⟩, ⟨ascii "--rows", by decide⟩, ⟨ascii "40", by decide⟩] = some config
        ∧ config.defaultRows = 40 ∧ config.defaultCols = 90 ∧ config.scrollLines = 3 := by
  have hfile : (configPaths [ascii "HOME=/h"]).findSome? etcOnly = some (optionFile sizeOptions) := by
    decide +kernel
  have hsettings := settings_optionFile sizeOptions (zeroedLine ()).line
  rw [← hfile] at hsettings
  obtain ⟨config, hconfig, hget⟩ := get_configNew hsettings
    [⟨ascii "runes", by decide⟩, ⟨ascii "--rows", by decide⟩, ⟨ascii "40", by decide⟩]
  have hrows : config.defaultRows = 40 := (hget .defaultRows).trans rfl
  have hcols : config.defaultCols = 90 := (hget .defaultCols).trans rfl
  have hlines : config.scrollLines = 3 := (hget .scrollLines).trans rfl
  exact ⟨config, hconfig, hrows, hcols, hlines⟩

end Config
end Runes
