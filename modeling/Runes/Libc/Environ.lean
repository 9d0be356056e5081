import Runes.Libc.Number

/-!
This module contains the environment of a process and the functions of the C library that read and
change it. An entry need not have the form `NAME=value`, and there may be several ones for a name.
-/

namespace Libc

abbrev Environ := List (List UInt8)

def equals : UInt8 := 0x3d

/-- A name that `setenv` and `unsetenv` accept. -/
structure EnvName where
  bytes : List UInt8
  ne_nil : bytes ≠ []
  noEquals : equals ∉ bytes
  deriving DecidableEq

namespace EnvName

def entry (name : EnvName) (value : List UInt8) : List UInt8 := name.bytes ++ equals :: value

-- `strncmp` with the name, and the `=` behind it.
def names (name : EnvName) (entry : List UInt8) : Bool := (name.bytes ++ [equals]).isPrefixOf entry

end EnvName

def getenv (env : Environ) (name : EnvName) : Option (List UInt8) :=
  match env with
  | [] => none
  | entry :: env =>
    if name.names entry then some (entry.drop (name.bytes.length + 1)) else getenv env name

-- `setenv` with the permission to overwrite, which changes the first entry for the name.
def setenv (env : Environ) (name : EnvName) (value : List UInt8) : Environ :=
  match env with
  | [] => [name.entry value]
  | entry :: env =>
    if name.names entry then name.entry value :: env else entry :: setenv env name value

def unsetenv (env : Environ) (name : EnvName) : Environ :=
  env.filter (fun entry => !name.names entry)

section

variable {name other : EnvName} {value : List UInt8} {entry : List UInt8} {env : Environ}

@[simp]
theorem names_entry (name : EnvName) (value : List UInt8)
    : name.names (name.entry value) = true := by
  unfold EnvName.names EnvName.entry
  rw [List.isPrefixOf_iff_prefix]
  exact ⟨value, by simp⟩

@[simp]
theorem drop_entry (name : EnvName) (value : List UInt8)
    : (name.entry value).drop (name.bytes.length + 1) = value := by
  unfold EnvName.entry
  rw [List.drop_append]
  simp

/-- An entry is for one name at most. -/
theorem eq_of_names (h : name.names entry = true) (h' : other.names entry = true) : name = other := by
  have hfront : ∀ n : EnvName, n.names entry = true → entry.takeWhile (· ≠ equals) = n.bytes := by
    intro n hn
    unfold EnvName.names at hn
    rw [List.isPrefixOf_iff_prefix] at hn
    obtain ⟨rest, rfl⟩ := hn
    have hall : ∀ c ∈ n.bytes, decide (c ≠ equals) = true := by
      intro c hc
      apply decide_eq_true
      rintro rfl
      exact n.noEquals hc
    rw [List.append_assoc, List.takeWhile_append_of_pos hall]
    simp
  have hbytes := (hfront name h).symm.trans (hfront other h')
  cases name
  cases other
  simpa using hbytes

theorem names_entry_of_ne (h : name ≠ other) (value : List UInt8)
    : other.names (name.entry value) = false := by
  cases hnames : other.names (name.entry value) with
  | true => exact absurd (eq_of_names (names_entry name value) hnames) h
  | false => rfl

@[simp]
theorem getenv_setenv_self (env : Environ) (name : EnvName) (value : List UInt8)
    : getenv (setenv env name value) name = some value := by
  induction env with
  | nil => simp [setenv, getenv]
  | cons entry env ih =>
    unfold setenv
    split
    . simp [getenv]
    . next hother =>
      unfold getenv
      rw [if_neg hother, ih]

@[simp]
theorem getenv_setenv_of_ne (h : name ≠ other) (env : Environ) (value : List UInt8)
    : getenv (setenv env name value) other = getenv env other := by
  have hentry := names_entry_of_ne h value
  induction env with
  | nil => simp [setenv, getenv, hentry]
  | cons entry env ih =>
    unfold setenv
    split
    . next hnames =>
      have hother : other.names entry = false := by
        cases hboth : other.names entry with
        | true => exact absurd (eq_of_names hnames hboth) h
        | false => rfl
      simp [getenv, hentry, hother]
    . unfold getenv
      rw [ih]

@[simp]
theorem getenv_unsetenv_self (env : Environ) (name : EnvName)
    : getenv (unsetenv env name) name = none := by
  induction env with
  | nil => rfl
  | cons entry env ih =>
    unfold unsetenv
    rw [List.filter_cons]
    split
    . next hother =>
      unfold getenv
      rw [if_neg (by simpa using hother)]
      exact ih
    . exact ih

@[simp]
theorem getenv_unsetenv_of_ne (h : name ≠ other) (env : Environ)
    : getenv (unsetenv env name) other = getenv env other := by
  induction env with
  | nil => rfl
  | cons entry env ih =>
    unfold unsetenv
    rw [List.filter_cons]
    split
    . unfold getenv
      rw [← ih]
      rfl
    . next hnames =>
      have hnames : name.names entry = true := by simpa using hnames
      have hother : ¬other.names entry = true := fun hboth => h (eq_of_names hnames hboth)
      conv => rhs; unfold getenv
      rw [if_neg hother]
      exact ih

end

end Libc
