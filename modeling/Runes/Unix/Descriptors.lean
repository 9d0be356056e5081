import Mathlib.Data.List.Basic

/-!
This module contains the table of the file descriptors of a process. What a descriptor refers to is a
parameter, it is an open file and not a name.
-/

namespace Unix

structure Descriptor (φ : Type) where
  file : φ
  cloexec : Bool
  deriving DecidableEq

-- By their numbers, `none` where there is none.
abbrev Descriptors (φ : Type) := List (Option (Descriptor φ))

namespace Descriptors

variable {φ : Type}

def get (fds : Descriptors φ) (fd : Nat) : Option (Descriptor φ) := fds[fd]?.join

def put (fds : Descriptors φ) (fd : Nat) (d : Option (Descriptor φ)) : Descriptors φ :=
  match fd, fds with
  | 0, [] => [d]
  | 0, _ :: fds => d :: fds
  | fd + 1, [] => none :: put [] fd d
  | fd + 1, d' :: fds => d' :: put fds fd d

/-- The number that the next descriptor gets. -/
def lowest (fds : Descriptors φ) : Nat :=
  match fds with
  | [] => 0
  | none :: _ => 0
  | some _ :: fds => lowest fds + 1

def opened (fds : Descriptors φ) (file : φ) : Descriptors φ := fds.put fds.lowest (some ⟨file, false⟩)

def close (fds : Descriptors φ) (fd : Nat) : Descriptors φ := fds.put fd none

-- The copy has no flags. Without a descriptor to be copied there is no copy.
def dup (fds : Descriptors φ) (fd : Nat) : Descriptors φ :=
  match fds.get fd with
  | some d => fds.opened d.file
  | none => fds

def dup2 (fds : Descriptors φ) (fd dest : Nat) : Descriptors φ :=
  match fds.get fd with
  | some d => if fd = dest then fds else fds.put dest (some ⟨d.file, false⟩)
  | none => fds

def setCloexec (fds : Descriptors φ) (fd : Nat) : Descriptors φ :=
  fds.put fd ((fds.get fd).map (fun d => { d with cloexec := true }))

def exec (fds : Descriptors φ) : Descriptors φ := fds.map (fun d => d.filter (fun d => !d.cloexec))

section

variable {fds : Descriptors φ} {d : Option (Descriptor φ)}

theorem get_put (fds : Descriptors φ) (fd : Nat) (d : Option (Descriptor φ)) (n : Nat)
    : (fds.put fd d).get n = if n = fd then d else fds.get n := by
  induction fd generalizing fds n with
  | zero =>
    cases fds with
    | nil => cases n <;> simp [put, get]
    | cons d' fds => cases n <;> simp [put, get]
  | succ fd ih =>
    cases fds with
    | nil =>
      cases n with
      | zero => simp [put, get]
      | succ n => simpa [put, get] using ih [] n
    | cons d' fds =>
      cases n with
      | zero => simp [put, get]
      | succ n => simpa [put, get] using ih fds n

@[simp]
theorem get_put_self (fds : Descriptors φ) (fd : Nat) (d : Option (Descriptor φ))
    : (fds.put fd d).get fd = d := by
  rw [get_put, if_pos rfl]

theorem get_put_of_ne {fd n : Nat} (h : n ≠ fd) (fds : Descriptors φ) (d : Option (Descriptor φ))
    : (fds.put fd d).get n = fds.get n := by
  rw [get_put, if_neg h]

@[simp]
theorem get_lowest (fds : Descriptors φ) : fds.get fds.lowest = none := by
  induction fds with
  | nil => rfl
  | cons d fds ih =>
    cases d with
    | none => rfl
    | some d => exact ih

theorem lowest_ne {fd : Nat} (h : (fds.get fd).isSome = true) : fd ≠ fds.lowest := by
  rintro rfl
  rw [get_lowest] at h
  cases h

/-- All numbers below are in use. -/
theorem lowest_ge {n : Nat} (h : ∀ fd < n, (fds.get fd).isSome = true) : n ≤ fds.lowest := by
  by_contra hlt
  exact lowest_ne (h fds.lowest (by omega)) rfl

theorem get_exec (fds : Descriptors φ) (fd : Nat)
    : fds.exec.get fd = (fds.get fd).filter (fun d => !d.cloexec) := by
  unfold exec get
  rw [List.getElem?_map]
  cases fds[fd]? <;> rfl

theorem get_close (fds : Descriptors φ) (fd n : Nat)
    : (fds.close fd).get n = if n = fd then none else fds.get n := get_put fds fd none n

theorem get_opened (fds : Descriptors φ) (file : φ) (n : Nat)
    : (fds.opened file).get n = if n = fds.lowest then some ⟨file, false⟩ else fds.get n :=
  get_put fds fds.lowest (some ⟨file, false⟩) n

theorem get_dup2 {fd : Nat} {e : Descriptor φ} (h : fds.get fd = some e) (dest : Nat)
    (hne : fd ≠ dest) (n : Nat)
    : (fds.dup2 fd dest).get n = if n = dest then some ⟨e.file, false⟩ else fds.get n := by
  unfold dup2
  rw [h]
  dsimp only
  rw [if_neg hne, get_put]

theorem get_setCloexec (fds : Descriptors φ) (fd n : Nat)
    : (fds.setCloexec fd).get n
        =
      if n = fd then (fds.get fd).map (fun d => { d with cloexec := true }) else fds.get n :=
  get_put fds fd _ n

end

end Descriptors

end Unix
