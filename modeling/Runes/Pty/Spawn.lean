import Runes.Libc.Environ
import Runes.Unix.Descriptors

/-!
This module contains how the process that runs in a terminal is started: what it has open and what it
finds in its environment. The functions are the ones of `pty-unix.c`; the system calls that they make
succeed, but for `chdir` and `fork`.
-/

namespace Runes
namespace Pty

open Libc Unix

-- The two ends of the pseudoterminal with a number, and what else there may be.
inductive File where
  | master (pty : Nat)
  | slave (pty : Nat)
  | other (n : Nat)
  deriving DecidableEq

structure Process (δ : Type) where
  environ : Environ
  fds : Descriptors File
  cwd : δ
  -- the controlling terminal
  tty : Option File

-- What is handed to `execlp`.
structure Execlp where
  file : List UInt8
  argv : List (List UInt8)
  deriving DecidableEq

def term : EnvName := ⟨ascii "TERM", by decide, by decide⟩
def colorterm : EnvName := ⟨ascii "COLORTERM", by decide, by decide⟩
def colorfgbg : EnvName := ⟨ascii "COLORFGBG", by decide, by decide⟩
def windowid : EnvName := ⟨ascii "WINDOWID", by decide, by decide⟩
def lines : EnvName := ⟨ascii "LINES", by decide, by decide⟩
def columns : EnvName := ⟨ascii "COLUMNS", by decide, by decide⟩
def shell : EnvName := ⟨ascii "SHELL", by decide, by decide⟩

-- `sprintf` with `%lu`.
def decimalOf (n : Nat) : List UInt8 := (Nat.toDigits 10 n).map (fun c => c.toNat.toUInt8)

section Child

variable {δ : Type}

/-- The descriptors of the child, from where it goes on after `fork`. -/
def childFds (master slave : Nat) (fds : Descriptors File) : Descriptors File :=
  let oldStderrFd := fds.lowest
  let fds := (fds.dup 2).setCloexec oldStderrFd
  let fds := fds.close master
  let fds := ((fds.dup2 slave 0).dup2 slave 1).dup2 slave 2
  fds.close slave

def childEnviron (windowId : Nat) (environ : Environ) : Environ :=
  let environ := setenv environ term (ascii "screen-256color")
  let environ := unsetenv environ colorterm
  let environ := unsetenv environ colorfgbg
  let environ := setenv environ windowid (decimalOf windowId)
  let environ := unsetenv environ lines
  unsetenv environ columns

def childExec (cmd : Option (List UInt8)) (environ : Environ) : Execlp :=
  let cmd := (cmd.or (getenv environ shell)).getD (ascii "/bin/sh")
  if cmd.any (fun c => c = 0x20 ∨ c = 0x24) then
    ⟨ascii "/bin/sh", [ascii "/bin/sh", ascii "-c", cmd]⟩
  else
    ⟨cmd, [cmd]⟩

/--
The branch of `runes_pty_spawn_subprocess` that the child takes, up to what it executes. Where
`execlp` fails there is no child.
-/
def spawnChild (chdir : List UInt8 → Option δ) (master slave windowId : Nat) (envp : Option Environ)
    (cwd : Option (List UInt8)) (cmd : Option (List UInt8)) (p : Process δ)
    : Process δ × Execlp :=
  -- a session of its own, in which the slave becomes the controlling terminal
  let tty := (p.fds.get slave).map (fun d => d.file)
  let fds := childFds master slave p.fds
  let cwd := (cwd.bind chdir).getD p.cwd
  let environ := childEnviron windowId (envp.getD p.environ)
  (⟨environ, fds.exec, cwd, tty⟩, childExec cmd environ)

end Child

section Environ

variable {name : EnvName} {windowId : Nat} {environ : Environ}

/-- The variables that `runes_pty_spawn_subprocess` sets or removes. -/
def changed : List EnvName := [term, colorterm, colorfgbg, windowid, lines, columns]

theorem getenv_childEnviron (windowId : Nat) (environ : Environ) (name : EnvName)
    : getenv (childEnviron windowId environ) name
        =
      if name = term then
        some (ascii "screen-256color")
      else if name = windowid then
        some (decimalOf windowId)
      else if name ∈ changed then
        none
      else
        getenv environ name := by
  have hself : ∀ n : EnvName, n ∈ changed → n = name → name ∈ changed := fun n hn heq => heq ▸ hn
  unfold childEnviron
  dsimp only
  by_cases hterm : name = term
  . subst hterm
    rw [if_pos rfl, getenv_unsetenv_of_ne (by decide), getenv_unsetenv_of_ne (by decide),
      getenv_setenv_of_ne (by decide), getenv_unsetenv_of_ne (by decide),
      getenv_unsetenv_of_ne (by decide), getenv_setenv_self]
  . rw [if_neg hterm]
    by_cases hwindowid : name = windowid
    . subst hwindowid
      rw [if_pos rfl, getenv_unsetenv_of_ne (by decide), getenv_unsetenv_of_ne (by decide),
        getenv_setenv_self]
    . rw [if_neg hwindowid]
      by_cases hchanged : name ∈ changed
      . rw [if_pos hchanged]
        simp only [changed, List.mem_cons, List.not_mem_nil, or_false] at hchanged
        rcases hchanged with rfl | rfl | rfl | rfl | rfl | rfl
        . exact absurd rfl hterm
        . rw [getenv_unsetenv_of_ne (by decide), getenv_unsetenv_of_ne (by decide),
            getenv_setenv_of_ne (by decide), getenv_unsetenv_of_ne (by decide),
            getenv_unsetenv_self]
        . rw [getenv_unsetenv_of_ne (by decide), getenv_unsetenv_of_ne (by decide),
            getenv_setenv_of_ne (by decide), getenv_unsetenv_self]
        . exact absurd rfl hwindowid
        . rw [getenv_unsetenv_of_ne (by decide), getenv_unsetenv_self]
        . rw [getenv_unsetenv_self]
      . rw [if_neg hchanged]
        have hne : ∀ n ∈ changed, n ≠ name := fun n hn heq => hchanged (hself n hn heq)
        rw [getenv_unsetenv_of_ne (hne columns (by decide)),
          getenv_unsetenv_of_ne (hne lines (by decide)),
          getenv_setenv_of_ne (hne windowid (by decide)),
          getenv_unsetenv_of_ne (hne colorfgbg (by decide)),
          getenv_unsetenv_of_ne (hne colorterm (by decide)),
          getenv_setenv_of_ne (hne term (by decide))]

end Environ

section Descriptors

open Descriptors

variable {fds : Descriptors File} {master slave : Nat} {m s : File}

/--
What the child has open once it runs its program: the slave for its input, its output and its errors,
and what the parent had open beside the two ends, as far as that is inherited.
-/
theorem get_exec_childFds (hstd : ∀ fd < 3, (fds.get fd).isSome = true) (hslave : 3 ≤ slave)
    (hne : master ≠ slave) (hm : fds.get master = some ⟨m, false⟩)
    (hs : fds.get slave = some ⟨s, false⟩) (fd : Nat)
    : (childFds master slave fds).exec.get fd
        =
      if fd < 3 then
        some ⟨s, false⟩
      else if fd = master ∨ fd = slave then
        none
      else
        (fds.get fd).filter (fun d => !d.cloexec) := by
  obtain ⟨d₂, hd₂⟩ := Option.isSome_iff_exists.mp (hstd 2 (by omega))
  -- the copy of the errors does not survive
  have hlowest : 3 ≤ fds.lowest := lowest_ge hstd
  have hlm : master ≠ fds.lowest := lowest_ne (by rw [hm]; rfl)
  have hls : slave ≠ fds.lowest := lowest_ne (by rw [hs]; rfl)
  have hcopy : ∀ n, ((fds.dup 2).setCloexec fds.lowest).get n
      = if n = fds.lowest then some ⟨d₂.file, true⟩ else fds.get n := by
    intro n
    unfold Descriptors.dup
    rw [hd₂, get_setCloexec, get_opened, get_opened, if_pos rfl]
    split
    . rfl
    . rfl
  have hclosed : ∀ n, (((fds.dup 2).setCloexec fds.lowest).close master).get n
      = if n = master then none
        else if n = fds.lowest then some ⟨d₂.file, true⟩ else fds.get n := by
    intro n
    rw [get_close, hcopy]
  have hslave₀ : (((fds.dup 2).setCloexec fds.lowest).close master).get slave = some ⟨s, false⟩ := by
    rw [hclosed, if_neg hne.symm, if_neg hls, hs]
  unfold childFds
  dsimp only
  have hget₀ := get_dup2 hslave₀ 0 (by omega)
  have hslave₁ : ((((fds.dup 2).setCloexec fds.lowest).close master).dup2 slave 0).get slave
      = some ⟨s, false⟩ := by
    rw [hget₀, if_neg (by omega), hslave₀]
  have hget₁ := get_dup2 hslave₁ 1 (by omega)
  have hslave₂ : (((((fds.dup 2).setCloexec fds.lowest).close master).dup2 slave 0).dup2 slave 1).get
      slave = some ⟨s, false⟩ := by
    rw [hget₁, if_neg (by omega), hslave₁]
  have hget₂ := get_dup2 hslave₂ 2 (by omega)
  rw [get_exec, get_close, hget₂, hget₁, hget₀, hclosed]
  by_cases hlt : fd < 3
  . have hnot : fd ≠ slave := by omega
    rw [if_pos hlt, if_neg hnot]
    obtain rfl | rfl | rfl : fd = 0 ∨ fd = 1 ∨ fd = 2 := by omega
    . rfl
    . rfl
    . rfl
  . rw [if_neg hlt, if_neg (show ¬fd = 2 by omega), if_neg (show ¬fd = 1 by omega),
      if_neg (show ¬fd = 0 by omega)]
    by_cases hfs : fd = slave
    . rw [if_pos hfs, if_pos (.inr hfs)]
      rfl
    . rw [if_neg hfs]
      by_cases hfm : fd = master
      . rw [if_pos hfm, if_pos (.inl hfm)]
        rfl
      . rw [if_neg hfm, if_neg (not_or.mpr ⟨hfm, hfs⟩)]
        by_cases hfl : fd = fds.lowest
        . rw [if_pos hfl, hfl, get_lowest]
          rfl
        . rw [if_neg hfl]

end Descriptors

end Pty
end Runes
