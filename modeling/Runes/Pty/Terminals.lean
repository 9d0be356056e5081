import Runes.Exec.Machine
import Runes.Pty.Spawn

/-!
This module contains the process that has the terminals, with the descriptors that it opens and closes for
them, and the processes that it starts.
-/

namespace Runes
namespace Pty

open Libc Unix Exec

variable {δ : Type}

-- `master` is what the code keeps of a pseudoterminal, `pty` the number that the kernel has for it.
structure Terminal where
  master : Nat
  pty : Nat
  deriving DecidableEq

-- A process that was started, with the terminals that there were then beside its own.
structure Child (δ : Type) where
  pty : Nat
  beside : List Nat
  process : Process δ
  exec : Execlp

structure Server (δ : Type) where
  process : Process δ
  -- the number of the next pseudoterminal
  next : Nat
  terms : List Terminal
  children : List (Child δ)

structure Spawn where
  envp : Option Environ
  cwd : Option (List UInt8)
  cmd : Option (List UInt8)
  windowId : Nat
  deriving DecidableEq

inductive Input where
  -- `fork` may fail, and then everything goes on as if it had not
  | new (spawn : Spawn) (forks : Bool)
  | delete (i : Nat)
  -- what the rest of the code opens and closes
  | openOther (n : Nat)
  | closeOther (fd : Nat)
  deriving DecidableEq

/-- `runes_pty_new` and `runes_pty_spawn_subprocess`. -/
def new (chdir : List UInt8 → Option δ) (spawn : Spawn) (forks : Bool) (s : Server δ) : Server δ :=
  let master := s.process.fds.lowest
  let fds := s.process.fds.opened (.master s.next)
  let slave := fds.lowest
  let fds := fds.opened (.slave s.next)
  let child :=
    spawnChild chdir master slave spawn.windowId spawn.envp spawn.cwd spawn.cmd
      { s.process with fds := fds }
  let started : Child δ := ⟨s.next, s.terms.map Terminal.pty, child.1, child.2⟩
  {
    process := { s.process with fds := fds.close slave }
    next := s.next + 1
    terms := s.terms ++ [⟨master, s.next⟩]
    children := if forks then s.children ++ [started] else s.children
  }

/-- `runes_pty_delete`. -/
def delete (i : Nat) (t : Terminal) (s : Server δ) : Server δ :=
  { s with
    process := { s.process with fds := s.process.fds.close t.master }
    terms := s.terms.eraseIdx i
  }

def isOther (d : Option (Descriptor File)) : Bool :=
  match d with
  | some ⟨.other _, _⟩ => true
  | _ => false

def step (chdir : List UInt8 → Option δ) (s : Server δ) (i : Input) : Option (Server δ) :=
  match i with
  | .new spawn forks => some (new chdir spawn forks s)
  | .delete i => s.terms[i]?.map (fun t => delete i t s)
  | .openOther n =>
    some { s with process := { s.process with fds := s.process.fds.opened (.other n) } }
  | .closeOther fd =>
    if 3 ≤ fd ∧ isOther (s.process.fds.get fd) then
      some { s with process := { s.process with fds := s.process.fds.close fd } }
    else
      none

def machine (chdir : List UInt8 → Option δ) (start : Process δ) : Machine (Server δ) Input where
  init := ⟨start, 0, [], []⟩
  step := step chdir

/-- Input, output and errors are open, and no pseudoterminal is. -/
structure Plain (p : Process δ) : Prop where
  std : ∀ fd < 3, isOther (p.fds.get fd) = true
  others : ∀ fd d, p.fds.get fd = some d → ∃ n, d.file = .other n

/-- What a process that was started has open. -/
structure Child.Holds (c : Child δ) : Prop where
  std : ∀ fd < 3, c.process.fds.get fd = some ⟨.slave c.pty, false⟩
  slaves : ∀ fd d p, 3 ≤ fd → c.process.fds.get fd = some d → d.file ≠ .slave p
  masters : ∀ p, (∃ fd d, c.process.fds.get fd = some d ∧ d.file = .master p) ↔ p ∈ c.beside
  older : ∀ p ∈ c.beside, p < c.pty
  tty : c.process.tty = some (.slave c.pty)

structure Holds (s : Server δ) : Prop where
  std : ∀ fd < 3, isOther (s.process.fds.get fd) = true
  masters : ∀ fd d p, s.process.fds.get fd = some d →
    (d.file = .master p ↔ ⟨fd, p⟩ ∈ s.terms)
  slaves : ∀ fd d p, s.process.fds.get fd = some d → d.file ≠ .slave p
  isOpen : ∀ t ∈ s.terms, s.process.fds.get t.master = some ⟨.master t.pty, false⟩
  older : ∀ t ∈ s.terms, t.pty < s.next
  distinct : s.terms.Pairwise (fun t t' => t.master ≠ t'.master ∧ t.pty ≠ t'.pty)
  children : ∀ c ∈ s.children, c.Holds ∧ c.pty < s.next

section Steps

variable {chdir : List UInt8 → Option δ} {start : Process δ} {s s' : Server δ}

theorem isSome_of_isOther {d : Option (Descriptor File)} (h : isOther d = true) : d.isSome = true := by
  cases d with
  | none => cases h
  | some d => rfl

theorem holds_init (h : Plain start) : Holds (machine chdir start).init where
  std := h.std
  masters fd d p hd := by
    obtain ⟨n, hn⟩ := h.others fd d hd
    rw [hn]
    exact ⟨fun heq => (by cases heq), fun hmem => (by cases hmem)⟩
  slaves fd d p hd := by
    obtain ⟨n, hn⟩ := h.others fd d hd
    rw [hn]
    intro heq
    cases heq
  isOpen t ht := by cases ht
  older t ht := by cases ht
  distinct := List.Pairwise.nil
  children c hc := by cases hc

/-- The descriptors that a new terminal gets. -/
theorem lowest_new (h : Holds s)
    : 3 ≤ s.process.fds.lowest
        ∧
      3 ≤ (s.process.fds.opened (.master s.next)).lowest
        ∧
      s.process.fds.lowest ≠ (s.process.fds.opened (.master s.next)).lowest := by
  have hstd : ∀ fd < 3, (s.process.fds.get fd).isSome = true := fun fd hfd =>
    isSome_of_isOther (h.std fd hfd)
  have hlowest := Descriptors.lowest_ge hstd
  refine ⟨hlowest, ?_, ?_⟩
  . apply Descriptors.lowest_ge
    intro fd hfd
    rw [Descriptors.get_opened, if_neg (by omega)]
    exact hstd fd hfd
  . apply Descriptors.lowest_ne
    rw [Descriptors.get_opened, if_pos rfl]
    rfl

theorem get_new (chdir : List UInt8 → Option δ) (spawn : Spawn) (forks : Bool) (h : Holds s) (fd : Nat)
    : (new chdir spawn forks s).process.fds.get fd
        =
      if fd = s.process.fds.lowest then
        some ⟨.master s.next, false⟩
      else
        s.process.fds.get fd := by
  obtain ⟨_, _, hne⟩ := lowest_new h
  unfold new
  dsimp only
  rw [Descriptors.get_close, Descriptors.get_opened]
  by_cases hslave : fd = (s.process.fds.opened (.master s.next)).lowest
  . rw [if_pos hslave, if_neg (by omega)]
    have hfree := Descriptors.get_lowest (s.process.fds.opened (.master s.next))
    rw [← hslave, Descriptors.get_opened, if_neg (by omega)] at hfree
    exact hfree.symm
  . rw [if_neg hslave, if_neg hslave, Descriptors.get_opened]

theorem holds_child (spawn : Spawn) (h : Holds s)
    : Child.Holds ⟨s.next, s.terms.map Terminal.pty,
        (spawnChild chdir s.process.fds.lowest (s.process.fds.opened (.master s.next)).lowest
          spawn.windowId spawn.envp spawn.cwd spawn.cmd
          { s.process with
            fds := (s.process.fds.opened (.master s.next)).opened (.slave s.next) }).1,
        (spawnChild chdir s.process.fds.lowest (s.process.fds.opened (.master s.next)).lowest
          spawn.windowId spawn.envp spawn.cwd spawn.cmd
          { s.process with
            fds := (s.process.fds.opened (.master s.next)).opened (.slave s.next) }).2⟩ := by
  obtain ⟨hlow, hslave, hne⟩ := lowest_new h
  have hget : ∀ fd, ((s.process.fds.opened (.master s.next)).opened (.slave s.next)).get fd
      = if fd = (s.process.fds.opened (.master s.next)).lowest then some ⟨.slave s.next, false⟩
        else if fd = s.process.fds.lowest then some ⟨.master s.next, false⟩
        else s.process.fds.get fd := by
    intro fd
    rw [Descriptors.get_opened, Descriptors.get_opened]
  have hchild := @get_exec_childFds
    ((s.process.fds.opened (.master s.next)).opened (.slave s.next))
    s.process.fds.lowest (s.process.fds.opened (.master s.next)).lowest (.master s.next)
    (.slave s.next)
    (fun fd hfd => by
      rw [hget, if_neg (by omega), if_neg (by omega)]
      exact isSome_of_isOther (h.std fd hfd))
    hslave hne (by rw [hget, if_neg hne, if_pos rfl]) (by rw [hget, if_pos rfl])
  -- beside its own terminal the child has what the parent had
  have hinherited : ∀ fd d, 3 ≤ fd →
      (childFds s.process.fds.lowest (s.process.fds.opened (.master s.next)).lowest
        ((s.process.fds.opened (.master s.next)).opened (.slave s.next))).exec.get fd = some d →
      s.process.fds.get fd = some d := by
    intro fd d hfd hd
    rw [hchild, if_neg (by omega)] at hd
    split at hd
    . cases hd
    . next hother =>
      rw [hget, if_neg (fun heq => hother (.inr heq)), if_neg (fun heq => hother (.inl heq))] at hd
      exact Option.eq_some_of_filter_eq_some hd
  constructor
  case std =>
    intro fd hfd
    unfold spawnChild
    dsimp only
    rw [hchild, if_pos hfd]
  case slaves =>
    intro fd d p hfd hd
    exact h.slaves fd d p (hinherited fd d hfd hd)
  case masters =>
    intro p
    unfold spawnChild
    dsimp only
    constructor
    . rintro ⟨fd, d, hd, hfile⟩
      by_cases hlt : fd < 3
      . rw [hchild, if_pos hlt] at hd
        cases hd
        cases hfile
      . have hmem := (h.masters fd d p (hinherited fd d (by omega) hd)).mp hfile
        exact List.mem_map.mpr ⟨_, hmem, rfl⟩
    . intro hp
      obtain ⟨t, ht, rfl⟩ := List.mem_map.mp hp
      have hopen := h.isOpen t ht
      refine ⟨t.master, ⟨.master t.pty, false⟩, ?_, rfl⟩
      have hge : ¬t.master < 3 := by
        intro hlt
        have hstd := h.std t.master hlt
        rw [hopen] at hstd
        cases hstd
      have hlowest : t.master ≠ s.process.fds.lowest :=
        Descriptors.lowest_ne (by rw [hopen]; rfl)
      have hlowest' : t.master ≠ (s.process.fds.opened (.master s.next)).lowest := by
        apply Descriptors.lowest_ne
        rw [Descriptors.get_opened, if_neg hlowest, hopen]
        rfl
      rw [hchild, if_neg hge, if_neg (not_or.mpr ⟨hlowest, hlowest'⟩), hget, if_neg hlowest',
        if_neg hlowest, hopen]
      rfl
  case older =>
    intro p hp
    obtain ⟨t, ht, rfl⟩ := List.mem_map.mp hp
    exact h.older t ht
  case tty =>
    unfold spawnChild
    dsimp only
    rw [hget, if_pos rfl]
    rfl

theorem Holds.new (h : Holds s) (spawn : Spawn) (forks : Bool) : Holds (new chdir spawn forks s) := by
  obtain ⟨hlow, _, _⟩ := lowest_new h
  have hget := get_new chdir spawn forks h
  have hfree := Descriptors.get_lowest s.process.fds
  have hmaster : ∀ t ∈ s.terms, t.master ≠ s.process.fds.lowest := by
    intro t ht
    exact Descriptors.lowest_ne (by rw [h.isOpen t ht]; rfl)
  constructor
  case std =>
    intro fd hfd
    rw [hget, if_neg (by omega)]
    exact h.std fd hfd
  case masters =>
    intro fd d p hd
    change _ ↔ _ ∈ s.terms ++ [_]
    rw [List.mem_append, List.mem_singleton]
    rw [hget] at hd
    split at hd
    . next hfd =>
      cases hd
      constructor
      . intro heq
        cases heq
        right
        rw [hfd]
      . rintro (hmem | heq)
        . exact absurd hfd (hmaster _ hmem)
        . cases heq
          rfl
    . next hfd =>
      rw [h.masters fd d p hd]
      constructor
      . exact .inl
      . rintro (hmem | heq)
        . exact hmem
        . cases heq
          exact absurd rfl hfd
  case slaves =>
    intro fd d p hd
    rw [hget] at hd
    split at hd
    . cases hd
      intro heq
      cases heq
    . exact h.slaves fd d p hd
  case isOpen =>
    intro t ht
    rw [hget]
    rcases List.mem_append.mp ht with ht | ht
    . rw [if_neg (hmaster t ht)]
      exact h.isOpen t ht
    . rw [List.mem_singleton.mp ht, if_pos rfl]
  case older =>
    intro t ht
    change t.pty < s.next + 1
    rcases List.mem_append.mp ht with ht | ht
    . have := h.older t ht
      omega
    . rw [List.mem_singleton.mp ht]
      exact Nat.lt_succ_self s.next
  case distinct =>
    apply List.pairwise_append.mpr
    refine ⟨h.distinct, List.pairwise_singleton _ _, ?_⟩
    intro t ht t' ht'
    rw [List.mem_singleton.mp ht']
    exact ⟨hmaster t ht, Nat.ne_of_lt (h.older t ht)⟩
  case children =>
    intro c hc
    change c.Holds ∧ c.pty < s.next + 1
    have hold : c ∈ s.children → c.Holds ∧ c.pty < s.next + 1 := by
      intro hmem
      obtain ⟨hholds, hlt⟩ := h.children c hmem
      exact ⟨hholds, by omega⟩
    unfold Pty.new at hc
    dsimp only at hc
    split at hc
    . rcases List.mem_append.mp hc with hc | hc
      . exact hold hc
      . rw [List.mem_singleton.mp hc]
        exact ⟨holds_child spawn h, Nat.lt_succ_self s.next⟩
    . exact hold hc

theorem Holds.delete (h : Holds s) {i : Nat} {t : Terminal} (ht : s.terms[i]? = some t)
    : Holds (delete i t s) := by
  have hmem := List.mem_of_getElem? ht
  have hsub : (s.terms.eraseIdx i).Sublist s.terms := List.eraseIdx_sublist _ _
  have hget : ∀ fd, (Pty.delete i t s).process.fds.get fd
      = if fd = t.master then none else s.process.fds.get fd := by
    intro fd
    exact Descriptors.get_close _ _ _
  -- the other terminals have other masters
  have hother : ∀ t', t' ∈ s.terms.eraseIdx i ↔ t' ∈ s.terms ∧ t'.master ≠ t.master := by
    intro t'
    obtain ⟨hi, hti⟩ := List.getElem?_eq_some_iff.mp ht
    rw [List.mem_eraseIdx_iff_getElem?]
    constructor
    . rintro ⟨j, hne, hj⟩
      refine ⟨List.mem_of_getElem? hj, ?_⟩
      obtain ⟨hjlt, hj⟩ := List.getElem?_eq_some_iff.mp hj
      rw [← hj, ← hti]
      rcases Nat.lt_or_gt_of_ne hne with hlt | hgt
      . exact (List.pairwise_iff_getElem.mp h.distinct j i hjlt hi hlt).left
      . exact (List.pairwise_iff_getElem.mp h.distinct i j hi hjlt hgt).left.symm
    . rintro ⟨hmem', hmaster⟩
      obtain ⟨j, hj⟩ := List.mem_iff_getElem?.mp hmem'
      refine ⟨j, ?_, hj⟩
      rintro rfl
      rw [ht] at hj
      cases hj
      exact hmaster rfl
  constructor
  case std =>
    intro fd hfd
    rw [hget, if_neg]
    . exact h.std fd hfd
    . rintro rfl
      have hstd := h.std t.master hfd
      rw [h.isOpen t hmem] at hstd
      cases hstd
  case masters =>
    intro fd d p hd
    rw [hget] at hd
    split at hd
    . cases hd
    . next hfd =>
      rw [h.masters fd d p hd]
      change _ ↔ _ ∈ s.terms.eraseIdx i
      rw [hother]
      exact ⟨fun hm => ⟨hm, hfd⟩, fun hm => hm.left⟩
  case slaves =>
    intro fd d p hd
    rw [hget] at hd
    split at hd
    . cases hd
    . exact h.slaves fd d p hd
  case isOpen =>
    intro t' ht'
    have ⟨hmem', hmaster⟩ := (hother t').mp ht'
    rw [hget, if_neg hmaster]
    exact h.isOpen t' hmem'
  case older =>
    intro t' ht'
    exact h.older t' (hsub.subset ht')
  case distinct => exact h.distinct.sublist hsub
  case children => exact h.children

theorem Holds.other (h : Holds s) {fds : Descriptors File}
    (hstd : ∀ fd < 3, fds.get fd = s.process.fds.get fd)
    (hfds : ∀ fd d, fds.get fd = some d → s.process.fds.get fd = some d ∨
      ((∃ n, d.file = .other n) ∧ s.process.fds.get fd = none))
    (hopen : ∀ t ∈ s.terms, fds.get t.master = s.process.fds.get t.master)
    : Holds { s with process := { s.process with fds := fds } } where
  std fd hfd := by
    dsimp only
    rw [hstd fd hfd]
    exact h.std fd hfd
  masters fd d p hd := by
    rcases hfds fd d hd with hd | ⟨⟨n, hn⟩, hnone⟩
    . exact h.masters fd d p hd
    . rw [hn]
      constructor
      . intro heq
        cases heq
      . intro hmem
        have := h.isOpen _ hmem
        rw [hnone] at this
        cases this
  slaves fd d p hd := by
    rcases hfds fd d hd with hd | ⟨⟨n, hn⟩, _⟩
    . exact h.slaves fd d p hd
    . rw [hn]
      intro heq
      cases heq
  isOpen t ht := by
    dsimp only
    rw [hopen t ht]
    exact h.isOpen t ht
  older := h.older
  distinct := h.distinct
  children := h.children

theorem Holds.step (h : Holds s) {i : Input} (hstep : (machine chdir start).step s i = some s')
    : Holds s' := by
  change Pty.step chdir s i = some s' at hstep
  cases i with
  | new spawn forks =>
    cases hstep
    exact h.new spawn forks
  | delete i =>
    obtain ⟨t, ht, rfl⟩ := Option.map_eq_some_iff.mp hstep
    exact h.delete ht
  | openOther n =>
    cases hstep
    have hstd : ∀ fd < 3, (s.process.fds.get fd).isSome = true := fun fd hfd =>
      isSome_of_isOther (h.std fd hfd)
    have hlow := Descriptors.lowest_ge hstd
    apply h.other
    . intro fd hfd
      rw [Descriptors.get_opened, if_neg (by omega)]
    . intro fd d hd
      rw [Descriptors.get_opened] at hd
      split at hd
      . next hfd =>
        cases hd
        exact .inr ⟨⟨n, rfl⟩, by rw [hfd, Descriptors.get_lowest]⟩
      . exact .inl hd
    . intro t ht
      rw [Descriptors.get_opened, if_neg]
      exact Descriptors.lowest_ne (by rw [h.isOpen t ht]; rfl)
  | closeOther fd =>
    dsimp only [Pty.step] at hstep
    split at hstep
    . next hother =>
      cases hstep
      apply h.other
      . intro n hn
        rw [Descriptors.get_close, if_neg (by omega)]
      . intro n d hd
        rw [Descriptors.get_close] at hd
        split at hd
        . cases hd
        . exact .inl hd
      . intro t ht
        rw [Descriptors.get_close, if_neg]
        rintro rfl
        have := hother.right
        rw [h.isOpen t ht] at this
        cases this
    . cases hstep

end Steps

def startProcess : Process Unit where
  environ := []
  fds := List.replicate 5 (some ⟨.other 0, false⟩)
  cwd := ()
  tty := none

theorem plain_startProcess : Plain startProcess where
  std := by decide
  others fd d hd := by
    have hmem := List.mem_of_getElem? (Option.join_eq_some_iff.mp hd)
    cases List.eq_of_mem_replicate hmem
    exact ⟨0, rfl⟩

end Pty
end Runes
