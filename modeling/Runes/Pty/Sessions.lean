import Mathlib.Data.List.Nodup
import Mathlib.Logic.Function.Basic
import Runes.Pty.Terminals
import Runes.Term.Closing
import Runes.Term.Paste
import Runes.Term.Sizes

/-!
This module contains the terminals of one process with their pseudoterminals. All that a terminal has of its
own is the number of a descriptor, and a number is used again when its terminal is gone.
-/

namespace Runes
namespace Pty

open Libc Unix Exec

variable {δ ρ : Type}

/--
The pseudoterminals by their numbers: what has been written to their masters, the size that they have been
given last, what their programs have printed and what of it has not been read, and how many calls were made
with descriptors that are no masters.
-/
structure Kernel where
  written : Nat → List UInt8
  winsize : Nat → Option Term.Action
  printed : Nat → List UInt8
  unread : Nat → List UInt8
  misused : Nat

def masterOf (d : Option (Descriptor File)) : Option Nat :=
  match d with
  | some ⟨.master p, _⟩ => some p
  | _ => none

-- `write` and `ioctl`
def Kernel.call (fd : Option Nat) (k : Kernel) (a : Term.Action) : Kernel :=
  match a, fd with
  | .write buf, some p => { k with written := Function.update k.written p (k.written p ++ buf) }
  | .setWindowSize _ _ _ _, some p => { k with winsize := Function.update k.winsize p (some a) }
  | .write _, none => { k with misused := k.misused + 1 }
  | .setWindowSize _ _ _ _, none => { k with misused := k.misused + 1 }
  | _, _ => k

def Kernel.read (fd : Option Nat) (bytes : List UInt8) (k : Kernel) : Option Kernel :=
  match fd with
  | some p =>
    if bytes.isPrefixOf (k.unread p) then
      some { k with unread := Function.update k.unread p ((k.unread p).drop bytes.length) }
    else
      none
  | none => some { k with misused := k.misused + 1 }

/-- A terminal with the pseudoterminal that it was made with, and what it has read. -/
structure Session (ρ : Type) where
  pty : Terminal
  world : Term.World ρ
  fed : List UInt8

structure Sessions (δ ρ : Type) where
  server : Server δ
  sessions : List (Session ρ)
  kernel : Kernel

inductive Event where
  | new (spawn : Spawn) (forks : Bool) (start : Term.Start)
  | run (i : Nat) (input : Term.Input)
  -- A program prints on its terminal.
  | print (p : Nat) (bytes : List UInt8)
  | openOther (n : Nat)
  | closeOther (fd : Nat)

-- What `read` is answered, if it is called.
def readBytes (input : Term.Input) : Option (List UInt8) :=
  match input with
  | .ptyReady _ answer => some (answer.getD [])
  | _ => none

namespace Sessions

def new (chdir : List UInt8 → Option δ) (env : Nat → Term.Env ρ) (spawn : Spawn) (forks : Bool)
    (start : Term.Start) (s : Sessions δ ρ) : Sessions δ ρ :=
  let pty : Terminal := ⟨s.server.process.fds.lowest, s.server.next⟩
  let server := Pty.new chdir spawn forks s.server
  let world := (Term.machine (env s.sessions.length) start).init
  let fd := masterOf (server.process.fds.get pty.master)
  {
    server
    sessions := s.sessions ++ [⟨pty, world, []⟩]
    kernel := world.log.foldl (Kernel.call fd) s.kernel
  }

-- A callback ends with `runes_term_delete`, if it comes to that.
def ran (i : Nat) (x : Session ρ) (bytes : List UInt8) (world : Term.World ρ) (kernel : Kernel)
    (s : Sessions δ ρ) : Sessions δ ρ :=
  let fd := masterOf (s.server.process.fds.get x.pty.master)
  {
    server :=
      if x.world.deletes < world.deletes then
        Pty.delete (s.server.terms.idxOf x.pty) x.pty s.server
      else
        s.server
    sessions := s.sessions.set i ⟨x.pty, world, x.fed ++ bytes⟩
    kernel := (world.log.drop x.world.log.length).foldl (Kernel.call fd) kernel
  }

def run (env : Nat → Term.Env ρ) (i : Nat) (input : Term.Input) (s : Sessions δ ρ)
    : Option (Sessions δ ρ) :=
  (s.sessions[i]?).bind fun x =>
    (Term.step (env i) x.world input).bind fun world =>
      match readBytes input with
      | some bytes =>
        (s.kernel.read (masterOf (s.server.process.fds.get x.pty.master)) bytes).map fun kernel =>
          s.ran i x bytes world kernel
      | none => some (s.ran i x [] world s.kernel)

def print (p : Nat) (bytes : List UInt8) (s : Sessions δ ρ) : Option (Sessions δ ρ) :=
  if p < s.server.next then
    let printed := Function.update s.kernel.printed p (s.kernel.printed p ++ bytes)
    let unread := Function.update s.kernel.unread p (s.kernel.unread p ++ bytes)
    some { s with kernel := { s.kernel with printed, unread } }
  else
    none

def step (chdir : List UInt8 → Option δ) (env : Nat → Term.Env ρ) (s : Sessions δ ρ) (e : Event)
    : Option (Sessions δ ρ) :=
  match e with
  | .new spawn forks start => some (s.new chdir env spawn forks start)
  | .run i input => s.run env i input
  | .print p bytes => s.print p bytes
  | .openOther n => (Pty.step chdir s.server (.openOther n)).map fun server => { s with server }
  | .closeOther fd => (Pty.step chdir s.server (.closeOther fd)).map fun server => { s with server }

def machine (chdir : List UInt8 → Option δ) (env : Nat → Term.Env ρ) (start : Process δ)
    : Machine (Sessions δ ρ) Event where
  init :=
    {
      server := ⟨start, 0, [], []⟩
      sessions := []
      kernel := ⟨fun _ => [], fun _ => none, fun _ => [], fun _ => [], 0⟩
    }
  step := step chdir env

end Sessions

section

variable {chdir : List UInt8 → Option δ} {env : Nat → Term.Env ρ} {start : Process δ} {p q : Nat}
  {k k' : Kernel} {s s' : Sessions δ ρ}

-- A call with the master of a pseudoterminal.
structure Kernel.Calls (p : Nat) (new : List Term.Action) (k k' : Kernel) : Prop where
  written : k'.written = Function.update k.written p (k.written p ++ new.flatMap Term.Action.written)
  winsize : k'.winsize = Function.update k.winsize p (new.foldl Term.toldTo (k.winsize p))
  printed : k'.printed = k.printed
  unread : k'.unread = k.unread
  misused : k'.misused = k.misused

theorem Kernel.call_calls (p : Nat) (k : Kernel) (a : Term.Action)
    : Kernel.Calls p [a] k (k.call (some p) a) := by
  have hwritten (l : List UInt8) (h : l = k.written p) : k.written = Function.update k.written p l := by
    rw [h, Function.update_eq_self]
  have hwinsize : k.winsize = Function.update k.winsize p (k.winsize p) :=
    (Function.update_eq_self _ _).symm
  cases a with
  | write buf =>
    refine ⟨?_, hwinsize, rfl, rfl, rfl⟩
    rw [List.flatMap_singleton]
    rfl
  | setWindowSize row col xpixel ypixel =>
    exact ⟨hwritten _ (List.append_nil _), rfl, rfl, rfl, rfl⟩
  | _ => exact ⟨hwritten _ (List.append_nil _), hwinsize, rfl, rfl, rfl⟩

theorem Kernel.foldl_calls (p : Nat) (new : List Term.Action) (k : Kernel)
    : Kernel.Calls p new k (new.foldl (Kernel.call (some p)) k) := by
  induction new generalizing k with
  | nil =>
    refine ⟨?_, ?_, rfl, rfl, rfl⟩
    . rw [List.flatMap_nil, List.append_nil, Function.update_eq_self]
      rfl
    . exact (Function.update_eq_self _ _).symm
  | cons a new ih =>
    have hfirst := k.call_calls p a
    have hrest := ih (k.call (some p) a)
    refine ⟨?_, ?_, hrest.printed.trans hfirst.printed, hrest.unread.trans hfirst.unread,
      hrest.misused.trans hfirst.misused⟩
    . rw [List.foldl_cons, hrest.written, hfirst.written, Function.update_idem, Function.update_self,
        List.flatMap_singleton, List.append_assoc]
      rfl
    . rw [List.foldl_cons, hrest.winsize, hfirst.winsize, Function.update_idem, Function.update_self]
      rfl

-- What one terminal has read is gone from its pseudoterminal, and everything else is as it was.
structure Kernel.Reads (p : Nat) (bytes : List UInt8) (k k' : Kernel) : Prop where
  written : k'.written = k.written
  winsize : k'.winsize = k.winsize
  printed : k'.printed = k.printed
  misused : k'.misused = k.misused
  unread : k.unread p = bytes ++ k'.unread p
  others : ∀ q, q ≠ p → k'.unread q = k.unread q

theorem Kernel.Reads.none (p : Nat) (k : Kernel) : Kernel.Reads p [] k k :=
  ⟨rfl, rfl, rfl, rfl, rfl, fun _ _ => rfl⟩

theorem Kernel.reads_of_read {bytes : List UInt8} (h : k.read (some p) bytes = some k')
    : Kernel.Reads p bytes k k' := by
  unfold Kernel.read at h
  dsimp only at h
  split at h
  . next hprefix =>
    cases h
    have hsplit := List.prefix_iff_eq_append.mp (List.isPrefixOf_iff_prefix.mp hprefix)
    refine ⟨rfl, rfl, rfl, rfl, ?_, fun q hq => Function.update_of_ne hq _ _⟩
    dsimp only
    rw [Function.update_self]
    exact hsplit.symm
  . cases h

/-- What is true of the pseudoterminal of a terminal. -/
structure Session.Agrees (k : Kernel) (x : Session ρ) : Prop where
  written : k.written x.pty.pty = Term.written x.world
  winsize : k.winsize x.pty.pty = Term.toldSize x.world
  printed : k.printed x.pty.pty = x.fed ++ k.unread x.pty.pty

structure Sessions.Ok (env : Nat → Term.Env ρ) (s : Sessions δ ρ) : Prop where
  holds : Holds s.server
  live : ∀ t, t ∈ s.server.terms ↔ ∃ x ∈ s.sessions, x.world.deletes = 0 ∧ x.pty = t
  older : ∀ x ∈ s.sessions, x.pty.pty < s.server.next
  distinct : (s.sessions.map (fun x => x.pty.pty)).Nodup
  reachable : ∀ i x, s.sessions[i]? = some x →
    ∃ start, (Term.machine (env i) start).Reachable x.world
  unused : ∀ p, s.server.next ≤ p → s.kernel.written p = [] ∧ s.kernel.winsize p = none
    ∧ s.kernel.printed p = [] ∧ s.kernel.unread p = []
  agrees : ∀ x ∈ s.sessions, x.Agrees s.kernel
  misused : s.kernel.misused = 0

theorem foldl_toldTo_filter (l : List Term.Action) (told : Option Term.Action)
    : (l.filter Term.Action.isSize).foldl Term.toldTo told = l.foldl Term.toldTo told := by
  induction l generalizing told with
  | nil => rfl
  | cons a l ih =>
    rw [List.filter_cons, List.foldl_cons]
    cases a <;> exact ih _

theorem toldSize_eq (w : Term.World ρ) : Term.toldSize w = w.log.foldl Term.toldTo none := by
  unfold Term.toldSize Term.sizes
  exact foldl_toldTo_filter w.log none

theorem Session.Agrees.congr {x : Session ρ} (h : x.Agrees k)
    (hwritten : k'.written x.pty.pty = k.written x.pty.pty)
    (hwinsize : k'.winsize x.pty.pty = k.winsize x.pty.pty)
    (hprinted : k'.printed x.pty.pty = k.printed x.pty.pty)
    (hunread : k'.unread x.pty.pty = k.unread x.pty.pty)
    : x.Agrees k' :=
  ⟨hwritten.trans h.written, hwinsize.trans h.winsize, by rw [hprinted, hunread]; exact h.printed⟩

-- A terminal is as it was for the pseudoterminals of the others.
theorem Session.Agrees.other {x : Session ρ} {new : List Term.Action} (h : x.Agrees k)
    (hcalls : Kernel.Calls p new k k') (hne : x.pty.pty ≠ p)
    : x.Agrees k' := by
  apply h.congr
  . rw [hcalls.written, Function.update_of_ne hne]
  . rw [hcalls.winsize, Function.update_of_ne hne]
  . rw [hcalls.printed]
  . rw [hcalls.unread]

theorem Session.Agrees.calls {x : Session ρ} {w : Term.World ρ} {new : List Term.Action}
    (h : x.Agrees k) (hcalls : Kernel.Calls x.pty.pty new k k') (hlog : w.log = x.world.log ++ new)
    : Session.Agrees k' ⟨x.pty, w, x.fed⟩ where
  written := by
    dsimp only
    rw [hcalls.written, Function.update_self, h.written]
    unfold Term.written
    rw [hlog, List.flatMap_append]
  winsize := by
    dsimp only
    rw [hcalls.winsize, Function.update_self, h.winsize, toldSize_eq, toldSize_eq, hlog, List.foldl_append]
  printed := by
    dsimp only
    rw [hcalls.printed, hcalls.unread]
    exact h.printed

theorem Session.Agrees.reads {x : Session ρ} {bytes : List UInt8} (h : x.Agrees k)
    (hreads : Kernel.Reads x.pty.pty bytes k k')
    : Session.Agrees k' ⟨x.pty, x.world, x.fed ++ bytes⟩ where
  written := by
    dsimp only
    rw [hreads.written]
    exact h.written
  winsize := by
    dsimp only
    rw [hreads.winsize]
    exact h.winsize
  printed := by
    dsimp only
    rw [hreads.printed, h.printed, hreads.unread, List.append_assoc]

theorem Session.Agrees.reads_other {x : Session ρ} {bytes : List UInt8} (h : x.Agrees k)
    (hreads : Kernel.Reads p bytes k k') (hne : x.pty.pty ≠ p)
    : x.Agrees k' := by
  apply h.congr
  . rw [hreads.written]
  . rw [hreads.winsize]
  . rw [hreads.printed]
  . exact hreads.others _ hne

-- A terminal starts with a pseudoterminal that nobody has used.
theorem Session.agrees_init {w : Term.World ρ} (fd : Nat)
    (hunused : k.written p = [] ∧ k.winsize p = none ∧ k.printed p = [] ∧ k.unread p = [])
    (hcalls : Kernel.Calls p w.log k k')
    : Session.Agrees k' ⟨⟨fd, p⟩, w, []⟩ := by
  obtain ⟨hwritten, hwinsize, hprinted, hunread⟩ := hunused
  refine ⟨?_, ?_, ?_⟩
  . dsimp only
    rw [hcalls.written, Function.update_self, hwritten]
    rfl
  . dsimp only
    rw [hcalls.winsize, Function.update_self, hwinsize, toldSize_eq]
  . dsimp only
    rw [hcalls.printed, hcalls.unread, hprinted, hunread]
    rfl

theorem of_masterOf {d : Option (Descriptor File)} (h : masterOf d = some p)
    : ∃ d', d = some d' ∧ d'.file = .master p := by
  unfold masterOf at h
  split at h
  . cases h
    exact ⟨_, rfl, rfl⟩
  . cases h

-- The descriptor that a terminal that is not deleted uses is its own master.
theorem Sessions.Ok.masterOf_pty (h : s.Ok env) {x : Session ρ} (hx : x ∈ s.sessions)
    (hdeletes : x.world.deletes = 0)
    : masterOf (s.server.process.fds.get x.pty.master) = some x.pty.pty := by
  have hmem := (h.live x.pty).mpr ⟨x, hx, hdeletes, rfl⟩
  rw [h.holds.isOpen x.pty hmem]
  rfl

theorem deletes_of_step {start : Term.Start} {env : Term.Env ρ} {w w' : Term.World ρ} {input : Term.Input}
    (h : (Term.machine env start).Reachable w) (hstep : Term.step env w input = some w')
    : w.deletes = 0 := by
  have hdeletes := (Term.Reachable.alive h).deletes
  split at hdeletes
  . next hgone =>
    rw [Term.step_eq_none env hgone.left hgone.right input] at hstep
    cases hstep
  . exact hdeletes

theorem Sessions.Ok.new (h : s.Ok env) (spawn : Spawn) (forks : Bool) (start : Term.Start)
    : (s.new chdir env spawn forks start).Ok env := by
  have hmaster : masterOf ((Pty.new chdir spawn forks s.server).process.fds.get
      s.server.process.fds.lowest) = some s.server.next := by
    rw [get_new chdir spawn forks h.holds, if_pos rfl]
    rfl
  have hcalls : Kernel.Calls s.server.next (Term.machine (env s.sessions.length) start).init.log s.kernel
      (s.new chdir env spawn forks start).kernel := by
    unfold Sessions.new
    dsimp only
    rw [hmaster]
    exact Kernel.foldl_calls _ _ _
  have hne {x : Session ρ} (hx : x ∈ s.sessions) : x.pty.pty ≠ s.server.next :=
    Nat.ne_of_lt (h.older x hx)
  have hnext : (s.new chdir env spawn forks start).server.next = s.server.next + 1 := rfl
  refine ⟨h.holds.new spawn forks, ?_, ?_, ?_, ?_, ?_, ?_, hcalls.misused.trans h.misused⟩
  . intro t
    change t ∈ s.server.terms ++ [_] ↔ _
    rw [List.mem_append, List.mem_singleton, h.live]
    constructor
    . rintro (⟨x, hx, hdeletes, rfl⟩ | rfl)
      . exact ⟨x, List.mem_append_left _ hx, hdeletes, rfl⟩
      . exact ⟨_, List.mem_append_right _ (List.mem_singleton_self _), rfl, rfl⟩
    . rintro ⟨x, hx, hdeletes, rfl⟩
      rcases List.mem_append.mp hx with hx | hx
      . exact .inl ⟨x, hx, hdeletes, rfl⟩
      . right
        rw [List.mem_singleton.mp hx]
  . intro x hx
    rw [hnext]
    rcases List.mem_append.mp hx with hx | hx
    . exact Nat.lt_succ_of_lt (h.older x hx)
    . rw [List.mem_singleton.mp hx]
      exact Nat.lt_succ_self _
  . unfold Sessions.new
    dsimp only
    rw [List.map_append]
    apply List.nodup_append.mpr
    refine ⟨h.distinct, List.nodup_singleton _, ?_⟩
    intro p hp q hq
    obtain ⟨x, hx, rfl⟩ := List.mem_map.mp hp
    rw [List.mem_singleton.mp hq]
    exact hne hx
  . intro i x hx
    change (s.sessions ++ [_])[i]? = some x at hx
    rw [List.getElem?_append] at hx
    split at hx
    . exact h.reachable i x hx
    . next hi =>
      rw [List.getElem?_singleton] at hx
      split at hx
      . cases hx
        have heq : i = s.sessions.length := by omega
        rw [heq]
        exact ⟨start, .init⟩
      . cases hx
  . intro p hp
    rw [hnext] at hp
    have hne : p ≠ s.server.next := by omega
    rw [hcalls.written, hcalls.winsize, hcalls.printed, hcalls.unread, Function.update_of_ne hne,
      Function.update_of_ne hne]
    exact h.unused p (by omega)
  . intro x hx
    rcases List.mem_append.mp hx with hx | hx
    . exact (h.agrees x hx).other hcalls (hne hx)
    . rw [List.mem_singleton.mp hx]
      exact Session.agrees_init _ (h.unused s.server.next (Nat.le_refl _)) hcalls

theorem Sessions.Ok.server (h : s.Ok env) {server : Server δ} (hholds : Holds server)
    (hterms : server.terms = s.server.terms) (hnext : server.next = s.server.next)
    : Sessions.Ok env { s with server } where
  holds := hholds
  live := by
    dsimp only
    rw [hterms]
    exact h.live
  older x hx := by
    dsimp only
    rw [hnext]
    exact h.older x hx
  distinct := h.distinct
  reachable := h.reachable
  unused p hp := h.unused p (hnext ▸ hp)
  agrees := h.agrees
  misused := h.misused

theorem Sessions.Ok.print (h : s.Ok env) {bytes : List UInt8} (hprint : s.print p bytes = some s')
    : s'.Ok env := by
  unfold Sessions.print at hprint
  dsimp only at hprint
  split at hprint
  . next hp =>
    cases hprint
    refine ⟨h.holds, h.live, h.older, h.distinct, h.reachable, ?_, ?_, h.misused⟩
    . intro q hq
      dsimp only at hq ⊢
      have hne : q ≠ p := by omega
      rw [Function.update_of_ne hne, Function.update_of_ne hne]
      exact h.unused q hq
    . intro x hx
      have hagrees := h.agrees x hx
      refine ⟨hagrees.written, hagrees.winsize, ?_⟩
      dsimp only
      by_cases hxp : x.pty.pty = p
      . rw [hxp, Function.update_self, Function.update_self, ← hxp, hagrees.printed, List.append_assoc]
      . rw [Function.update_of_ne hxp, Function.update_of_ne hxp]
        exact hagrees.printed
  . cases hprint

section

variable {α β : Type} {l : List α} {f : α → β} {i : Nat} {a b c : α}

-- One of the elements is replaced by one with the same key.
theorem map_set_of_key (ha : l[i]? = some a) (hkey : f b = f a) : (l.set i b).map f = l.map f := by
  have hkeys : (l.map f)[i]? = some (f a) := by rw [List.getElem?_map, ha, Option.map_some]
  obtain ⟨hi, hget⟩ := List.getElem?_eq_some_iff.mp hkeys
  rw [List.map_set, hkey, ← hget]
  exact List.set_getElem_self hi

theorem mem_set_iff (hnodup : (l.map f).Nodup) (ha : l[i]? = some a) (hkey : f b = f a)
    : c ∈ l.set i b ↔ c = b ∨ (c ∈ l ∧ f c ≠ f a) := by
  obtain ⟨hi, hget⟩ := List.getElem?_eq_some_iff.mp ha
  rw [List.mem_iff_getElem?]
  constructor
  . rintro ⟨j, hj⟩
    by_cases hij : i = j
    . subst hij
      rw [List.getElem?_set_self hi] at hj
      exact .inl (Option.some.inj hj).symm
    . rw [List.getElem?_set_ne hij] at hj
      obtain ⟨hjlt, hjget⟩ := List.getElem?_eq_some_iff.mp hj
      refine .inr ⟨List.mem_of_getElem? hj, fun heq => hij ?_⟩
      have hilt : i < (l.map f).length := by rwa [List.length_map]
      have hjlt : j < (l.map f).length := by rwa [List.length_map]
      have hsame : (l.map f)[i] = (l.map f)[j] := by
        rw [List.getElem_map, List.getElem_map, hget, hjget, heq]
      exact hnodup.getElem_inj_iff.mp hsame
  . rintro (rfl | ⟨hc, hne⟩)
    . exact ⟨i, List.getElem?_set_self hi⟩
    . obtain ⟨j, hj⟩ := List.mem_iff_getElem?.mp hc
      refine ⟨j, ?_⟩
      rw [List.getElem?_set_ne, hj]
      rintro rfl
      rw [ha] at hj
      cases hj
      exact hne rfl

end

theorem terms_delete (h : Holds s.server) (pty t : Terminal)
    : t ∈ (Pty.delete (s.server.terms.idxOf pty) pty s.server).terms ↔ t ≠ pty ∧ t ∈ s.server.terms := by
  have hnodup : s.server.terms.Nodup := h.distinct.imp fun hne heq => hne.left (congrArg Terminal.master heq)
  change t ∈ s.server.terms.eraseIdx _ ↔ _
  rw [← List.erase_eq_eraseIdx_of_idxOf rfl]
  exact hnodup.mem_erase_iff

section

variable {i : Nat} {x : Session ρ} {w : Term.World ρ} {bytes : List UInt8}

-- The terminals that are not deleted after a step of one of them.
theorem Sessions.Ok.live_set (h : s.Ok env) (hx : s.sessions[i]? = some x) (t : Terminal)
    : (∃ y ∈ s.sessions.set i ⟨x.pty, w, x.fed ++ bytes⟩, y.world.deletes = 0 ∧ y.pty = t)
        ↔ (w.deletes = 0 ∧ x.pty = t) ∨ (t ≠ x.pty ∧ t ∈ s.server.terms) := by
  have hmem (y : Session ρ) : y ∈ s.sessions.set i ⟨x.pty, w, x.fed ++ bytes⟩
      ↔ y = ⟨x.pty, w, x.fed ++ bytes⟩ ∨ (y ∈ s.sessions ∧ y.pty.pty ≠ x.pty.pty) :=
    mem_set_iff h.distinct hx rfl
  constructor
  . rintro ⟨y, hy, hzero, rfl⟩
    rcases (hmem y).mp hy with rfl | ⟨hy, hne⟩
    . exact .inl ⟨hzero, rfl⟩
    . exact .inr ⟨fun heq => hne (congrArg Terminal.pty heq), (h.live y.pty).mpr ⟨y, hy, hzero, rfl⟩⟩
  . rintro (⟨hzero, rfl⟩ | ⟨hne, ht⟩)
    . exact ⟨_, (hmem _).mpr (.inl rfl), hzero, rfl⟩
    . obtain ⟨y, hy, hzero, rfl⟩ := (h.live t).mp ht
      refine ⟨y, (hmem y).mpr (.inr ⟨hy, fun heq => hne ?_⟩), hzero, rfl⟩
      rw [List.inj_on_of_nodup_map h.distinct hy (List.mem_of_getElem? hx) heq]

theorem terms_ran (h : Holds s.server) (hpty : x.pty ∈ s.server.terms) (hdeletes : x.world.deletes = 0)
    (kernel : Kernel) (t : Terminal)
    : t ∈ (s.ran i x bytes w kernel).server.terms
        ↔ (w.deletes = 0 ∧ x.pty = t) ∨ (t ≠ x.pty ∧ t ∈ s.server.terms) := by
  unfold Sessions.ran
  dsimp only
  split
  . next hlt =>
    rw [terms_delete h]
    constructor
    . exact .inr
    . rintro (⟨hzero, _⟩ | hrest)
      . omega
      . exact hrest
  . next hge =>
    have hzero : w.deletes = 0 := by omega
    by_cases ht : t = x.pty
    . rw [ht]
      exact iff_of_true hpty (.inl ⟨hzero, rfl⟩)
    . constructor
      . exact fun hmem => .inr ⟨ht, hmem⟩
      . rintro (⟨_, heq⟩ | hrest)
        . exact absurd heq.symm ht
        . exact hrest.right

theorem next_ran (kernel : Kernel) : (s.ran i x bytes w kernel).server.next = s.server.next := by
  unfold Sessions.ran
  dsimp only
  split <;> rfl

theorem holds_ran (h : Holds s.server) (hpty : x.pty ∈ s.server.terms) (kernel : Kernel)
    : Holds (s.ran i x bytes w kernel).server := by
  unfold Sessions.ran
  dsimp only
  split
  . exact h.delete (List.getElem?_idxOf hpty)
  . exact h

-- A step of one terminal, once what it has read has been taken from its pseudoterminal
theorem Sessions.Ok.ran (h : s.Ok env) {input : Term.Input} {kernel : Kernel}
    (hx : s.sessions[i]? = some x) (hstep : Term.step (env i) x.world input = some w)
    (hreads : Kernel.Reads x.pty.pty bytes s.kernel kernel)
    : (s.ran i x bytes w kernel).Ok env := by
  obtain ⟨start, hreach⟩ := h.reachable i x hx
  have hmem := List.mem_of_getElem? hx
  have hdeletes := deletes_of_step hreach hstep
  have hpty : x.pty ∈ s.server.terms := (h.live x.pty).mpr ⟨x, hmem, hdeletes, rfl⟩
  obtain ⟨new, hlog, _⟩ := (Term.stepped hstep).logs
  have hcalls : Kernel.Calls x.pty.pty new kernel (s.ran i x bytes w kernel).kernel := by
    unfold Sessions.ran
    dsimp only
    rw [h.masterOf_pty hmem hdeletes, hlog, List.drop_left]
    exact Kernel.foldl_calls x.pty.pty new kernel
  have hmem' (y : Session ρ) : y ∈ (s.ran i x bytes w kernel).sessions
      ↔ y = ⟨x.pty, w, x.fed ++ bytes⟩ ∨ (y ∈ s.sessions ∧ y.pty.pty ≠ x.pty.pty) :=
    mem_set_iff h.distinct hx rfl
  refine ⟨holds_ran h.holds hpty kernel, ?_, ?_, ?_, ?_, ?_, ?_, ?_⟩
  . exact fun t => (terms_ran h.holds hpty hdeletes kernel t).trans (h.live_set hx t).symm
  . intro y hy
    rw [next_ran]
    rcases (hmem' y).mp hy with rfl | ⟨hy, _⟩
    . exact h.older x hmem
    . exact h.older y hy
  . have hkeys : (s.ran i x bytes w kernel).sessions.map (fun x => x.pty.pty)
        = s.sessions.map (fun x => x.pty.pty) :=
      map_set_of_key hx rfl
    rw [hkeys]
    exact h.distinct
  . intro j y hy
    change (s.sessions.set i _)[j]? = some y at hy
    rw [List.getElem?_set] at hy
    split at hy
    . next hij =>
      subst hij
      split at hy
      . cases hy
        exact ⟨start, hreach.step trivial hstep⟩
      . cases hy
    . exact h.reachable j y hy
  . intro q hq
    rw [next_ran] at hq
    have hne : q ≠ x.pty.pty := by
      have := h.older x hmem
      omega
    rw [hcalls.written, hcalls.winsize, hcalls.printed, hcalls.unread, Function.update_of_ne hne,
      Function.update_of_ne hne, hreads.written, hreads.winsize, hreads.printed, hreads.others q hne]
    exact h.unused q hq
  . intro y hy
    rcases (hmem' y).mp hy with rfl | ⟨hy, hne⟩
    . exact ((h.agrees x hmem).reads hreads).calls hcalls hlog
    . exact ((h.agrees y hy).reads_other hreads hne).other hcalls hne
  . rw [hcalls.misused, hreads.misused]
    exact h.misused

end

theorem Sessions.Ok.run (h : s.Ok env) {i : Nat} {input : Term.Input} (hrun : s.run env i input = some s')
    : s'.Ok env := by
  obtain ⟨x, hx, hrun⟩ := Option.bind_eq_some_iff.mp hrun
  obtain ⟨w, hstep, hrun⟩ := Option.bind_eq_some_iff.mp hrun
  obtain ⟨start, hreach⟩ := h.reachable i x hx
  have hmaster := h.masterOf_pty (List.mem_of_getElem? hx) (deletes_of_step hreach hstep)
  cases hread : readBytes input with
  | some bytes =>
    rw [hread, hmaster] at hrun
    obtain ⟨kernel, hkernel, rfl⟩ := Option.map_eq_some_iff.mp hrun
    exact h.ran hx hstep (Kernel.reads_of_read hkernel)
  | none =>
    rw [hread] at hrun
    cases hrun
    exact h.ran hx hstep (Kernel.Reads.none _ _)

theorem holds_of_step {server server' : Server δ} {i : Input} (h : Holds server)
    (hstep : Pty.step chdir server i = some server')
    : Holds server' := by
  have hmachine : (Pty.machine chdir server.process).step server i = some server' := hstep
  exact h.step hmachine

theorem Sessions.Ok.step (h : s.Ok env) {e : Event} (hstep : Sessions.step chdir env s e = some s')
    : s'.Ok env := by
  cases e with
  | new spawn forks start =>
    cases hstep
    exact h.new spawn forks start
  | run i input => exact h.run hstep
  | print p bytes => exact h.print hstep
  | openOther n =>
    unfold Sessions.step at hstep
    obtain ⟨server, hserver, rfl⟩ := Option.map_eq_some_iff.mp hstep
    have hholds := holds_of_step h.holds hserver
    cases hserver
    exact h.server hholds rfl rfl
  | closeOther fd =>
    unfold Sessions.step at hstep
    obtain ⟨server, hserver, rfl⟩ := Option.map_eq_some_iff.mp hstep
    have hholds := holds_of_step h.holds hserver
    unfold Pty.step at hserver
    dsimp only at hserver
    split at hserver
    . cases hserver
      exact h.server hholds rfl rfl
    . cases hserver

theorem Sessions.ok_init (env : Nat → Term.Env ρ) (h : Plain start)
    : (Sessions.machine chdir env start).init.Ok env where
  holds := (holds_init h : Holds (Pty.machine chdir start).init)
  live t := ⟨fun hmem => (by cases hmem), fun ⟨_, hmem, _⟩ => (by cases hmem)⟩
  older _ hx := by cases hx
  distinct := List.nodup_nil
  reachable i x hx := by cases hx
  unused _ _ := ⟨rfl, rfl, rfl, rfl⟩
  agrees _ hx := by cases hx
  misused := rfl

end

def typed (i : Nat) (c : UInt8) : List Event :=
  [
    .run i (.windowReady 0),
    .run i (.event false (.key { press := true, state := Term.Plain.noModifiers, lookup := .chars [c] })),
    .run i .drained
  ]

-- The first terminal is closed, and the third one gets its descriptor.
def reopens : List Event :=
  [.new ⟨none, none, none, 1⟩ true Term.Plain.start, .new ⟨none, none, none, 2⟩ true Term.Plain.start]
    ++ typed 1 0x6c
    ++ Term.Plain.clickAndClose.map (.run 0)
    ++ [.new ⟨none, none, none, 3⟩ true Term.Plain.start]
    ++ typed 2 0x78
    ++ [.print 1 [0x63], .print 2 [0x61, 0x62], .run 2 (.ptyReady 1 (some [0x61]))]

end Pty
end Runes
