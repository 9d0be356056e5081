import Runes.Term.Registered

/-!
This module contains terminals that share a connection to the X server. What the server sends comes to
a socket, which the event loop watches. Xlib reads the socket into a queue of its own, namely whenever
a terminal looks for its next event and in every request that waits for a reply.
-/

namespace Runes
namespace Xlib
namespace Connection

open Term (World Env Event ConfigureEvent Start Action Callback)

-- An event for one of the windows of a terminal.
structure XEvent where
  terminal : Nat
  event : Event

/--
The terminals with what was sent to them and was not handled yet.
-/
structure Dpy (ρ : Type) where
  terms : List (World ρ)
  socket : List XEvent
  -- The queue of Xlib.
  queue : List XEvent
  -- The callbacks that the event loop runs before it polls again, with their terminals.
  active : List (Nat × Nat)

inductive Input where
  -- The X server sends an event.
  | arrives (e : XEvent)
  -- The loop polls, which activates the callbacks of a readable socket and others that are ready.
  | polls (others : List (Nat × Nat))
  | creates (start : Start)
  -- The loop runs a callback that is activated.
  | starts (i : Nat) (input : Term.Input)
  -- The window callback that is running looks for its next event.
  | checkIfEvent (i : Nat) (filtered : Bool)

variable {ρ : Type}

def windowWantsEvent (i : Nat) (e : XEvent) : Bool := e.terminal == i

def readSocket (c : Dpy ρ) : Dpy ρ :=
  { c with queue := c.queue ++ c.socket, socket := [] }

def Dpy.Idle (c : Dpy ρ) : Prop := ∀ s ∈ c.terms, s.busy = none

instance (c : Dpy ρ) : Decidable c.Idle := inferInstanceAs (Decidable (∀ s ∈ c.terms, _))

-- The window callbacks that are registered with the loop.
def windowCallbacks (c : Dpy ρ) : List (Nat × Nat) :=
  c.terms.zipIdx.flatMap fun (s, i) =>
    (s.pending.filter (·.kind = .windowEvent)).map (fun e => (i, e.id))

def borderConfigure (i : Nat) (e : XEvent) : Option ConfigureEvent :=
  match e.event with
  | .configure configure _ =>
    if windowWantsEvent i e ∧ configure.border then some configure else none
  | _ => none

-- The calls of `XCheckTypedWindowEvent` in `runes_window_handle_configure_event`.
def checkTypedWindowEvents (i : Nat) (e : XEvent) (queue : List XEvent) : Event × List XEvent :=
  match borderConfigure i e with
  | some configure =>
    (.configure configure (queue.filterMap (borderConfigure i)),
      queue.filter (fun e => (borderConfigure i e).isNone))
  | none => (e.event, queue)

def Action.WaitsForReply (a : Action) : Bool :=
  match a with
  | .setUrgent => true
  | .clearUrgent => true
  | .setSelectionOwner => true
  | _ => false

def waitsForReply (s s' : World ρ) : Bool :=
  (s'.log.drop s.log.length).any Action.WaitsForReply

def stepPolls (others : List (Nat × Nat)) (c : Dpy ρ) : Option (Dpy ρ) :=
  if c.Idle then
    let windows := windowCallbacks c
    let others := others.filter (fun a => !windows.contains a)
    let ready := if c.socket.isEmpty then others else windows ++ others
    some { c with active := c.active ++ ready }
  else
    none

-- Creating a window takes requests that wait for a reply, before the window has any events.
def stepCreates (env : Nat → Env ρ) (start : Start) (c : Dpy ρ) : Option (Dpy ρ) :=
  if c.Idle then
    let s := (Term.machine (env c.terms.length) start).init
    some (readSocket { c with terms := c.terms ++ [s] })
  else
    none

def stepStarts (env : Nat → Env ρ) (i : Nat) (input : Term.Input) (c : Dpy ρ)
    : Option (Dpy ρ) :=
  match input.entry, c.terms[i]? with
  | some id, some s =>
    if c.Idle ∧ (i, id) ∈ c.active then
      match Term.step (env i) s input with
      | some s' =>
        let active := c.active.filter (fun a => a ≠ (i, id))
        let c := { c with terms := c.terms.set i s', active }
        some (if waitsForReply s s' then readSocket c else c)
      | none => none
    else
      none
  | _, _ => none

def stepCheckIfEvent (env : Nat → Env ρ) (i : Nat) (filtered : Bool) (c : Dpy ρ)
    : Option (Dpy ρ) :=
  match c.terms[i]? with
  | some s =>
    let c := readSocket c
    match c.queue.find? (windowWantsEvent i) with
    | some e =>
      let queue := c.queue.eraseP (windowWantsEvent i)
      let (event, queue) :=
        if filtered then (e.event, queue) else checkTypedWindowEvents i e queue
      match Term.step (env i) s (.event filtered event) with
      | some s => some { c with terms := c.terms.set i s, queue }
      | none => none
    | none =>
      match Term.step (env i) s .drained with
      | some s => some { c with terms := c.terms.set i s }
      | none => none
  | none => none

def step (env : Nat → Env ρ) (c : Dpy ρ) (input : Input) : Option (Dpy ρ) :=
  match input with
  | .arrives e =>
    if e.terminal < c.terms.length then some { c with socket := c.socket ++ [e] } else none
  | .polls others => stepPolls others c
  | .creates start => stepCreates env start c
  | .starts i input => stepStarts env i input c
  | .checkIfEvent i filtered => stepCheckIfEvent env i filtered c

def machine (env : Nat → Env ρ) : Exec.Machine (Dpy ρ) Input where
  init := { terms := [], socket := [], queue := [], active := [] }
  step := step env

/-- The window callback of a terminal is activated, if it is registered with the loop. -/
def Dpy.WindowActive (c : Dpy ρ) (i : Nat) : Prop :=
  ∀ s ∈ c.terms[i]?, s.busy = none →
    ∀ e ∈ s.pending, e.kind = .windowEvent → (i, e.id) ∈ c.active

instance (c : Dpy ρ) (i : Nat) : Decidable (c.WindowActive i) :=
  inferInstanceAs (Decidable (∀ s ∈ c.terms[i]?, s.busy = none → ∀ e ∈ s.pending, _ → _))

/--
No event is stranded: when no callback runs, the window callback of a terminal that has an event in
the queue of Xlib is activated, or the socket is readable.
-/
def NoneStranded (c : Dpy ρ) : Prop :=
  c.Idle → ∀ e ∈ c.queue, c.WindowActive e.terminal ∨ c.socket ≠ []

-- Whether Xlib reads the socket in the step.
def reads (env : Nat → Env ρ) (c : Dpy ρ) (input : Input) : Bool :=
  match input with
  | .creates _ => true
  | .checkIfEvent _ _ => true
  | .starts i input =>
    (c.terms[i]?.bind (fun s => (Term.step (env i) s input).map (waitsForReply s))).getD false
  | _ => false

/--
If Xlib reads the socket, the window callbacks of the terminals that get events by it are activated or
running.
-/
def ReadsForActive (env : Nat → Env ρ) (c : Dpy ρ) (input : Input) : Prop :=
  reads env c input = true → ∀ e ∈ c.socket, c.WindowActive e.terminal

instance (env : Nat → Env ρ) (c : Dpy ρ) (input : Input)
    : Decidable (ReadsForActive env c input) :=
  inferInstanceAs (Decidable (_ → ∀ e ∈ c.socket, _))

inductive Steps (env : Nat → Env ρ) (c : Dpy ρ) : Input → Dpy ρ → Prop where
  | arrives {e : XEvent} (hterm : e.terminal < c.terms.length)
      : Steps env c (.arrives e) { c with socket := c.socket ++ [e] }
  | polls {others : List (Nat × Nat)} (hidle : c.Idle) (ready : List (Nat × Nat))
      : Steps env c (.polls others) { c with active := c.active ++ ready }
  | creates {start : Start} (hidle : c.Idle)
      : Steps env c (.creates start)
          (readSocket
            { c with terms := c.terms ++ [(Term.machine (env c.terms.length) start).init] })
  | starts {i id : Nat} {input : Term.Input} {s s' : World ρ} (hidle : c.Idle)
      (hinput : input.entry = some id) (hs : c.terms[i]? = some s)
      (hstep : Term.step (env i) s input = some s')
      : Steps env c (.starts i input)
          (let active := c.active.filter (fun a => a ≠ (i, id))
          let c := { c with terms := c.terms.set i s', active }
          if waitsForReply s s' then readSocket c else c)
  | handles {i : Nat} {filtered : Bool} {event : Event} {queue : List XEvent} {s s' : World ρ}
      (hs : c.terms[i]? = some s) (hqueue : queue ⊆ (readSocket c).queue)
      (hstep : Term.step (env i) s (.event filtered event) = some s')
      : Steps env c (.checkIfEvent i filtered)
          { readSocket c with terms := c.terms.set i s', queue }
  | drains {i : Nat} {filtered : Bool} {s s' : World ρ} (hs : c.terms[i]? = some s)
      (hnone : ∀ e ∈ (readSocket c).queue, e.terminal ≠ i)
      (hstep : Term.step (env i) s .drained = some s')
      : Steps env c (.checkIfEvent i filtered) { readSocket c with terms := c.terms.set i s' }

section

variable {env : Nat → Env ρ} {c c' : Dpy ρ}

theorem checkTypedWindowEvents_subset (i : Nat) (e : XEvent) (queue : List XEvent)
    : (checkTypedWindowEvents i e queue).snd ⊆ queue := by
  unfold checkTypedWindowEvents
  split
  . exact List.filter_subset_self queue
  . exact List.Subset.refl queue

theorem steps_checkIfEvent {i : Nat} {filtered : Bool}
    (h : stepCheckIfEvent env i filtered c = some c')
    : Steps env c (.checkIfEvent i filtered) c' := by
  unfold stepCheckIfEvent at h
  split at h
  . next s hs =>
    extract_lets c₁ queue at h
    split at h
    . next e he =>
      have herase : queue ⊆ c₁.queue := List.eraseP_subset
      split at h
      next event rest hevent =>
      have hrest : rest ⊆ c₁.queue := by
        split at hevent
        . cases hevent
          exact herase
        . have hsubset := checkTypedWindowEvents_subset i e queue
          rw [hevent] at hsubset
          exact List.Subset.trans hsubset herase
      split at h
      . next s' hstep =>
        cases h
        exact .handles hs hrest hstep
      . cases h
    . next hnone =>
      split at h
      . next s' hstep =>
        cases h
        refine .drains hs ?_ hstep
        intro e he hterm
        have hwants := List.find?_eq_none.mp hnone e he
        exact hwants (by simp [windowWantsEvent, hterm])
      . cases h
  . cases h

theorem steps {input : Input} (h : step env c input = some c')
    : Steps env c input c' := by
  unfold step at h
  split at h
  . split at h
    . next hterm =>
      cases h
      exact .arrives hterm
    . cases h
  . unfold stepPolls at h
    split at h
    . next hidle =>
      cases h
      exact .polls hidle _
    . cases h
  . unfold stepCreates at h
    split at h
    . next hidle =>
      cases h
      exact .creates hidle
    . cases h
  . unfold stepStarts at h
    split at h
    . next id s hinput hs =>
      split at h
      . next hready =>
        split at h
        . next s' hstep =>
          cases h
          exact .starts hready.left hinput hs hstep
        . cases h
      . cases h
    . cases h
  . exact steps_checkIfEvent h

/-- When the loop polls, a readable socket activates every window callback. -/
theorem windowActive_of_polls {others : List (Nat × Nat)} (h : stepPolls others c = some c')
    (hreadable : c.socket ≠ []) (i : Nat)
    : c'.WindowActive i := by
  unfold stepPolls at h
  split at h
  . cases h
    intro s hs _ e he hkind
    have hcallback : (i, e.id) ∈ windowCallbacks c := by
      unfold windowCallbacks
      rw [List.mem_flatMap]
      refine ⟨(s, i), List.mem_zipIdx_iff_getElem?.mpr hs, List.mem_map.mpr ⟨e, ?_, rfl⟩⟩
      exact List.mem_filter.mpr ⟨he, by simpa using hkind⟩
    simp [hreadable, hcallback]
  . cases h

structure Sound (env : Nat → Env ρ) (c : Dpy ρ) : Prop where
  reachable : ∀ i s, c.terms[i]? = some s → ∃ start, (Term.machine (env i) start).Reachable s
  known : ∀ e ∈ (readSocket c).queue, e.terminal < c.terms.length

theorem Sound.readSocket (h : Sound env c) : Sound env (readSocket c) where
  reachable := h.reachable
  known e he := by
    apply h.known e
    simpa [Connection.readSocket] using he

theorem Sound.set (h : Sound env c) {i : Nat} {input : Term.Input} {s s' : World ρ}
    (hs : c.terms[i]? = some s) (hstep : Term.step (env i) s input = some s')
    : Sound env { c with terms := c.terms.set i s' } where
  reachable := by
    intro j t ht
    rw [List.getElem?_set] at ht
    split at ht
    . next heq =>
      subst heq
      split at ht
      . cases ht
        have ⟨start, hreach⟩ := h.reachable i s hs
        exact ⟨start, hreach.step trivial hstep⟩
      . cases ht
    . exact h.reachable j t ht
  known e he := by
    rw [List.length_set]
    exact h.known e he

theorem Sound.create (h : Sound env c) (start : Start)
    : Sound env
        { c with terms := c.terms ++ [(Term.machine (env c.terms.length) start).init] } where
  reachable := by
    intro i s hs
    rw [List.getElem?_append] at hs
    split at hs
    . exact h.reachable i s hs
    . next hnew =>
      have hi : i = c.terms.length := by
        have hlt := (List.getElem?_eq_some_iff.mp hs).fst
        simp only [List.length_singleton] at hlt
        omega
      subst hi
      rw [Nat.sub_self] at hs
      cases hs
      exact ⟨start, .init⟩
  known e he := by
    have hlt := h.known e he
    rw [List.length_append]
    omega

theorem Steps.sound {input : Input} (h : Steps env c input c') (hc : Sound env c)
    : Sound env c' := by
  cases h with
  | arrives hterm =>
    refine ⟨hc.reachable, ?_⟩
    intro e he
    simp only [readSocket, ← List.append_assoc] at he
    rcases List.mem_append.mp he with he | he
    . exact hc.known e he
    . rw [List.mem_singleton.mp he]
      exact hterm
  | polls hidle ready => exact ⟨hc.reachable, hc.known⟩
  | @creates start hidle => exact (hc.create start).readSocket
  | starts hidle hinput hs hstep =>
    have hset := hc.set hs hstep
    extract_lets active c₁
    have h₁ : Sound env c₁ := ⟨hset.reachable, hset.known⟩
    split
    . exact h₁.readSocket
    . exact h₁
  | handles hs hqueue hstep =>
    have hset := hc.readSocket.set hs hstep
    refine ⟨hset.reachable, ?_⟩
    intro e he
    apply hset.known e
    simp only [readSocket, List.append_nil] at he hqueue ⊢
    exact hqueue he
  | drains hs hnone hstep => exact hc.readSocket.set hs hstep

/--
Every terminal of a connection takes the steps of a terminal of its own.
-/
theorem Reaches.sound {ok : Dpy ρ → Input → Prop} (h : (machine env).Reaches ok c)
    : Sound env c := by
  apply h.invariant
  . constructor
    . intro i s hs
      cases hs
    . intro e he
      cases he
  . intro c input c' hc _ hstep
    exact (steps hstep).sound hc

theorem Dpy.WindowActive.congr {i : Nat} (h : c.WindowActive i)
    (hterm : c'.terms[i]? = c.terms[i]?) (hactive : ∀ id, (i, id) ∈ c.active → (i, id) ∈ c'.active)
    : c'.WindowActive i := by
  intro s hs hidle e he hkind
  rw [hterm] at hs
  exact hactive e.id (h s hs hidle e he hkind)

def Awaited (c : Dpy ρ) : Prop := ∀ e ∈ c.queue, c.WindowActive e.terminal

theorem Awaited.readSocket (h : Awaited c) (hsocket : ∀ e ∈ c.socket, c.WindowActive e.terminal)
    : Awaited (readSocket c) := by
  intro e he
  exact (List.mem_append.mp he).elim (h e) (hsocket e)

section

variable {i id : Nat} {input : Term.Input} {s s' : World ρ}

-- A callback that the loop runs is not activated any more, and all others still are.
theorem windowActive_starts (hidle : c.Idle) (hinput : input.entry = some id)
    (hs : c.terms[i]? = some s) (hstep : Term.step (env i) s input = some s') {j : Nat}
    (h : c.WindowActive j)
    : Dpy.WindowActive
        { c with terms := c.terms.set i s', active := c.active.filter (fun a => a ≠ (i, id)) } j := by
  by_cases hj : i = j
  . subst hj
    intro t ht hbusy e he hkind
    have hlt := (List.getElem?_eq_some_iff.mp hs).fst
    rw [List.getElem?_set_self hlt, Option.mem_some_iff] at ht
    subst ht
    have ⟨hbefore, hne⟩ := (Term.stepped hstep).mem_pending hinput hbusy hkind he
    have hactive := h s hs (hidle s (List.mem_of_getElem? hs)) e hbefore hkind
    exact List.mem_filter.mpr ⟨hactive, by simpa using hne⟩
  . apply h.congr
    . exact List.getElem?_set_ne hj
    . intro id' hactive
      have hne : (j, id') ≠ (i, id) := fun heq => hj (congrArg Prod.fst heq).symm
      exact List.mem_filter.mpr ⟨hactive, decide_eq_true hne⟩

-- Who handles an event still looks for the next one or has closed the window.
theorem windowActive_handles {filtered : Bool} {event : Event} (hsound : Sound env c)
    (hs : c.terms[i]? = some s) (hstep : Term.step (env i) s (.event filtered event) = some s')
    {queue : List XEvent} {j : Nat} (h : c.WindowActive j)
    : Dpy.WindowActive { readSocket c with terms := c.terms.set i s', queue } j := by
  by_cases hj : i = j
  . subst hj
    intro t ht hbusy e he hkind
    have hlt := (List.getElem?_eq_some_iff.mp hs).fst
    rw [List.getElem?_set_self hlt, Option.mem_some_iff] at ht
    subst ht
    have ⟨start, hreach⟩ := hsound.reachable i s hs
    have hclosed := (Term.stepped hstep).not_registered (Term.Reachable.alive hreach) hbusy he
    exact absurd hkind hclosed
  . exact h.congr (List.getElem?_set_ne hj) (fun _ hactive => hactive)

end

theorem Steps.awaited {input : Input} (h : Steps env c input c') (hsound : Sound env c)
    (hok : ReadsForActive env c input) (hc : Awaited c)
    : Awaited c' := by
  cases h with
  | arrives hterm => exact hc
  | polls hidle ready =>
    intro e he
    exact (hc e he).congr rfl (fun _ hactive => List.mem_append_left _ hactive)
  | creates hidle =>
    have hread := hc.readSocket (hok rfl)
    intro e he
    apply (hread e he).congr
    . exact List.getElem?_append_left (hsound.known e he)
    . exact fun _ hactive => hactive
  | @starts i id input s s' hidle hinput hs hstep =>
    have hkeeps := fun j => windowActive_starts (j := j) hidle hinput hs hstep
    extract_lets active c₁
    have h₁ : Awaited c₁ := fun e he => hkeeps e.terminal (hc e he)
    split
    . next hwaits =>
      apply h₁.readSocket
      intro e he
      apply hkeeps
      apply hok ?_ e he
      simp [reads, hs, hstep, hwaits]
    . exact h₁
  | handles hs hqueue hstep =>
    have hread := hc.readSocket (hok rfl)
    intro e he
    exact windowActive_handles hsound hs hstep (hread e (hqueue he))
  | drains hs hnone hstep =>
    have hread := hc.readSocket (hok rfl)
    intro e he
    have hne := hnone e he
    exact (hread e he).congr (List.getElem?_set_ne hne.symm) (fun _ hactive => hactive)

/--
In every run in which Xlib only reads events for terminals whose window callbacks are activated or
running, no event is stranded.
-/
theorem noneStranded_of_readsForActive (h : (machine env).Reaches (ReadsForActive env) c)
    : NoneStranded c := by
  have hawaited : Awaited c := by
    induction h with
    | init =>
      intro e he
      cases he
    | step hreach hok hstep ih => exact (steps hstep).awaited (Reaches.sound hreach) hok ih
  intro hidle e he
  exact Or.inl (hawaited e he)

end

namespace Urgent

-- Like `Plain.vt100`, for programs that also ring the bell.
def vt100 : Term.VT100 Unit :=
  {
    Term.Plain.vt100 with
    processString scr buf :=
      ({ scr with audibleBell := scr.audibleBell || buf.contains 0x07, dirty := true }, buf.length)
  }

def env (_ : Nat) : Env Unit := { Term.Plain.env with vt100 := vt100 }

def start : Start :=
  { Term.Plain.start with config := { Term.Plain.start.config with bellIsUrgent := true } }

-- Both terminals get an event before the loop polls.
def twoEvents : List Input :=
  [
    .creates start,
    .creates start,
    .arrives ⟨1, .expose⟩,
    .arrives ⟨0, .expose⟩,
    .polls [],
    .starts 0 (.windowReady 0),
    .checkIfEvent 0 false,
    .checkIfEvent 0 false
  ]

-- The event comes after the loop has polled, and before the callback of the pty runs.
def bell : List Input :=
  [.creates start, .polls [(0, 1)], .arrives ⟨0, .expose⟩, .starts 0 (.ptyReady 1 (some [0x07]))]

end Urgent

theorem noneStranded_of_readsForActive_twoEvents
    : ∃ c, (machine Urgent.env).run (machine Urgent.env).init Urgent.twoEvents = some c
        ∧ c.Idle
        ∧ c.queue.map (·.terminal) = [1]
        ∧ (c.WindowActive 1 ∨ c.socket ≠ []) := by
  let M := machine Urgent.env
  have hok : M.RunOk (ReadsForActive Urgent.env) M.init Urgent.twoEvents := by
    decide +kernel
  have ⟨c, hrun, hidle, hqueue⟩ : ∃ c, M.run M.init Urgent.twoEvents = some c
      ∧ c.Idle ∧ c.queue.map (·.terminal) = [1] :=
    Exec.Machine.exists_run (by decide +kernel)
  have hnone := noneStranded_of_readsForActive (Exec.Machine.Reaches.init.run hok hrun) hidle
  have hmem : 1 ∈ c.queue.map (·.terminal) := by
    rw [hqueue]
    apply List.mem_singleton_self
  have ⟨e, he, hterm⟩ := List.mem_map.mp hmem
  exact ⟨c, hrun, hidle, hqueue, hterm ▸ hnone e he⟩

-- `XGetWMHints` has read the event, and nothing tells the loop about it.
theorem not_noneStranded_bell
    : ∃ c, (machine Urgent.env).Reachable c ∧ c.Idle ∧ c.socket = [] ∧ c.active = []
        ∧ c.queue.map (·.terminal) = [0] ∧ ¬NoneStranded c := by
  let M := machine Urgent.env
  have ⟨c, hrun, hidle, hlength, hactive, hqueue, hnot⟩ : ∃ c, M.run M.init Urgent.bell = some c
      ∧ c.Idle ∧ c.socket.length = 0 ∧ c.active = [] ∧ c.queue.map (·.terminal) = [0]
      ∧ ¬c.WindowActive 0 :=
    Exec.Machine.exists_run (by decide +kernel)
  have hsocket := List.length_eq_zero_iff.mp hlength
  have hreach := Exec.Machine.Reaches.init.run (Exec.Machine.runOk_true _ _) hrun
  refine ⟨c, hreach, hidle, hsocket, hactive, hqueue, ?_⟩
  intro hnone
  have hmem : 0 ∈ c.queue.map (·.terminal) := by
    rw [hqueue]
    apply List.mem_singleton_self
  have ⟨e, he, hterm⟩ := List.mem_map.mp hmem
  rcases hnone hidle e he with hwindow | hreadable
  . exact hnot (hterm ▸ hwindow)
  . exact hreadable hsocket

end Connection
end Xlib
end Runes
