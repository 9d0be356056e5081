import Runes.Daemon.Served

/-!
This module contains what becomes of the clients in the end: how the daemon stops, that the others are
all served after a number of calls that is bounded, and that they wait for the one whose turn it is.
-/

namespace Runes
namespace Daemon

open Protocol Exec

variable {env : Env} {s s' : System}

section Stop

/--
The first client that asks the daemon to stop is the last one that it has an answer for, whatever its
clients do from then on.
-/
theorem stopped_for_good (h : (machine env).Reaches Uninterrupted s) (hphase : s.phase = .returned)
    {inputs : List Input} (hrun : (machine env).run s inputs = some s')
    : (∃ before c, s.served = before ++ [c] ∧ c.answer = .stop ∧ ∀ d ∈ before, d.answer ≠ .stop)
        ∧
      s.log = servedLog s.served
        ∧
      s'.phase = .returned
        ∧
      s'.log = s.log := by
  have hserves := (Reaches.serves h).right
  have hlast : ∃ before c, s.served = before ++ [c] ∧ c.answer = .stop ∧
      ∀ d ∈ before, d.answer ≠ .stop := by
    obtain ⟨c, hc, hstop⟩ := hserves.stops.mp hphase
    have hne : s.served ≠ [] := List.ne_nil_of_mem hc
    have hsplit := List.dropLast_append_getLast hne
    refine ⟨s.served.dropLast, s.served.getLast hne, hsplit.symm, ?_, hserves.stops_last⟩
    rw [← hsplit] at hc
    rcases List.mem_append.mp hc with hc | hc
    . exact absurd hstop (hserves.stops_last c hc)
    . rw [← List.mem_singleton.mp hc]
      exact hstop
  have hlog : s.log = servedLog s.served := by
    have hcurrent : s.current = [] := by
      unfold System.current
      rw [hphase]
    rw [hserves.log_eq, hcurrent, List.append_nil]
  refine ⟨hlast, hlog, ?_⟩
  apply Machine.run_invariant (P := fun t => t.phase = .returned ∧ t.log = s.log) ?_ ⟨hphase, rfl⟩
    (Machine.runOk_true s inputs) hrun
  rintro s₁ i s₂ ⟨hphase, hlog⟩ _ hstep
  cases steps_of_step hstep with
  | connect client halive => exact ⟨hphase, hlog⟩
  | write c hc hopen hmoves => exact ⟨hphase, hlog⟩
  | die c hc hopen => exact ⟨hphase, hlog⟩
  | accept errno hpolling _ =>
    rw [hphase] at hpolling
    cases hpolling
  | read r c call hreading _ _ =>
    rw [hphase] at hreading
    cases hreading

def untilStopped : List Input :=
  [.connect kills, .connect opens, .write 0 (.transfer 4), .accept .other, .read (.transfer 4),
    .write 0 (.transfer 4), .read (.transfer 4)]

theorem stopped_for_good_untilStopped
    : ∃ s s' : System, (machine ones).run s [.write 1 (.transfer 4), .die 1] = some s'
        ∧
      (∃ before c, s.served = before ++ [c] ∧ c.answer = .stop ∧ ∀ d ∈ before, d.answer ≠ .stop)
        ∧
      s.log = servedLog s.served
        ∧
      s'.phase = .returned
        ∧
      s'.log = s.log := by
  obtain ⟨s, hrun, hphase, hsome⟩ : ∃ s,
      (machine ones).run (machine ones).init untilStopped = some s ∧ s.phase = .returned ∧
        ((machine ones).run s [.write 1 (.transfer 4), .die 1]).isSome = true :=
    Machine.exists_run (by decide +kernel)
  obtain ⟨s', hrest⟩ := Option.isSome_iff_exists.mp hsome
  have hreaches : (machine ones).Reaches Uninterrupted s :=
    Machine.Reaches.run .init (by decide +kernel) hrun
  exact ⟨s, s', hrest, stopped_for_good hreaches hphase hrest⟩

end Stop

section Frame

theorem allocated_frame (s : System) (stage : Stage) (read : Read)
    : (s.allocated stage read).conns = s.conns ∧ (s.allocated stage read).accepted = s.accepted ∧
        (s.allocated stage read).log = s.log := by
  unfold System.allocated
  split <;> exact ⟨rfl, rfl, rfl⟩

theorem finish_frame (env : Env) (packet : Option Packet) (s : System)
    : (finish env packet s).conns = s.conns ∧ (finish env packet s).accepted = s.accepted ∧
        ∀ r, (finish env packet s).phase ≠ .reading r := by
  unfold finish
  dsimp only
  split
  . refine ⟨rfl, rfl, ?_⟩
    intro r hr
    dsimp only at hr
    split at hr
    . cases hr
    . cases hr
  . refine ⟨rfl, rfl, ?_⟩
    intro r hr
    cases hr

theorem readCall_frame (env : Env) (r : Reading) (c : Conn) (call : Outcome) (s : System)
    : (readCall env r c call s).conns
          = s.conns.set (s.accepted - 1)
              { c with received := c.received + (c.incoming.length -
                (readStep env.garbage r call ⟨s.errno, c.incoming⟩).2.stream.length) }
        ∧
      (readCall env r c call s).accepted = s.accepted
        ∧
      (∀ r', (readStep env.garbage r call ⟨s.errno, c.incoming⟩).1 = .waits r' →
        (readCall env r c call s).phase = .reading r' ∧ (readCall env r c call s).log = s.log)
        ∧
      ((readStep env.garbage r call ⟨s.errno, c.incoming⟩).1 = .returns none →
        ∀ r', (readCall env r c call s).phase ≠ .reading r') := by
  unfold readCall
  rw [← Prod.mk.eta (p := readStep env.garbage r call ⟨s.errno, c.incoming⟩)]
  dsimp only
  obtain ⟨hconns, haccepted, hlog⟩ := allocated_frame
    { s with
      errno := (readStep env.garbage r call ⟨s.errno, c.incoming⟩).2.errno
      conns := s.conns.set (s.accepted - 1) { c with received := c.received + (c.incoming.length -
        (readStep env.garbage r call ⟨s.errno, c.incoming⟩).2.stream.length) } }
    r.stage (readStep env.garbage r call ⟨s.errno, c.incoming⟩).1
  cases hread : (readStep env.garbage r call ⟨s.errno, c.incoming⟩).1 with
  | waits r' =>
    rw [hread] at hconns haccepted hlog
    refine ⟨hconns, haccepted, ?_, fun heq => by cases heq⟩
    intro r₁ heq
    cases heq
    exact ⟨rfl, hlog⟩
  | returns packet =>
    rw [hread] at hconns haccepted
    dsimp only
    obtain ⟨hconns', haccepted', hphase⟩ := finish_frame env packet _
    exact ⟨hconns'.trans hconns, haccepted'.trans haccepted, fun _ heq => (by cases heq), fun _ => hphase⟩

end Frame

section Stall

/-- The client that the daemon has accepted last has not come to the end of what it has to send. -/
structure Stalled (s : System) (c : Conn) : Prop where
  reading : ∃ r, s.phase = .reading r
  conn : s.conns[s.accepted - 1]? = some c
  stillOpen : c.writer ≠ .closed

/-- An input of the client that the daemon has accepted last. -/
def Input.ofCurrent (s : System) (i : Input) : Prop :=
  match i with
  | .write conn _ => conn = s.accepted - 1
  | .die conn => conn = s.accepted - 1
  | _ => False

instance (s : System) (i : Input) : Decidable (i.ofCurrent s) :=
  match i with
  | .connect _ => isFalse id
  | .write conn _ => inferInstanceAs (Decidable (conn = s.accepted - 1))
  | .die conn => inferInstanceAs (Decidable (conn = s.accepted - 1))
  | .accept _ => isFalse id
  | .read _ => isFalse id

/-- The daemon goes on to read, as what it has got is not all of a packet. -/
theorem Stalled.read {c : Conn} (h : Stalled s c) (hsound : Sound s) {r : Reading}
    (hphase : s.phase = .reading r) {k : Nat} (hreadable : c.readable = true) (hk : 0 < k)
    : ∃ n, Stalled (readCall env r c (.transfer k) s) { c with received := n }
        ∧ (readCall env r c (.transfer k) s).accepted = s.accepted
        ∧ (readCall env r c (.transfer k) s).log = s.log := by
  have hlt : s.accepted - 1 < s.conns.length := (List.getElem?_eq_some_iff.mp h.conn).choose
  obtain ⟨_, _, htook⟩ := hsound.reading r hphase
  have hmore : c.incoming ≠ [] := by
    unfold Conn.readable at hreadable
    rw [decide_eq_true_eq] at hreadable
    rcases hreadable with hmore | hclosed
    . exact hmore
    . exact absurd hclosed h.stillOpen
  obtain ⟨m, _, htaken, hsock, hsound', hread⟩ :=
    (hsound.conns c (List.mem_of_getElem? h.conn)).readStep (htook c h.conn) env.garbage hk s.errno hmore
  obtain ⟨hconns, haccepted, hwaits, _⟩ := readCall_frame env r c (.transfer k) s
  obtain ⟨r', hr'⟩ : ∃ r', (readStep env.garbage r (.transfer k) ⟨s.errno, c.incoming⟩).1 = .waits r' := by
    cases hresult : (readStep env.garbage r (.transfer k) ⟨s.errno, c.incoming⟩).1 with
    | waits r' => exact ⟨r', rfl⟩
    | returns packet =>
      rw [hresult] at hread
      obtain ⟨_, _, _, _, hcomplete⟩ := hsound'.complete_of_returns hread
      exact absurd (hsound'.closed_of_complete hcomplete) h.stillOpen
  obtain ⟨hphase', hlog⟩ := hwaits r' hr'
  rw [hsock] at hconns
  dsimp only at hconns
  rw [htaken] at hconns
  refine ⟨c.received + m, ⟨⟨r', hphase'⟩, ?_, h.stillOpen⟩, haccepted, hlog⟩
  rw [hconns, haccepted]
  exact List.getElem?_set_self hlt

theorem Stalled.step {c : Conn} (h : Stalled s c) (hsound : Sound s) {i : Input}
    (hok : Uninterrupted s i) (hother : ¬i.ofCurrent s) (hstep : (machine env).step s i = some s')
    : ∃ n, Stalled s' { c with received := n } ∧ s'.accepted = s.accepted ∧ s'.log = s.log := by
  have hlt : s.accepted - 1 < s.conns.length := (List.getElem?_eq_some_iff.mp h.conn).choose
  cases steps_of_step hstep with
  | connect client _ =>
    refine ⟨c.received, ⟨h.reading, ?_, h.stillOpen⟩, rfl, rfl⟩
    exact (List.getElem?_append_left hlt).trans h.conn
  | write c₁ hc hopen hmoves =>
    refine ⟨c.received, ⟨h.reading, ?_, h.stillOpen⟩, rfl, rfl⟩
    exact (List.getElem?_set_ne hother).trans h.conn
  | die c₁ hc hopen =>
    refine ⟨c.received, ⟨h.reading, ?_, h.stillOpen⟩, rfl, rfl⟩
    exact (List.getElem?_set_ne hother).trans h.conn
  | accept errno hpolling _ =>
    obtain ⟨r, hreading⟩ := h.reading
    rw [hreading] at hpolling
    cases hpolling
  | read r c₁ call hphase hc hreturns =>
    cases h.conn.symm.trans hc
    cases call with
    | transfer k =>
      obtain ⟨hreadable, hk⟩ := of_decide_eq_true hreturns
      exact h.read hsound hphase hreadable hk
    | fail errno => exact absurd hok id

/--
As long as the client whose turn it is stops in the middle of its packet, and is not killed, no other
client is accepted or answered.
-/
theorem stalled_for_all (h : (machine env).Reaches Uninterrupted s) {c : Conn} (hstalled : Stalled s c)
    {inputs : List Input}
    (hothers : (machine env).RunOk (fun s i => Uninterrupted s i ∧ ¬i.ofCurrent s) s inputs)
    (hrun : (machine env).run s inputs = some s')
    : ∃ n, Stalled s' { c with received := n } ∧ s'.accepted = s.accepted ∧ s'.log = s.log := by
  have hstart := Reaches.serves h
  refine (Machine.run_invariant
    (P := fun t => (Sound t ∧ Serves t) ∧
      ∃ n, Stalled t { c with received := n } ∧ t.accepted = s.accepted ∧ t.log = s.log)
    ?_ ⟨hstart, c.received, hstalled, rfl, rfl⟩ hothers hrun).right
  rintro s₁ i s₂ ⟨⟨hsound, hserves⟩, n, hstalled, haccepted, hlog⟩ ⟨hok, hother⟩ hstep
  obtain ⟨n', hstalled', haccepted', hlog'⟩ := hstalled.step hsound hok hother hstep
  exact ⟨step_serves hsound hserves hok hstep, n', hstalled', haccepted'.trans haccepted,
    hlog'.trans hlog⟩

-- The client has sent its length, and the daemon reads it while others come.
def untilStalled : List Input :=
  [.connect opens, .accept .other, .write 0 (.transfer 4)]

def others : List Input :=
  [.connect kills, .read (.transfer 3), .write 1 (.transfer 4), .read (.transfer 4), .write 1 (.transfer 4)]

theorem stalled_for_all_one
    : ∃ s s' : System, ∃ c : Conn, (machine ones).run s others = some s' ∧
        ∃ n, Stalled s' { c with received := n } ∧ s'.accepted = s.accepted ∧ s'.log = s.log := by
  obtain ⟨s, hrun, hphase, hopen, hsome⟩ : ∃ s,
      (machine ones).run (machine ones).init untilStalled = some s ∧
        s.phase = .reading (startReading ones.garbage) ∧
        s.conns[s.accepted - 1]?.any (fun c => c.writer ≠ .closed) = true ∧
        ((machine ones).run s others).isSome = true :=
    Machine.exists_run (by decide +kernel)
  obtain ⟨c, hconn, hopen⟩ := (Option.any_eq_true _ _).mp hopen
  obtain ⟨s', hrest⟩ := Option.isSome_iff_exists.mp hsome
  have hreaches : (machine ones).Reaches Uninterrupted s :=
    Machine.Reaches.run .init (by decide +kernel) hrun
  refine ⟨s, s', c, hrest, stalled_for_all hreaches ⟨⟨_, hphase⟩, hconn, of_decide_eq_true hopen⟩ ?_ hrest⟩
  cases hrun
  decide +kernel

end Stall

section Work

/-- What the daemon does about a client that is not killed. -/
def Client.asks (c : Client) : Answer :=
  if c.wire = [] then
    .invalidPacket
  else if c.kills then
    .stop
  else
    .newTerm c.message

/-- A call that is answered for the daemon or for one of the clients that are there. -/
def Serving (_ : System) (i : Input) : Prop :=
  match i with
  | .write _ (.transfer _) => True
  | .accept errno => errno ≠ .eintr
  | .read (.transfer _) => True
  | _ => False

instance (s : System) (i : Input) : Decidable (Serving s i) :=
  match i with
  | .connect _ => isFalse id
  | .write _ (.transfer _) => isTrue trivial
  | .write _ (.fail _) => isFalse id
  | .die _ => isFalse id
  | .accept errno => inferInstanceAs (Decidable (errno ≠ .eintr))
  | .read (.transfer _) => isTrue trivial
  | .read (.fail _) => isFalse id

/-- The client has not been killed: when it closes the connection it has sent all of its packet. -/
def Conn.Delivers (c : Conn) : Prop := c.writer = .closed → c.sock.stream = c.client.wire

-- A byte is written and then read.
def Conn.work (c : Conn) : Nat :=
  2 * (c.client.wire.length - c.sock.stream.length) + (c.sock.stream.length - c.received)

/-- A bound for the number of calls that are left until everything is done. -/
def System.work (s : System) : Nat :=
  (s.conns.map Conn.work).sum + 2 * (s.conns.length - s.accepted)
    + match s.phase with
      | .reading _ => 1
      | _ => 0

structure Keeps (s s' : System) : Prop where
  length_eq : s'.conns.length = s.conns.length
  conn : ∀ (i : Nat) (c : Conn), s.conns[i]? = some c →
    ∃ c' : Conn, s'.conns[i]? = some c' ∧ c'.client = c.client ∧ (c.Delivers → c'.Delivers)

theorem uninterrupted_of_serving {i : Input} (h : Serving s i) : Uninterrupted s i := by
  cases i with
  | connect client => exact absurd h id
  | write i call =>
    cases call with
    | transfer k => exact fun heq => by cases heq
    | fail errno => exact absurd h id
  | die i => exact absurd h id
  | accept errno => exact h
  | read call =>
    cases call with
    | transfer k => trivial
    | fail errno => exact absurd h id

theorem Keeps.refl (s : System) : Keeps s s := ⟨rfl, fun _ c hc => ⟨c, hc, rfl, id⟩⟩

theorem Keeps.trans {s₁ : System} (h : Keeps s s₁) (h' : Keeps s₁ s') : Keeps s s' where
  length_eq := h'.length_eq.trans h.length_eq
  conn i c hc := by
    obtain ⟨c₁, hc₁, hclient₁, hdelivers₁⟩ := h.conn i c hc
    obtain ⟨c', hc', hclient', hdelivers'⟩ := h'.conn i c₁ hc₁
    exact ⟨c', hc', hclient'.trans hclient₁, fun hc => hdelivers' (hdelivers₁ hc)⟩

theorem keeps_set {i : Nat} {c : Conn} (hc : s.conns[i]? = some c) (c' : Conn)
    (hclient : c'.client = c.client) (hdelivers : c.Delivers → c'.Delivers)
    (hconns : s'.conns = s.conns.set i c')
    : Keeps s s' where
  length_eq := by rw [hconns, List.length_set]
  conn j d hd := by
    rw [hconns]
    by_cases heq : i = j
    . subst heq
      cases hc.symm.trans hd
      have hlt := (List.getElem?_eq_some_iff.mp hc).choose
      exact ⟨c', List.getElem?_set_self hlt, hclient, hdelivers⟩
    . exact ⟨d, (List.getElem?_set_ne heq).trans hd, rfl, id⟩

theorem sum_map_set {conns : List Conn} {i : Nat} {c : Conn} (hc : conns[i]? = some c) (c' : Conn)
    : ((conns.set i c').map Conn.work).sum + c.work = (conns.map Conn.work).sum + c'.work := by
  induction conns generalizing i with
  | nil => cases hc
  | cons d conns ih =>
    cases i with
    | zero =>
      cases hc
      simp only [List.set_cons_zero, List.map_cons, List.sum_cons]
      omega
    | succ i =>
      have := ih (i := i) hc
      simp only [List.set_cons_succ, List.map_cons, List.sum_cons]
      omega

theorem Conn.Sound.wrote {c : Conn} (h : c.Sound) (hopen : c.writer ≠ .closed) {k : Nat}
    (hmoves : Outcome.moves (.transfer k) = true)
    : (c.wrote (.transfer k)).work < c.work ∧ (c.wrote (.transfer k)).Delivers := by
  obtain ⟨hmore, hend⟩ := h.sends.writeStep_transfer hopen (of_decide_eq_true hmoves)
  refine ⟨?_, hend⟩
  have hle : (c.wrote (.transfer k)).sock.stream.length ≤ c.client.wire.length :=
    (h.sends.writeStep (by simp) hmoves).left.isPrefix.length_le
  have hmore : c.sock.stream.length < (c.wrote (.transfer k)).sock.stream.length := hmore
  have hreceived := h.received_le
  unfold Conn.work
  change 2 * (c.client.wire.length - _) + (_ - c.received) < _
  omega

theorem Conn.work_received (c : Conn) {n : Nat} (hn : n ≤ c.incoming.length)
    : Conn.work { c with received := c.received + n } + n = c.work := by
  have hlen : c.incoming.length = c.sock.stream.length - c.received := List.length_drop
  unfold Conn.work
  dsimp only
  omega

/-- A read takes something from the stream, or it is the last one for this client. -/
theorem readCall_work (h : Sound s) {r : Reading} {c : Conn} (hphase : s.phase = .reading r)
    (hc : s.conns[s.accepted - 1]? = some c) {k : Nat} (hk : 0 < k)
    : (readCall env r c (.transfer k) s).work < s.work ∧ Keeps s (readCall env r c (.transfer k) s) := by
  obtain ⟨herrno, _, htook⟩ := h.reading r hphase
  have hsound := h.conns c (List.mem_of_getElem? hc)
  obtain ⟨hconns, haccepted, _, hnone⟩ := readCall_frame env r c (.transfer k) s
  have hsum := sum_map_set hc { c with received := c.received + (c.incoming.length -
    (readStep env.garbage r (.transfer k) ⟨s.errno, c.incoming⟩).2.stream.length) }
  refine ⟨?_, keeps_set hc { c with received := c.received + (c.incoming.length -
    (readStep env.garbage r (.transfer k) ⟨s.errno, c.incoming⟩).2.stream.length) }
    rfl id hconns⟩
  unfold System.work
  rw [hconns, haccepted, List.length_set, hphase]
  dsimp only
  by_cases hmore : c.incoming = []
  case neg =>
    obtain ⟨m, hpos, htaken, hsock, _⟩ := hsound.readStep (htook c hc) env.garbage hk s.errno hmore
    rw [hsock] at hsum ⊢
    dsimp only at hsum ⊢
    rw [htaken] at hsum ⊢
    have hwork := c.work_received (n := m) (by omega)
    split <;> omega
  case pos =>
    have hread := readStep_nil env.garbage r k ⟨s.errno, c.incoming⟩ hmore herrno
    rw [hread] at hnone hsum ⊢
    have hidle := hnone rfl
    dsimp only at hsum ⊢
    rw [Nat.sub_self] at hsum ⊢
    have hwork := c.work_received (Nat.zero_le _)
    split
    . next r' hr' => exact absurd hr' (hidle r')
    . omega

/-- Every call that is answered brings the end nearer, and no client loses what it has sent. -/
theorem serving_step {i : Input} (h : Sound s) (hok : Serving s i)
    (hstep : (machine env).step s i = some s')
    : s'.work < s.work ∧ Keeps s s' := by
  cases steps_of_step hstep with
  | connect client _ => exact absurd hok id
  | @write i c call hc hopen hmoves =>
    cases call with
    | fail errno => exact absurd hok id
    | transfer k =>
      obtain ⟨hwork, hend⟩ := (h.conns c (List.mem_of_getElem? hc)).wrote hopen hmoves
      refine ⟨?_, keeps_set hc (c.wrote (.transfer k)) rfl (fun _ => hend) rfl⟩
      have hsum := sum_map_set hc (c.wrote (.transfer k))
      unfold System.work
      dsimp only
      rw [List.length_set]
      omega
  | die c hc hopen => exact absurd hok id
  | accept errno hphase hlt =>
    refine ⟨?_, rfl, fun i c hc => ⟨c, hc, rfl, id⟩⟩
    unfold System.work
    rw [hphase]
    change (s.conns.map Conn.work).sum + 2 * (s.conns.length - (s.accepted + 1)) + 1 < _
    dsimp only
    omega
  | read r c call hphase hc hreturns =>
    cases call with
    | fail errno => exact absurd hok id
    | transfer k => exact readCall_work h hphase hc (of_decide_eq_true hreturns).right

theorem exists_serving (h : Sound s) (hs : Serves s)
    (hstuck : ∀ i, Serving s i → (machine env).step s i = none)
    : s.phase = .returned ∨ (s.phase = .polling ∧ s.accepted = s.conns.length) := by
  cases hphase : s.phase with
  | polling =>
    right
    refine ⟨rfl, ?_⟩
    have hle := h.accepted_le
    by_contra hne
    have hnone := hstuck (.accept .other) (fun heq => by cases heq)
    change (if _ then _ else _) = none at hnone
    rw [if_pos ⟨hphase, by omega⟩] at hnone
    cases hnone
  | reading r =>
    obtain ⟨_, hpos, _⟩ := h.reading r hphase
    have hle := h.accepted_le
    obtain ⟨c, hc⟩ : ∃ c, s.conns[s.accepted - 1]? = some c :=
      ⟨_, List.getElem?_eq_getElem (by omega)⟩
    by_cases hreadable : c.readable = true
    . have hnone := hstuck (.read (.transfer 1)) trivial
      change step env s (.read (.transfer 1)) = none at hnone
      dsimp only [step] at hnone
      rw [hphase, hc] at hnone
      dsimp only at hnone
      have hreturns : c.returns (.transfer 1) = true := decide_eq_true ⟨hreadable, Nat.one_pos⟩
      rw [if_pos hreturns] at hnone
      cases hnone
    . have hopen : c.writer ≠ .closed := by
        intro hclosed
        exact hreadable (decide_eq_true (.inr hclosed))
      have hnone := hstuck (.write (s.accepted - 1) (.transfer 1)) trivial
      change step env s (.write (s.accepted - 1) (.transfer 1)) = none at hnone
      dsimp only [step] at hnone
      rw [hc] at hnone
      dsimp only at hnone
      rw [if_pos ⟨hopen, rfl⟩] at hnone
      cases hnone
  | returned => exact .inl rfl
  | crashed => exact absurd hphase hs.alive

theorem Conn.answer_of_delivers {c : Conn} (h : c.Delivers) (hclosed : c.writer = .closed)
    : c.answer = c.client.asks := by
  have hstream := h hclosed
  unfold answer complete Client.asks
  by_cases hnil : c.client.wire = []
  . rw [if_pos hnil, if_neg (by simp [hnil])]
  . rw [if_neg hnil, if_pos (by simp [hnil, hstream])]

theorem Conn.events_infix_log (hs : Serves s) {i : Nat} {c : Conn} (hc : s.conns[i]? = some c)
    (hi : i < s.handled)
    : c.events i <:+: s.log := by
  have hserved : s.served[i]? = some c := by
    rw [System.served, List.getElem?_take_of_lt hi, hc]
  have hmem : (c, i) ∈ s.served.zipIdx := List.mem_iff_getElem?.mpr ⟨i, by simp [hserved]⟩
  rw [hs.log_eq]
  apply List.IsInfix.trans _ (List.prefix_append _ _).isInfix
  exact List.infix_of_mem_flatten (List.mem_map.mpr ⟨(c, i), hmem, rfl⟩)

/--
In whatever order the calls are answered, there are only so many of them until the daemon has stopped or
has served all that have connected. The clients that are not killed get what they ask for.
-/
theorem all_served (h : (machine env).Reaches Uninterrupted s) {inputs : List Input}
    (hok : (machine env).RunOk Serving s inputs) (hrun : (machine env).run s inputs = some s')
    : inputs.length ≤ s.work
        ∧
      ((∀ i, Serving s' i → (machine env).step s' i = none) →
        s'.phase = .returned ∨ (s'.phase = .polling ∧ s'.handled = s.conns.length))
        ∧
      ∀ i c, s.conns[i]? = some c → c.Delivers → i < s'.handled →
        [.accept i, .answer c.client.asks, .close i] <:+: s'.log := by
  have hserving : ∀ s₁ i s₂, Sound s₁ ∧ Serves s₁ → Serving s₁ i →
      (machine env).step s₁ i = some s₂ → (Sound s₂ ∧ Serves s₂) ∧ s₂.work < s₁.work ∧ Keeps s₁ s₂ := by
    rintro s₁ i s₂ ⟨hsound, hserves⟩ hok hstep
    exact ⟨step_serves hsound hserves (uninterrupted_of_serving hok) hstep,
      serving_step hsound hok hstep⟩
  have hstart : Sound s ∧ Serves s := Reaches.serves h
  have hbound : inputs.length + s'.work ≤ s.work := by
    refine Machine.run_length_le (P := fun t => Sound t ∧ Serves t) ?_ hstart hok hrun
    intro s₁ i s₂ hs hok hstep
    obtain ⟨hs', hless, _⟩ := hserving s₁ i s₂ hs hok hstep
    exact ⟨hs', hless⟩
  obtain ⟨⟨hsound', hserves'⟩, hkeeps⟩ : (Sound s' ∧ Serves s') ∧ Keeps s s' := by
    refine Machine.run_invariant (P := fun t => (Sound t ∧ Serves t) ∧ Keeps s t) ?_
      ⟨hstart, Keeps.refl s⟩ hok hrun
    rintro s₁ i s₂ ⟨hs, hkeeps⟩ hok hstep
    obtain ⟨hs', _, hkeeps'⟩ := hserving s₁ i s₂ hs hok hstep
    exact ⟨hs', hkeeps.trans hkeeps'⟩
  refine ⟨by omega, ?_, ?_⟩
  . intro hstuck
    rw [← hkeeps.length_eq]
    rcases exists_serving hsound' hserves' hstuck with hreturned | ⟨hpolling, hall⟩
    . exact .inl hreturned
    . right
      refine ⟨hpolling, ?_⟩
      unfold System.handled
      rw [hpolling]
      exact hall
  . intro i c hc hdelivers hi
    obtain ⟨c', hc', hclient, hdelivers'⟩ := hkeeps.conn i c hc
    have hclosed : c'.writer = .closed := by
      apply hsound'.closed c'
      exact List.mem_of_getElem? (i := i) (by rw [System.served, List.getElem?_take_of_lt hi, hc'])
    rw [← hclient, ← Conn.answer_of_delivers (hdelivers' hdelivers) hclosed]
    exact Conn.events_infix_log hserves' hc' hi

-- When the daemon is done and so are the clients.
theorem step_eq_none (hphase : s.phase = .returned) (hclosed : ∀ c ∈ s.conns, c.writer = .closed)
    {i : Input} (hserving : Serving s i)
    : (machine env).step s i = none := by
  cases hstep : (machine env).step s i with
  | none => rfl
  | some s' =>
    cases steps_of_step hstep with
    | connect client _ => exact absurd hserving id
    | write c hc hopen _ => exact absurd (hclosed c (List.mem_of_getElem? hc)) hopen
    | die c hc hopen => exact absurd hserving id
    | accept errno hpolling _ =>
      rw [hphase] at hpolling
      cases hpolling
    | read r c call hreading _ _ =>
      rw [hphase] at hreading
      cases hreading

def untilServed : List Input :=
  [.accept .other, .write 0 (.transfer 4), .read (.transfer 4), .write 1 (.transfer 4),
    .write 0 (.transfer 4), .read (.transfer 4), .write 0 (.transfer 64), .read (.transfer 64),
    .accept .other, .read (.transfer 4), .write 1 (.transfer 4), .read (.transfer 4)]

theorem all_served_two
    : ∃ s s' : System, (machine ones).run s untilServed = some s'
        ∧
      untilServed.length ≤ s.work
        ∧
      (s'.phase = .returned ∨ (s'.phase = .polling ∧ s'.handled = s.conns.length))
        ∧
      [.accept 0, .answer (.newTerm opens.message), .close 0] <:+: s'.log
        ∧
      [.accept 1, .answer .stop, .close 1] <:+: s'.log := by
  obtain ⟨s, hrun, hsome⟩ : ∃ s,
      (machine ones).run (machine ones).init [.connect opens, .connect kills] = some s ∧
        ((machine ones).run s untilServed).map (fun s' => decide (s'.phase = .returned ∧
          (∀ c ∈ s'.conns, c.writer = .closed) ∧ s'.handled = 2)) = some true :=
    Machine.exists_run (by decide +kernel)
  obtain ⟨s', hrest, hphase, hclosed, hhandled⟩ := Machine.exists_run hsome
  have hreaches : (machine ones).Reaches Uninterrupted s :=
    Machine.Reaches.run .init (by decide +kernel) hrun
  cases hrun
  obtain ⟨hbound, hstuck, hlog⟩ := all_served hreaches (by decide +kernel) hrest
  refine ⟨_, s', hrest, hbound, hstuck fun i hi => step_eq_none hphase hclosed hi, ?_, ?_⟩
  . exact hlog 0 _ rfl (by intro h; cases h) (by omega)
  . exact hlog 1 _ rfl (by intro h; cases h) (by omega)

end Work

end Daemon
end Runes
