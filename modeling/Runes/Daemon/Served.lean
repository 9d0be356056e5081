import Runes.Daemon.Wire
import Runes.Protocol.Ownership
import Runes.Protocol.RoundTrip

/-!
This module contains the proof that the daemon serves its clients in the order in which they have
connected, each one once and with what the client has asked for, in every interleaving of their calls.
-/

namespace Runes
namespace Daemon

open Protocol Wire Exec Libc

def Conn.complete (c : Conn) : Bool := c.client.wire ≠ [] ∧ c.sock.stream = c.client.wire

/--
The answer to what the client has sent: its own message or its own request to stop, if it got to the end
of it.
-/
def Conn.answer (c : Conn) : Answer :=
  if c.complete then
    if c.client.kills then .stop else .newTerm c.client.message
  else
    .invalidPacket

def Conn.events (c : Conn) (conn : Nat) : List Event := [.accept conn, .answer c.answer, .close conn]

def servedLog (conns : List Conn) : List Event :=
  conns.zipIdx.flatMap (fun (c, conn) => c.events conn)

/-- The number of the connections that are done with, which are the first ones. -/
def System.handled (s : System) : Nat :=
  match s.phase with
  | .reading _ => s.accepted - 1
  | _ => s.accepted

def System.served (s : System) : List Conn := s.conns.take s.handled

def System.current (s : System) : List Event :=
  match s.phase with
  | .reading _ => [.accept s.handled]
  | _ => []

/-- No call is interrupted, and those of the daemon do not fail. -/
def Uninterrupted (_ : System) (i : Input) : Prop :=
  match i with
  | .write _ call => call ≠ .fail .eintr
  | .accept errno => errno ≠ .eintr
  | .read (.fail _) => False
  | _ => True

instance (s : System) (i : Input) : Decidable (Uninterrupted s i) :=
  match i with
  | .connect _ => isTrue trivial
  | .write _ call => inferInstanceAs (Decidable (call ≠ .fail .eintr))
  | .die _ => isTrue trivial
  | .accept errno => inferInstanceAs (Decidable (errno ≠ .eintr))
  | .read (.transfer _) => isTrue trivial
  | .read (.fail _) => isFalse id

def Stage.block (stage : Stage) : Option Nat :=
  match stage with
  | .payload n _ => some n.toNat
  | _ => none

/-- The size of the payload, while it is read. -/
def System.payload (s : System) : Option Nat :=
  match s.phase with
  | .reading r => r.stage.block
  | _ => none

/-- The block `buf` for a payload of `size` bytes is all that is allocated. -/
structure Owns (buf size : Option Nat) (heap : Heap Origin) : Prop where
  same : buf.isSome = size.isSome
  badFrees : heap.badFrees = []
  live : ∀ addr, heap.live addr = if buf = some addr then size else none

structure Conn.Sound (c : Conn) : Prop where
  sends : Sends c.client.wire c.writer c.sock.stream
  received_le : c.received ≤ c.sock.stream.length

structure Sound (s : System) : Prop where
  conns : ∀ c ∈ s.conns, c.Sound
  waiting : ∀ i c, s.conns[i]? = some c → s.accepted ≤ i → c.received = 0
  closed : ∀ c ∈ s.served, c.writer = .closed
  accepted_le : s.accepted ≤ s.conns.length
  reading : ∀ r, s.phase = .reading r → s.errno ≠ .eintr ∧ 0 < s.accepted ∧
    ∀ c, s.conns[s.accepted - 1]? = some c → r.Took (c.sock.stream.take c.received)

/--
The daemon has served the first connections, one after another, and none behind the first one that asks
it to stop. What it has allocated for their packets is freed, and nothing else.
-/
structure Serves (s : System) : Prop where
  log_eq : s.log = servedLog s.served ++ s.current
  stops : s.phase = .returned ↔ ∃ c ∈ s.served, c.answer = .stop
  stops_last : ∀ c ∈ s.served.dropLast, c.answer ≠ .stop
  alive : s.phase ≠ .crashed
  owns : Owns s.buf s.payload s.load.heap

section Blocks

variable {s : System} {buf size : Option Nat} {heap heap' : Heap Origin}

theorem Owns.malloc (h : Owns none none heap) (size : Nat)
    : Owns (some heap.next) (some size) (heap.malloc size) where
  same := rfl
  badFrees := h.badFrees
  live addr := by
    rw [Heap.malloc_live, h.live]
    by_cases heq : addr = heap.next
    . rw [if_pos heq, if_pos (congrArg some heq.symm)]
    . rw [if_neg heq, if_neg (fun hsome => heq (Option.some.inj hsome).symm)]
      exact ite_self none

theorem Owns.congr (h : Owns buf size heap) (hbad : heap'.badFrees = heap.badFrees)
    (hlive : heap'.live = heap.live)
    : Owns buf size heap' where
  same := h.same
  badFrees := hbad.trans h.badFrees
  live addr := by rw [hlive, h.live]

theorem Owns.freeBuf {load : LoadState} (h : Owns buf size load.heap)
    : Owns none none (freeBuf buf load).heap := by
  cases buf with
  | none =>
    cases size with
    | none => exact h
    | some n => cases h.same
  | some addr =>
    obtain ⟨n, rfl⟩ := Option.isSome_iff_exists.mp h.same.symm
    have hlive : load.heap.live addr = some n := by rw [h.live, if_pos rfl]
    refine ⟨rfl, (Heap.free_block_badFrees hlive).trans h.badFrees, ?_⟩
    intro a
    change (load.heap.free (.block addr)).live a = _
    rw [Heap.free_block_live hlive, h.live]
    by_cases heq : a = addr
    . rw [if_pos heq]
      exact (ite_self none).symm
    . rw [if_neg heq, if_neg (fun hsome => heq (Option.some.inj hsome).symm)]
      exact (ite_self none).symm

theorem Owns.buf_eq_none (h : Owns buf none heap) : buf = none := by
  cases buf with
  | none => rfl
  | some addr => cases h.same

-- The block for the payload is allocated when the stage of its length is left.
theorem readStep_stage {garbage : Garbage} {r r' : Reading} {call : Outcome} {sock : Sock}
    (h : (readStep garbage r call sock).1 = .waits r')
    : r'.stage.block = r.stage.block ∧ allocates r.stage (.waits r') = none
        ∨ r.stage.block = none ∧ allocates r.stage (.waits r') = r'.stage.block := by
  unfold readStep at h
  dsimp only at h
  split at h
  . cases h
    left
    refine ⟨rfl, ?_⟩
    cases r.stage <;> rfl
  . unfold leave at h
    split at h
    . next hstage =>
      cases h
      rw [hstage]
      exact .inl ⟨rfl, rfl⟩
    . next len hstage =>
      rw [hstage]
      dsimp only at h
      split at h
      . cases h
      . split at h
        . cases h
          exact .inr ⟨rfl, rfl⟩
        . cases h
    . cases h
  . cases h

theorem allocated_waits {garbage : Garbage} {r r' : Reading} {call : Outcome} {sock : Sock}
    (hread : (readStep garbage r call sock).1 = .waits r') (h : Owns s.buf r.stage.block s.load.heap)
    : ∃ load buf, s.allocated r.stage (.waits r') = { s with load, buf }
        ∧ Owns buf r'.stage.block load.heap := by
  unfold System.allocated
  rcases readStep_stage hread with ⟨hpayload, hnone⟩ | ⟨hpayload, halloc⟩
  . rw [hnone, hpayload]
    exact ⟨s.load, s.buf, rfl, h⟩
  . rw [halloc]
    rw [hpayload] at h
    cases r'.stage.block with
    | none => exact ⟨s.load, s.buf, rfl, h⟩
    | some size =>
      rw [h.buf_eq_none] at h
      exact ⟨_, _, rfl, h.malloc size⟩

theorem allocated_returns {stage : Stage} (packet : Option Packet) (h : Owns s.buf stage.block s.load.heap)
    : ∃ load buf size, s.allocated stage (.returns packet) = { s with load, buf }
        ∧ Owns buf size load.heap := by
  unfold System.allocated allocates
  split
  . next size hsize =>
    split at hsize
    . next heq => cases heq
    . rw [h.buf_eq_none] at h
      exact ⟨_, _, _, rfl, h.malloc size⟩
    . cases hsize
  . exact ⟨s.load, s.buf, _, rfl, h⟩

end Blocks

section Answer

variable {c : Conn}

theorem Conn.Sound.closed_of_complete (h : c.Sound) (hcomplete : c.complete = true)
    : c.writer = .closed := by
  unfold complete at hcomplete
  rw [decide_eq_true_eq] at hcomplete
  apply h.sends.closed_of_eq hcomplete.right

theorem Conn.Sound.readStep (h : c.Sound) {r : Reading} (htook : r.Took (c.sock.stream.take c.received))
    (garbage : Garbage) {k : Nat} (hk : 0 < k) (errno : Errno) (hmore : c.incoming ≠ [])
    : ∃ m, 0 < m ∧ c.incoming.length - (c.incoming.drop m).length = m ∧
        (Daemon.readStep garbage r (.transfer k) ⟨errno, c.incoming⟩).2 = ⟨errno, c.incoming.drop m⟩ ∧
        Conn.Sound { c with received := c.received + m } ∧
        (Daemon.readStep garbage r (.transfer k) ⟨errno, c.incoming⟩).1.Took
          (c.sock.stream.take (c.received + m)) := by
  obtain ⟨m, hpos, hm, hsock, hread⟩ := htook.readStep garbage hk ⟨errno, c.incoming⟩ hmore
  dsimp only at hm hsock hread
  have hfront : c.sock.stream.take c.received ++ c.incoming.take m
      = c.sock.stream.take (c.received + m) := by
    unfold Conn.incoming
    rw [← List.take_add]
  rw [hfront] at hread
  refine ⟨m, hpos, ?_, hsock, ⟨h.sends, ?_⟩, hread⟩
  . rw [List.length_drop]
    omega
  . unfold Conn.incoming at hm
    rw [List.length_drop] at hm
    dsimp only
    have := h.received_le
    omega

/-- When the packet is there, this is all that the client has to send. -/
theorem Conn.Sound.complete_of_returns (h : c.Sound) {packet : Option Packet}
    (hread : (Read.returns packet).Took (c.sock.stream.take c.received))
    : ∃ p, packet = some p ∧ c.client.packet = some p ∧ p.sendable = true ∧ c.complete = true := by
  have hprefix := h.sends.isPrefix
  obtain ⟨p, rfl, hp, hsendable, hencode⟩ :=
    hread.eq_packet (List.IsPrefix.trans (List.take_prefix _ _) hprefix)
  have hwire : c.client.wire = p.encode := by
    unfold Client.wire
    rw [hp]
    exact if_pos hsendable
  have hstream : c.sock.stream = c.client.wire := by
    apply hprefix.eq_of_length_le
    rw [hwire, ← hencode]
    exact (List.take_prefix _ _).length_le
  have hne : c.client.wire ≠ [] := by
    rw [hwire]
    exact List.cons_ne_nil _ _
  exact ⟨p, rfl, hp, hsendable, decide_eq_true ⟨hne, hstream⟩⟩

theorem handle_message {c : Client} {buf : List UInt8} (hcreate : createNewTermMessage c.message = some buf)
    (hsize : buf.length ≤ maxPacketSize) (behind : List UInt8) (load : LoadState)
    : ∃ msg load', (handleNewTermMessage (buf ++ behind) buf.length).run load = .ok (some msg) load'
        ∧ msg.view = c.message ∧ load'.heap.badFrees = load.heap.badFrees
        ∧ load'.heap.live = load.heap.live := by
  obtain ⟨m, _, hview, rfl⟩ := exists_wire_of_create hcreate
  have hlt : (m.encode ++ []).length < 2 ^ 64 := by
    unfold maxPacketSize at hsize
    rw [List.append_nil]
    omega
  obtain ⟨msg, load', hreturns, hloaded, halloc, _⟩ :=
    returns_parseNewTermMessage m (.start (m.encode ++ []) behind) hlt load
  have hfreed := halloc.freeAll_eq msg.addrs_perm_freed
  have hrun := run_handle_some hloaded hreturns.run_eq
  rw [List.append_nil] at hrun
  exact ⟨msg, _, hrun, by rw [hloaded.view, hview], hfreed.left, hfreed.right⟩

/-- The packet of a client is answered with what the client has asked for. -/
theorem answerPacket_complete (h : c.complete = true) {p : Packet}
    (hp : c.client.packet = some p) (hsendable : p.sendable = true) (behind : List UInt8)
    (load : LoadState)
    : ∃ load', answerPacket behind (some p) load = .ok (c.answer, load') ∧
        load'.heap.badFrees = load.heap.badFrees ∧ load'.heap.live = load.heap.live := by
  unfold Conn.answer
  rw [if_pos h]
  unfold Client.packet at hp
  cases hkills : c.client.kills with
  | true =>
    rw [hkills, if_pos rfl] at hp
    cases hp
    exact ⟨load, rfl, rfl, rfl⟩
  | false =>
    rw [hkills, if_neg (by decide)] at hp
    obtain ⟨buf, hcreate, rfl⟩ := Option.map_eq_some_iff.mp hp
    have hsize := (Packet.length_lt_of_sendable hsendable).left
    obtain ⟨msg, load', hrun, hview, hheap⟩ := handle_message hcreate hsize behind load
    refine ⟨load', ?_, hheap⟩
    unfold answerPacket
    dsimp only
    rw [if_pos rfl, hrun]
    dsimp only
    rw [hview]
    rfl

theorem answer_incomplete (h : c.complete = false) : c.answer = .invalidPacket := by
  unfold Conn.answer
  rw [h]
  rfl

end Answer

section Lists

variable {conns : List Conn}

theorem servedLog_concat (conns : List Conn) (c : Conn)
    : servedLog (conns ++ [c]) = servedLog conns ++ c.events conns.length := by
  unfold servedLog
  rw [List.zipIdx_append, List.flatMap_append]
  simp

theorem take_set_of_ge {i n : Nat} (h : n ≤ i) (c : Conn) : (conns.set i c).take n = conns.take n := by
  rw [List.take_set, List.set_eq_of_length_le]
  rw [List.length_take]
  omega

theorem getElem?_set {i j : Nat} {c d : Conn} (h : (conns.set i c)[j]? = some d)
    : (j = i ∧ d = c) ∨ (j ≠ i ∧ conns[j]? = some d) := by
  rw [List.getElem?_set] at h
  split at h
  . next heq =>
    split at h
    . cases h
      exact .inl ⟨heq.symm, rfl⟩
    . cases h
  . next hne => exact .inr ⟨fun heq => hne heq.symm, h⟩

end Lists

section Steps

variable {env : Env} {s s' : System}

theorem System.handled_le (s : System) : s.handled ≤ s.accepted := by
  unfold handled
  split <;> omega

theorem sound_init : Sound (machine env).init where
  conns c hc := by cases hc
  waiting i c hc := by cases hc
  closed c hc := by cases hc
  accepted_le := Nat.le_refl 0
  reading r hr := by cases hr

theorem serves_init : Serves (machine env).init where
  log_eq := rfl
  stops := by
    constructor
    . intro hphase
      cases hphase
    . rintro ⟨c, hc, _⟩
      cases hc
  stops_last c hc := by cases hc
  alive h := by cases h
  owns := ⟨rfl, rfl, fun _ => (if_neg (fun heq => by cases heq)).symm⟩

/-- A step that changes nothing about what the daemon has done. -/
theorem Serves.frame (h : Serves s) (hserved : s'.served = s.served) (hcurrent : s'.current = s.current)
    (hreturned : s'.phase = .returned ↔ s.phase = .returned) (halive : s'.phase ≠ .crashed)
    (howns : Owns s'.buf s'.payload s'.load.heap) (hlog : s'.log = s.log)
    : Serves s' where
  log_eq := by rw [hlog, hserved, hcurrent, h.log_eq]
  stops := by rw [hreturned, hserved, h.stops]
  stops_last := by
    rw [hserved]
    exact h.stops_last
  alive := halive
  owns := howns

theorem Sound.connect (h : Sound s) (client : Client)
    : Sound (connect client s) ∧ (connect client s).served = s.served := by
  have hserved : (Daemon.connect client s).served = s.served := by
    have hle := Nat.le_trans s.handled_le h.accepted_le
    change (s.conns ++ [_]).take s.handled = s.conns.take s.handled
    rw [List.take_append_of_le_length hle]
  have hget : ∀ i c, (Daemon.connect client s).conns[i]? = some c →
      s.conns[i]? = some c ∨ (i = s.conns.length ∧ c.received = 0) := by
    intro i c hc
    change (s.conns ++ [_])[i]? = some c at hc
    rw [List.getElem?_append] at hc
    split at hc
    . exact .inl hc
    . next hge =>
      right
      rw [List.getElem?_singleton] at hc
      split at hc
      . cases hc
        exact ⟨by omega, rfl⟩
      . cases hc
  constructor
  . constructor
    case conns =>
      intro c hc
      rcases List.mem_append.mp hc with hc | hc
      . exact h.conns c hc
      . rw [List.mem_singleton.mp hc]
        exact ⟨sends_startWriter client, Nat.zero_le _⟩
    case waiting =>
      intro i c hc hle
      rcases hget i c hc with hc | hc
      . exact h.waiting i c hc hle
      . exact hc.right
    case closed =>
      rw [hserved]
      exact h.closed
    case accepted_le =>
      have := h.accepted_le
      change s.accepted ≤ (s.conns ++ [_]).length
      rw [List.length_append]
      omega
    case reading =>
      intro r hr
      obtain ⟨herrno, hpos, htook⟩ := h.reading r hr
      refine ⟨herrno, hpos, ?_⟩
      intro c hc
      rcases hget _ c hc with hc | ⟨hlen, _⟩
      . exact htook c hc
      . have := h.accepted_le
        change s.accepted - 1 = s.conns.length at hlen
        omega
  . exact hserved

section SetConn

variable {c' : Conn} {i : Nat}

theorem Sound.conns_set (h : Sound s) (hsound : c'.Sound) : ∀ c ∈ s.conns.set i c', c.Sound := by
  intro c hc
  rcases List.mem_or_eq_of_mem_set hc with hc | rfl
  . exact h.conns c hc
  . exact hsound

theorem Sound.waiting_set (h : Sound s) (hreceived : s.accepted ≤ i → c'.received = 0)
    : ∀ j c, (s.conns.set i c')[j]? = some c → s.accepted ≤ j → c.received = 0 := by
  intro j c hc hle
  rcases getElem?_set hc with ⟨rfl, rfl⟩ | ⟨_, hc⟩
  . exact hreceived hle
  . exact h.waiting j c hc hle

theorem Sound.accepted_le_set (h : Sound s) : s.accepted ≤ (s.conns.set i c').length := by
  rw [List.length_set]
  exact h.accepted_le

end SetConn

/-- What a client does to its own end of a connection that the daemon is not done with. -/
theorem Sound.setConn (h : Sound s) {i : Nat} {c : Conn} (hc : s.conns[i]? = some c)
    (hopen : c.writer ≠ .closed) (c' : Conn) (hsound : c'.Sound) (hreceived : c'.received = c.received)
    (hsent : c.sock.stream <+: c'.sock.stream)
    : Sound { s with conns := s.conns.set i c' } ∧
        System.served { s with conns := s.conns.set i c' } = s.served := by
  have hge : s.handled ≤ i := by
    by_contra hlt
    apply hopen
    apply h.closed c
    exact List.mem_of_getElem? (i := i) (by rw [System.served, List.getElem?_take_of_lt (by omega), hc])
  have hserved : System.served { s with conns := s.conns.set i c' } = s.served := take_set_of_ge hge c'
  constructor
  . constructor
    case conns => exact h.conns_set hsound
    case waiting => exact h.waiting_set fun hle => hreceived.trans (h.waiting i c hc hle)
    case closed =>
      rw [hserved]
      exact h.closed
    case accepted_le => exact h.accepted_le_set
    case reading =>
      intro r hr
      obtain ⟨herrno, hpos, htook⟩ := h.reading r hr
      refine ⟨herrno, hpos, ?_⟩
      intro d hd
      rcases getElem?_set hd with ⟨hi, rfl⟩ | ⟨_, hd⟩
      . -- what is read already is at the front, where nothing changes
        dsimp only at hi
        have htook := htook c (by rw [hi]; exact hc)
        have hle := (h.conns c (List.mem_of_getElem? hc)).received_le
        obtain ⟨rest, hrest⟩ := hsent
        rw [hreceived, ← hrest, List.take_append_of_le_length hle]
        exact htook
      . exact htook d hd
  . exact hserved

theorem Sound.accept (h : Sound s) (env : Env) (hphase : s.phase = .polling) (hlt : s.accepted < s.conns.length)
    {errno : Errno} (herrno : errno ≠ .eintr)
    : Sound (accept env errno s) ∧ (accept env errno s).served = s.served := by
  have hserved : (Daemon.accept env errno s).served = s.served := by
    unfold System.served System.handled
    rw [hphase]
    rfl
  constructor
  . constructor
    case conns => exact h.conns
    case waiting =>
      intro i c hc hle
      apply h.waiting i c hc (by change s.accepted + 1 ≤ i at hle; omega)
    case closed =>
      rw [hserved]
      exact h.closed
    case accepted_le => exact hlt
    case reading =>
      intro r hr
      cases hr
      refine ⟨herrno, Nat.succ_pos _, ?_⟩
      intro c hc
      have hzero := h.waiting s.accepted c hc (Nat.le_refl _)
      rw [hzero, List.take_zero]
      exact took_startReading
  . exact hserved

theorem Serves.accept (h : Serves s) (hphase : s.phase = .polling) (errno : Errno)
    (hserved : (accept env errno s).served = s.served)
    : Serves (accept env errno s) where
  log_eq := by
    have hhandled : s.handled = s.accepted := by
      unfold System.handled
      rw [hphase]
    rw [hserved]
    change s.log ++ [.accept s.accepted] = _
    rw [h.log_eq]
    unfold System.current
    rw [hphase, List.append_nil]
    rfl
  stops := by
    rw [hserved, ← h.stops, hphase]
    constructor
    . intro hreturned
      cases hreturned
    . intro hreturned
      cases hreturned
  stops_last := by
    rw [hserved]
    exact h.stops_last
  alive hcrashed := by cases hcrashed
  owns := by
    have howns := h.owns
    unfold System.payload at howns
    rw [hphase] at howns
    exact howns

/-- The state that a read returns to, before the daemon goes on with what it has read. -/
def System.took (s : System) (errno : Errno) (c : Conn) : System :=
  { s with errno := errno, conns := s.conns.set (s.accepted - 1) c }

theorem Sound.took (h : Sound s) {r r' : Reading} (hphase : s.phase = .reading r) {c' : Conn}
    (hsound : c'.Sound) {errno : Errno}
    (herrno : errno ≠ .eintr) (htook : r'.Took (c'.sock.stream.take c'.received)) (load : LoadState)
    (buf : Option Nat)
    : Sound { s.took errno c' with load, buf, phase := .reading r' } ∧
        System.served { s.took errno c' with load, buf, phase := .reading r' } = s.served := by
  obtain ⟨_, hpos, _⟩ := h.reading r hphase
  have hhandled : s.handled = s.accepted - 1 := by
    unfold System.handled
    rw [hphase]
  have hserved : System.served { s.took errno c' with load, buf, phase := .reading r' } = s.served := by
    unfold System.served
    rw [hhandled]
    exact take_set_of_ge (Nat.le_refl _) c'
  constructor
  . constructor
    case conns => exact h.conns_set hsound
    case waiting => exact h.waiting_set fun hle => by omega
    case closed =>
      rw [hserved]
      exact h.closed
    case accepted_le => exact h.accepted_le_set
    case reading =>
      intro r₁ hr
      cases hr
      refine ⟨herrno, hpos, ?_⟩
      intro d hd
      rcases getElem?_set hd with ⟨_, rfl⟩ | ⟨hne, _⟩
      . exact htook
      . exact absurd rfl hne
  . exact hserved

theorem Serves.owns_reading (hs : Serves s) {r : Reading} (hphase : s.phase = .reading r)
    : Owns s.buf r.stage.block s.load.heap := by
  have howns := hs.owns
  unfold System.payload at howns
  rw [hphase] at howns
  exact howns

theorem serves_waits (h : Sound s) (hs : Serves s) {r r' : Reading} (hphase : s.phase = .reading r)
    {c' : Conn} (hsound : c'.Sound) {errno : Errno} (herrno : errno ≠ .eintr)
    (htook : r'.Took (c'.sock.stream.take c'.received)) {garbage : Garbage} {call : Outcome} {sock : Sock}
    (hread : (readStep garbage r call sock).1 = .waits r')
    : Sound { (s.took errno c').allocated r.stage (.waits r') with phase := .reading r' } ∧
        Serves { (s.took errno c').allocated r.stage (.waits r') with phase := .reading r' } := by
  obtain ⟨load, buf, hallocated, howns⟩ :=
    allocated_waits (s := s.took errno c') hread (hs.owns_reading hphase)
  rw [hallocated]
  have hstep := h.took hphase hsound herrno htook load buf
  refine ⟨hstep.left, hs.frame hstep.right ?_ ?_ ?_ howns rfl⟩
  . unfold System.current System.handled
    rw [hphase]
    rfl
  . rw [hphase]
    exact ⟨fun heq => (by cases heq), fun heq => (by cases heq)⟩
  . intro heq
    cases heq

/-- The state behind an answer, when the connection is closed. -/
def System.answered (s : System) (answer : Answer) (load : LoadState) : System :=
  { s with
    phase := if answer = .stop then .returned else .polling
    load := load
    buf := none
    log := s.log ++ [.answer answer, .close (s.accepted - 1)]
  }

section Answered

variable (answer : Answer) (load : LoadState)

theorem finish_eq {packet : Option Packet} {load load' : LoadState} {buf : Option Nat} {answer : Answer}
    (h : answerPacket (env.behind (s.accepted - 1)) packet load = .ok (answer, load'))
    : finish env packet { s with load, buf } = s.answered answer (freeBuf buf load') := by
  unfold finish
  dsimp only
  rw [h]
  rfl

theorem answered_phase
    : (s.answered answer load).phase = .returned ∧ answer = .stop
        ∨ (s.answered answer load).phase = .polling ∧ answer ≠ .stop := by
  unfold System.answered
  by_cases hstop : answer = .stop
  . exact .inl ⟨if_pos hstop, hstop⟩
  . exact .inr ⟨if_neg hstop, hstop⟩

theorem answered_handled : (s.answered answer load).handled = s.accepted := by
  unfold System.handled
  rcases answered_phase (s := s) answer load with ⟨hphase, _⟩ | ⟨hphase, _⟩
  . rw [hphase]
    rfl
  . rw [hphase]
    rfl

theorem answered_current : (s.answered answer load).current = [] := by
  unfold System.current
  rcases answered_phase (s := s) answer load with ⟨hphase, _⟩ | ⟨hphase, _⟩
  . rw [hphase]
  . rw [hphase]

theorem answered_payload : (s.answered answer load).payload = none := by
  unfold System.payload
  rcases answered_phase (s := s) answer load with ⟨hphase, _⟩ | ⟨hphase, _⟩
  . rw [hphase]
  . rw [hphase]

end Answered

section Finish

variable {r : Reading} {c' : Conn} (h : Sound s) (hphase : s.phase = .reading r)
  (hlt : s.accepted - 1 < s.conns.length) (errno : Errno) (load : LoadState)
include h hphase hlt

/-- The connection is now the last one that is done with. -/
theorem Sound.served_answered (answer : Answer)
    : ((s.took errno c').answered answer load).served = s.served ++ [c'] := by
  obtain ⟨_, hpos, _⟩ := h.reading r hphase
  have hhandled : s.handled = s.accepted - 1 := by
    unfold System.handled
    rw [hphase]
  have haccepted : s.accepted = s.accepted - 1 + 1 := by omega
  unfold System.served
  rw [answered_handled, hhandled]
  change (s.conns.set (s.accepted - 1) c').take s.accepted = _
  rw [haccepted, List.take_add_one, Nat.add_sub_cancel, List.getElem?_set_self hlt,
    take_set_of_ge (Nat.le_refl _)]
  rfl

theorem Sound.answered (hsound : c'.Sound) (hclosed : c'.writer = .closed) (answer : Answer)
    : Sound ((s.took errno c').answered answer load) := by
  obtain ⟨_, hpos, _⟩ := h.reading r hphase
  constructor
  case conns => exact h.conns_set hsound
  case waiting => exact h.waiting_set fun hle => by omega
  case closed =>
    rw [h.served_answered hphase hlt]
    intro d hd
    rcases List.mem_append.mp hd with hd | hd
    . exact h.closed d hd
    . rw [List.mem_singleton.mp hd]
      exact hclosed
  case accepted_le => exact h.accepted_le_set
  case reading =>
    intro r' hr
    rcases answered_phase (s := s.took errno c') answer load with ⟨hphase', _⟩ | ⟨hphase', _⟩
    . rw [hphase'] at hr
      cases hr
    . rw [hphase'] at hr
      cases hr

theorem Serves.answered (hs : Serves s) (howns : Owns none none load.heap)
    : Serves ((s.took errno c').answered c'.answer load) := by
  have hserved : ((s.took errno c').answered c'.answer load).served = s.served ++ [c'] :=
    h.served_answered hphase hlt errno load c'.answer
  have hhandled : s.handled = s.accepted - 1 := by
    unfold System.handled
    rw [hphase]
  have hnever : ¬∃ d ∈ s.served, d.answer = .stop := by
    rw [← hs.stops, hphase]
    intro heq
    cases heq
  constructor
  case log_eq =>
    have hlen : s.served.length = s.accepted - 1 := by
      unfold System.served
      rw [hhandled, List.length_take]
      omega
    have hcurrent : s.current = [.accept (s.accepted - 1)] := by
      unfold System.current
      rw [hphase, hhandled]
    rw [hserved, answered_current, servedLog_concat, hlen]
    change s.log ++ _ = _
    rw [hs.log_eq, hcurrent]
    simp [Conn.events, System.took]
  case stops =>
    rw [hserved]
    rcases answered_phase (s := s.took errno c') c'.answer load with ⟨hreturned, hstop⟩ | ⟨hpolling, hgo⟩
    . exact ⟨fun _ => ⟨c', by simp, hstop⟩, fun _ => hreturned⟩
    . constructor
      . intro hreturned
        rw [hpolling] at hreturned
        cases hreturned
      . rintro ⟨d, hd, hstop⟩
        rcases List.mem_append.mp hd with hd | hd
        . exact absurd ⟨d, hd, hstop⟩ hnever
        . rw [List.mem_singleton.mp hd] at hstop
          exact absurd hstop hgo
  case stops_last =>
    rw [hserved, List.dropLast_concat]
    exact fun d hd hstop => hnever ⟨d, hd, hstop⟩
  case alive =>
    rcases answered_phase (s := s.took errno c') c'.answer load with ⟨hphase', _⟩ | ⟨hphase', _⟩
    . rw [hphase']
      exact fun heq => by cases heq
    . rw [hphase']
      exact fun heq => by cases heq
  case owns =>
    rw [answered_payload]
    exact howns

end Finish

theorem serves_finish (h : Sound s) (hs : Serves s) {r : Reading} (hphase : s.phase = .reading r)
    {c' : Conn} (hlt : s.accepted - 1 < s.conns.length) (hsound : c'.Sound)
    (hclosed : c'.writer = .closed) {errno : Errno} {packet : Option Packet}
    (hanswer : ∀ load, ∃ load', answerPacket (env.behind (s.accepted - 1)) packet load
        = .ok (c'.answer, load') ∧
      load'.heap.badFrees = load.heap.badFrees ∧ load'.heap.live = load.heap.live)
    : Sound (finish env packet ((s.took errno c').allocated r.stage (.returns packet))) ∧
        Serves (finish env packet ((s.took errno c').allocated r.stage (.returns packet))) := by
  obtain ⟨load, buf, size, hallocated, howns⟩ :=
    allocated_returns (s := s.took errno c') packet (hs.owns_reading hphase)
  obtain ⟨load', hanswer, hbad, hlive⟩ := hanswer load
  rw [hallocated, finish_eq (s := s.took errno c') hanswer]
  exact ⟨h.answered hphase hlt errno _ hsound hclosed _,
    hs.answered h hphase hlt errno _ (howns.congr hbad hlive).freeBuf⟩

theorem readCall_serves (h : Sound s) (hs : Serves s) {r : Reading} (hphase : s.phase = .reading r)
    {c : Conn} (hc : s.conns[s.accepted - 1]? = some c) (hreadable : c.readable = true) {k : Nat}
    (hk : 0 < k)
    : Sound (readCall env r c (.transfer k) s) ∧ Serves (readCall env r c (.transfer k) s) := by
  obtain ⟨herrno, _, htook⟩ := h.reading r hphase
  have htook := htook c hc
  have hsound := h.conns c (List.mem_of_getElem? hc)
  have hlt : s.accepted - 1 < s.conns.length := (List.getElem?_eq_some_iff.mp hc).choose
  by_cases hmore : c.incoming = []
  case neg =>
    obtain ⟨m, _, htaken, hsock, hsound', hread⟩ := hsound.readStep htook env.garbage hk s.errno hmore
    unfold readCall
    rw [← Prod.mk.eta (p := readStep env.garbage r (.transfer k) ⟨s.errno, c.incoming⟩), hsock]
    dsimp only
    rw [htaken]
    cases hresult : (readStep env.garbage r (.transfer k) ⟨s.errno, c.incoming⟩).1 with
    | waits r' =>
      rw [hresult] at hread
      exact serves_waits h hs hphase hsound' herrno hread hresult
    | returns packet =>
      rw [hresult] at hread
      obtain ⟨p, rfl, hp, hsendable, hcomplete⟩ := hsound'.complete_of_returns hread
      exact serves_finish h hs hphase hlt hsound' (hsound'.closed_of_complete hcomplete)
        (answerPacket_complete hcomplete hp hsendable _)
  case pos =>
    have hclosed : c.writer = .closed := by
      unfold Conn.readable at hreadable
      rw [decide_eq_true_eq] at hreadable
      rcases hreadable with hne | hclosed
      . exact absurd hmore hne
      . exact hclosed
    have hread := readStep_nil env.garbage r k ⟨s.errno, c.incoming⟩ hmore herrno
    -- all of what was sent is read, and it is less than a packet
    have hall : c.sock.stream.take c.received = c.sock.stream := by
      apply List.take_of_length_le
      exact List.drop_eq_nil_iff.mp hmore
    have hincomplete : c.complete = false := by
      apply decide_eq_false
      rintro ⟨hne, hstream⟩
      rcases c.client.wire_cases with hnil | ⟨p, _, hsendable, hwire⟩
      . exact hne hnil
      . apply htook.ne_encode hsendable
        rw [hall, hstream, hwire]
    unfold readCall
    rw [hread]
    dsimp only
    rw [Nat.sub_self, Nat.add_zero]
    apply serves_finish h hs hphase hlt hsound hclosed
    intro load
    refine ⟨load, ?_, rfl, rfl⟩
    rw [answer_incomplete hincomplete]
    rfl

/--
One step of the system, whichever client or the daemon takes it.
-/
theorem step_serves {i : Input} (h : Sound s) (hs : Serves s) (hok : Uninterrupted s i)
    (hstep : (machine env).step s i = some s')
    : Sound s' ∧ Serves s' := by
  cases steps_of_step hstep with
  | connect client _ =>
    have hconnect := h.connect client
    exact ⟨hconnect.left, hs.frame hconnect.right rfl Iff.rfl hs.alive hs.owns rfl⟩
  | @write _ c call hc hopen hmoves =>
    have hsound := h.conns c (List.mem_of_getElem? hc)
    have hwrite := hsound.sends.writeStep hok hmoves
    have hset := h.setConn hc hopen (c.wrote call)
      ⟨hwrite.left, Nat.le_trans hsound.received_le hwrite.right.length_le⟩ rfl hwrite.right
    exact ⟨hset.left, hs.frame hset.right rfl Iff.rfl hs.alive hs.owns rfl⟩
  | die c hc hopen =>
    have hsound := h.conns c (List.mem_of_getElem? hc)
    have hset := h.setConn hc hopen { c with writer := .closed }
      ⟨hsound.sends.isPrefix, hsound.received_le⟩ rfl (List.prefix_refl _)
    exact ⟨hset.left, hs.frame hset.right rfl Iff.rfl hs.alive hs.owns rfl⟩
  | accept errno hphase hlt =>
    have haccept := h.accept env hphase hlt hok
    exact ⟨haccept.left, hs.accept hphase errno haccept.right⟩
  | read r c call hphase hc hreturns =>
    cases call with
    | transfer k =>
      obtain ⟨hreadable, hpos⟩ := of_decide_eq_true hreturns
      exact readCall_serves h hs hphase hc hreadable hpos
    | fail errno => exact absurd hok id

theorem Reaches.serves (h : (machine env).Reaches Uninterrupted s) : Sound s ∧ Serves s := by
  apply h.invariant (P := fun s => Sound s ∧ Serves s)
  . exact ⟨sound_init, serves_init⟩
  . intro s i s' hs hok hstep
    exact step_serves hs.left hs.right hok hstep

end Steps

def ones : Env where
  garbage n := ⟨List.replicate n 1, List.length_replicate⟩
  behind _ := [7]

def opens : Client where
  argv := [⟨[117], by decide⟩]
  environ := [⟨[66, 61], by decide⟩]
  cwd := ⟨[47, 98], by decide⟩

def kills : Client := { opens with argv := [⟨[117], by decide⟩, ⟨ascii "--kill-daemon", by decide⟩] }

/-- The second client is faster than the first one, and the third one is killed. -/
def threeClients : List Input :=
  [.connect opens, .connect kills, .write 1 (.transfer 9), .connect opens, .write 1 (.transfer 4),
    .accept .other, .write 0 (.transfer 3), .read (.transfer 4), .die 2, .write 0 (.transfer 1),
    .read (.transfer 4), .write 0 (.transfer 4), .write 0 (.transfer 64), .read (.transfer 1),
    .read (.transfer 4), .read (.transfer 64), .accept .other, .read (.transfer 4)]

end Daemon
end Runes
