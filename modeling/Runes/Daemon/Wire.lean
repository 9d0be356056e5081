import Runes.Daemon.Service

/-!
This module contains what the two ends of a connection do with its bytes as long as no call is
interrupted: a client sends a front of its packet, and what the daemon has read is the front of what
was sent.
-/

namespace Runes
namespace Daemon

open Protocol Wire

/-- What the client sends if it is not killed before. -/
def Client.wire (c : Client) : List UInt8 :=
  match c.packet with
  | some p => if p.sendable then p.encode else []
  | none => []

section Loops

variable {len bytes n : Nat} {errno : Errno}

theorem afterCall_pos (hn : 0 < n) (hle : bytes + n ≤ len) (hlen : len < 2 ^ 64)
    : afterCall len bytes n errno
        =
      if bytes + n < len then .goesOn (bytes + n) else .left true := by
  unfold afterCall
  rw [if_neg (by omega), addSize_of_lt (by omega)]

theorem afterCall_zero (herrno : errno ≠ .eintr) : afterCall len bytes 0 errno = .left false := by
  unfold afterCall
  rw [if_pos ⟨Int.le_refl 0, herrno⟩]

end Loops

section Write

/--
A client that has `sent` something has the rest of `all` before it, or it does not send any more.
-/
def Sends (all : List UInt8) (w : Writer) (sent : List UInt8) : Prop :=
  match w with
  | .writing bytes buf bufs =>
    bytes < buf.length
      ∧
    (∀ b ∈ buf :: bufs, b.length < 2 ^ 64)
      ∧
    sent ++ (buf.drop bytes ++ bufs.flatten) = all
  | .closed => sent <+: all

theorem Sends.isPrefix {all sent : List UInt8} {w : Writer} (h : Sends all w sent)
    : sent <+: all := by
  cases w with
  | writing bytes buf bufs => exact ⟨_, h.right.right⟩
  | closed => exact h

theorem Sends.closed_of_eq {all sent : List UInt8} {w : Writer} (h : Sends all w sent)
    (hall : sent = all)
    : w = .closed := by
  cases w with
  | writing bytes buf bufs =>
    have ⟨hlt, _, hsent⟩ := h
    have hlen := congrArg List.length hsent
    rw [hall, List.length_append, List.length_append, List.length_drop] at hlen
    omega
  | closed => rfl

theorem sends_nextBuf {all sent : List UInt8} {bufs : List (List UInt8)}
    (hsmall : ∀ b ∈ bufs, b.length < 2 ^ 64) (h : sent ++ bufs.flatten = all)
    : Sends all (nextBuf bufs) sent := by
  induction bufs with
  | nil =>
    unfold nextBuf Sends
    simp [← h]
  | cons buf bufs ih =>
    unfold nextBuf
    split
    . next hpos => exact ⟨hpos, hsmall, by simpa using h⟩
    . next hzero =>
      have hnil : buf = [] := List.length_eq_zero_iff.mp (by omega)
      apply ih (fun b hb => hsmall b (List.mem_cons_of_mem buf hb))
      simpa [hnil] using h

theorem sends_startWriter (c : Client) : Sends c.wire (startWriter c.packet) [] := by
  unfold Client.wire
  cases c.packet with
  | none => exact List.prefix_refl []
  | some p =>
    unfold startWriter
    dsimp only
    by_cases hsendable : p.sendable = true
    . have hsmall : ¬p.payload.length > maxPacketSize ∧ ¬(p.type < 0 ∨ p.type ≥ numMessageTypes) := by
        unfold Packet.sendable at hsendable
        rw [decide_eq_true_eq] at hsendable
        omega
      rw [if_pos hsendable, if_neg hsmall.left, if_neg hsmall.right]
      apply sends_nextBuf
      . intro b hb
        have := hsmall.left
        unfold maxPacketSize at this
        simp only [List.mem_cons, List.not_mem_nil, or_false] at hb
        rcases hb with rfl | rfl | rfl
        . simp
        . simp
        . omega
      . simp [Packet.encode]
    . rw [if_neg hsendable]
      unfold Packet.sendable at hsendable
      rw [decide_eq_true_eq] at hsendable
      split
      . exact List.prefix_refl []
      . rw [if_pos (by omega)]
        exact List.prefix_refl []

theorem nextBuf_closed {bufs : List (List UInt8)} (h : nextBuf bufs = .closed)
    : bufs.flatten = [] := by
  induction bufs with
  | nil => rfl
  | cons buf bufs ih =>
    unfold nextBuf at h
    split at h
    . cases h
    . next hzero =>
      have hnil : buf = [] := List.length_eq_zero_iff.mp (by omega)
      rw [List.flatten_cons, hnil, ih h, List.append_nil]

theorem writeStep_transfer {bytes k : Nat} {buf : List UInt8} (hlt : bytes < buf.length)
    (hbuf : buf.length < 2 ^ 64) (hk : 0 < k) (bufs : List (List UInt8)) (sock : Sock)
    : ∃ m, 0 < m ∧ bytes + m ≤ buf.length ∧
        writeStep (.writing bytes buf bufs) (.transfer k) sock
          =
        (if bytes + m < buf.length then .writing (bytes + m) buf bufs else nextBuf bufs,
          { sock with stream := sock.stream ++ (buf.drop bytes).take m }) := by
  have hlen : ((buf.drop bytes).take k).length = min k (buf.length - bytes) := by
    rw [List.length_take, List.length_drop]
  refine ⟨min k (buf.length - bytes), by omega, by omega, ?_⟩
  dsimp only [writeStep, send]
  rw [hlen, afterCall_pos (by omega) (by omega) hbuf, ← List.length_drop, ← List.take_eq_take_min]
  split
  . next heq =>
    split at heq
    . next hmore =>
      cases heq
      rw [if_pos hmore]
    . cases heq
  . next heq =>
    split at heq
    . cases heq
    . next hend => rw [if_neg hend]
  . next heq =>
    split at heq
    . cases heq
    . cases heq

theorem writeStep_fail {errno : Errno} (h : errno ≠ .eintr) {bytes : Nat} {buf : List UInt8}
    (bufs : List (List UInt8)) (sock : Sock)
    : writeStep (.writing bytes buf bufs) (.fail errno) sock
        =
      (.closed, { sock with errno := errno }) := by
  have hafter : afterCall buf.length bytes (-1) errno = .left false := by
    unfold afterCall
    rw [if_pos ⟨by omega, h⟩]
  dsimp only [writeStep, send]
  rw [hafter]

theorem take_append_rest (buf : List UInt8) (bytes m : Nat) (sent rest : List UInt8)
    : sent ++ (buf.drop bytes).take m ++ (buf.drop (bytes + m) ++ rest)
        =
      sent ++ (buf.drop bytes ++ rest) := by
  rw [← List.drop_drop, List.append_assoc, ← List.append_assoc _ _ rest, List.take_append_drop]

theorem Sends.writeStep {all : List UInt8} {w : Writer} {sock : Sock} (h : Sends all w sock.stream)
    {call : Outcome} (hcall : call ≠ .fail .eintr) (hmoves : Outcome.moves call = true)
    : Sends all (writeStep w call sock).1 (writeStep w call sock).2.stream
        ∧
      sock.stream <+: (writeStep w call sock).2.stream := by
  cases w with
  | closed => exact ⟨h, List.prefix_refl _⟩
  | writing bytes buf bufs =>
    have ⟨hlt, hsmall, hsent⟩ := h
    have hbuf := hsmall buf List.mem_cons_self
    cases call with
    | transfer k =>
      obtain ⟨m, _, hle, hstep⟩ :=
        writeStep_transfer hlt hbuf (of_decide_eq_true hmoves) bufs sock
      rw [hstep]
      refine ⟨?_, List.prefix_append _ _⟩
      dsimp only
      by_cases hmore : bytes + m < buf.length
      . rw [if_pos hmore]
        exact ⟨hmore, hsmall, by rw [take_append_rest, hsent]⟩
      . rw [if_neg hmore]
        apply sends_nextBuf (fun b hb => hsmall b (List.mem_cons_of_mem buf hb))
        have hnil : buf.drop (bytes + m) = [] := List.drop_of_length_le (by omega)
        have hrest := take_append_rest buf bytes m sock.stream bufs.flatten
        rw [hnil, List.nil_append, hsent] at hrest
        exact hrest
    | fail errno =>
      rw [writeStep_fail (fun heq => hcall (heq ▸ rfl))]
      exact ⟨h.isPrefix, List.prefix_refl _⟩

/-- A client that is not interrupted and not killed gets further with each call, and stops at the end. -/
theorem Sends.writeStep_transfer {all : List UInt8} {w : Writer} {sock : Sock}
    (h : Sends all w sock.stream) (hopen : w ≠ .closed) {k : Nat} (hk : 0 < k)
    : sock.stream.length < (Daemon.writeStep w (.transfer k) sock).2.stream.length
        ∧
      ((Daemon.writeStep w (.transfer k) sock).1 = .closed →
        (Daemon.writeStep w (.transfer k) sock).2.stream = all) := by
  cases w with
  | closed => exact absurd rfl hopen
  | writing bytes buf bufs =>
    have ⟨hlt, hsmall, hsent⟩ := h
    obtain ⟨m, hpos, hle, hstep⟩ :=
      Daemon.writeStep_transfer hlt (hsmall buf List.mem_cons_self) hk bufs sock
    rw [hstep]
    dsimp only
    constructor
    . rw [List.length_append, List.length_take, List.length_drop]
      omega
    . intro hclosed
      split at hclosed
      . cases hclosed
      . have hnil : buf.drop (bytes + m) = [] := List.drop_of_length_le (by omega)
        have hrest := take_append_rest buf bytes m sock.stream bufs.flatten
        rw [hnil, hsent, nextBuf_closed hclosed, List.append_nil, List.append_nil] at hrest
        exact hrest

end Write

section Read

variable {garbage : Garbage} {front : List UInt8}

def Stage.header (stage : Stage) : List UInt8 :=
  match stage with
  | .len => []
  | .type n => be32 n
  | .payload n kind => be32 n ++ be32 kind

structure Reading.Took (r : Reading) (front : List UInt8) : Prop where
  size : r.outbuf.length = r.stage.size
  lt : r.bytes < r.stage.size
  front_eq : front = r.stage.header ++ r.outbuf.take r.bytes

/--
What is known of the bytes that were taken when the daemon waits for more of them, and what they are
when it does not.
-/
def Read.Took (read : Read) (front : List UInt8) : Prop :=
  match read with
  | .waits r => r.Took front
  | .returns (some p) =>
    ∃ n type, front = be32 n ++ (be32 type ++ p.payload) ∧ p.type = intOfU32 type ∧
      p.payload.length = n.toNat
  | .returns none => ∃ n type, front = be32 n ++ be32 type ∧ maxPacketSize < n.toNat

theorem Stage.size_lt (stage : Stage) : stage.size < 2 ^ 64 := by
  cases stage with
  | len => decide
  | type n => exact Nat.lt_of_lt_of_le (Nat.lt_succ_self 4) (by decide)
  | payload n kind =>
    have := n.toNat_lt
    change n.toNat < 2 ^ 64
    omega

theorem took_startReading : (startReading garbage).Took [] where
  size := (garbage 4).property
  lt := Nat.zero_lt_succ 3
  front_eq := rfl

theorem took_leave {stage : Stage} {outbuf : List UInt8} (hsize : outbuf.length = stage.size)
    : (leave garbage stage outbuf).Took (stage.header ++ outbuf) := by
  cases stage with
  | len =>
    refine ⟨(garbage 4).property, Nat.zero_lt_succ 3, ?_⟩
    simp [Stage.header, be32_ofBE32 outbuf hsize]
  | type n =>
    have hword := be32_ofBE32 outbuf hsize
    unfold leave
    dsimp only
    split
    . next hbig => exact ⟨n, ofBE32 outbuf, by rw [hword]; rfl, hbig⟩
    . split
      . next hpos =>
        refine ⟨(garbage n.toNat).property, hpos, ?_⟩
        simp [Stage.header, hword]
      . next hzero =>
        have hlen := (garbage n.toNat).property
        have hnil : (garbage n.toNat).val = [] := List.length_eq_zero_iff.mp (by omega)
        refine ⟨n, ofBE32 outbuf, ?_, rfl, hlen⟩
        simp [Stage.header, hword, hnil]
  | payload n type => exact ⟨n, type, by simp [Stage.header], rfl, hsize⟩

/-- One call takes some bytes off the front of what there is to be read. -/
theorem Reading.Took.readStep {r : Reading} (h : r.Took front) (garbage : Garbage) {k : Nat}
    (hk : 0 < k) (sock : Sock) (hmore : sock.stream ≠ [])
    : ∃ m, 0 < m ∧ m ≤ sock.stream.length ∧
        (readStep garbage r (.transfer k) sock).2 = { sock with stream := sock.stream.drop m } ∧
        (readStep garbage r (.transfer k) sock).1.Took (front ++ sock.stream.take m) := by
  have hlt := h.lt
  have hsize := h.size
  have hpos := List.length_pos_iff.mpr hmore
  -- how many bytes are moved
  obtain ⟨m, hm⟩ : ∃ m, m = min (min k (r.stage.size - r.bytes)) sock.stream.length := ⟨_, rfl⟩
  have hmoved : sock.stream.take (min k (r.stage.size - r.bytes)) = sock.stream.take m := by
    rw [hm, List.take_eq_take_min]
  have hlen : (sock.stream.take m).length = m := by
    rw [List.length_take]
    omega
  refine ⟨m, by omega, by omega, ?_⟩
  have hfront : r.stage.header ++ (r.outbuf.take r.bytes ++ sock.stream.take m)
      = front ++ sock.stream.take m := by
    rw [h.front_eq, List.append_assoc]
  have htake : (r.outbuf.take r.bytes).length = r.bytes := by
    rw [List.length_take]
    omega
  dsimp only [Daemon.readStep, recv]
  rw [hmoved, hlen, afterCall_pos (by omega) (by omega) r.stage.size_lt]
  by_cases hgoes : r.bytes + m < r.stage.size
  . rw [if_pos hgoes]
    refine ⟨rfl, ⟨?_, hgoes, ?_⟩⟩
    . dsimp only
      rw [List.length_append, List.length_append, htake, hlen, List.length_drop]
      omega
    . dsimp only
      rw [← hfront, ← List.append_assoc (r.outbuf.take r.bytes), List.take_left']
      rw [List.length_append, htake, hlen]
  . rw [if_neg hgoes]
    refine ⟨rfl, ?_⟩
    dsimp only
    have hnil : r.outbuf.drop (r.bytes + m) = [] := by
      apply List.drop_of_length_le
      omega
    rw [hnil, List.append_nil, ← hfront]
    apply took_leave
    rw [List.length_append, htake, hlen]
    omega

/-- At the end of the stream the packet is refused. -/
theorem readStep_nil (garbage : Garbage) (r : Reading) (k : Nat) (sock : Sock)
    (hend : sock.stream = []) (herrno : sock.errno ≠ .eintr)
    : readStep garbage r (.transfer k) sock = (.returns none, sock) := by
  dsimp only [readStep, recv]
  rw [hend, List.take_nil, List.length_nil, Nat.cast_zero, afterCall_zero herrno]
  dsimp only
  rw [List.drop_nil, ← hend]

end Read

section Packets

variable {c : Client} {front : List UInt8}

theorem Client.wire_cases (c : Client)
    : c.wire = [] ∨ ∃ p, c.packet = some p ∧ p.sendable = true ∧ c.wire = p.encode := by
  unfold wire
  cases c.packet with
  | none => exact .inl rfl
  | some p =>
    dsimp only
    split
    . next hsendable => exact .inr ⟨p, rfl, hsendable, rfl⟩
    . exact .inl rfl

theorem Packet.length_lt_of_sendable {p : Packet} (h : p.sendable = true)
    : p.payload.length ≤ maxPacketSize ∧ p.payload.length < 2 ^ 32 ∧ 0 ≤ p.type ∧
        p.type < 2 ^ 31 := by
  unfold Packet.sendable numMessageTypes at h
  rw [decide_eq_true_eq] at h
  unfold maxPacketSize at h ⊢
  omega

/-- While the daemon waits for more there is no whole packet. -/
theorem Reading.Took.ne_encode {r : Reading} (h : r.Took front) {p : Packet}
    (hp : p.sendable = true)
    : front ≠ p.encode := by
  intro heq
  have hsmall := Packet.length_lt_of_sendable hp
  have hlt := h.lt
  have hlen : r.stage.header.length + r.bytes = 8 + p.payload.length := by
    have hfront := congrArg List.length (h.front_eq.symm.trans heq)
    rw [List.length_append, List.length_take, h.size] at hfront
    simp only [Packet.encode, List.length_append, be32_length] at hfront
    omega
  have hbytes := h.front_eq.symm.trans heq
  unfold Packet.encode at hbytes
  cases hstage : r.stage with
  | len =>
    rw [hstage] at hlen hlt
    simp only [Stage.header, Stage.size, List.length_nil] at hlen hlt
    omega
  | type n =>
    rw [hstage] at hlen hlt
    simp only [Stage.header, Stage.size, be32_length] at hlen hlt
    omega
  | payload n type =>
    rw [hstage] at hlen hlt hbytes
    simp only [Stage.header, Stage.size, List.length_append, be32_length] at hlen hlt
    simp only [Stage.header, List.append_assoc] at hbytes
    have hn := (prefixCode_be32 _ _ _ _ hbytes).left
    rw [hn, toNat_ofNat_length _ hsmall.right.left] at hlt
    omega

/--
What the daemon reads from a client is the packet of the client, and then the client has sent all of
it.
-/
theorem Read.Took.eq_packet {o : Option Packet} (h : (Read.returns o).Took front)
    (hfront : front <+: c.wire)
    : ∃ p, o = some p ∧ c.packet = some p ∧ p.sendable = true ∧ front = p.encode := by
  have hpos : 8 ≤ front.length := by
    cases o with
    | none =>
      have ⟨n, type, heq, _⟩ := h
      rw [heq, List.length_append, be32_length, be32_length]
    | some p =>
      have ⟨n, type, heq, _⟩ := h
      rw [heq, List.length_append, List.length_append, be32_length, be32_length]
      omega
  obtain ⟨rest, hrest⟩ := hfront
  rcases c.wire_cases with hnil | ⟨p, hp, hsendable, hwire⟩
  . have hlen := congrArg List.length hrest
    rw [hnil, List.length_append, List.length_nil] at hlen
    omega
  . have hsmall := Packet.length_lt_of_sendable hsendable
    rw [hwire] at hrest
    unfold Packet.encode at hrest
    cases o with
    | none =>
      have ⟨n, type, heq, hbig⟩ := h
      rw [heq, List.append_assoc] at hrest
      have hn := (prefixCode_be32 _ _ _ _ hrest).left
      rw [hn, toNat_ofNat_length _ hsmall.right.left] at hbig
      omega
    | some q =>
      have ⟨n, type, heq, htype, hlen⟩ := h
      rw [heq] at hrest
      simp only [List.append_assoc] at hrest
      obtain ⟨hn, hrest⟩ := prefixCode_be32 _ _ _ _ hrest
      obtain ⟨ht, hrest⟩ := prefixCode_be32 _ _ _ _ hrest
      rw [hn, toNat_ofNat_length _ hsmall.right.left] at hlen
      have hpayload : q.payload = p.payload := by
        rw [← List.append_nil p.payload] at hrest
        exact (List.append_inj hrest hlen).left
      have hq : q = p := by
        cases q
        cases p
        dsimp only at htype hpayload ht
        rw [ht, intOfU32_u32OfInt hsmall.right.right.left hsmall.right.right.right] at htype
        rw [htype, hpayload]
      refine ⟨p, by rw [hq], hp, hsendable, ?_⟩
      rw [heq, hn, ht, hpayload]
      rfl

end Packets

end Daemon
end Runes
