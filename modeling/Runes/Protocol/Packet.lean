import Runes.Protocol.Basic
import Runes.Protocol.Socket

/-!
This module contains the framing of packets on a connection and the proof that the receiver takes
the packets apart as the sender has put them together.
-/

namespace Runes
namespace Protocol

open Wire

def numMessageTypes : Int := 2

structure Packet where
  type : Int
  payload : List UInt8
  deriving DecidableEq

def sendPacket (p : Packet) (calls : List Outcome) (sock : Sock) : Option (Returned Bool Sock) :=
  if p.payload.length > maxPacketSize then
    return ⟨false, calls, sock⟩
  else if p.type < 0 ∨ p.type ≥ numMessageTypes then
    return ⟨false, calls, sock⟩
  else do
    let r ← writeBytes (be32 (.ofNat p.payload.length)) calls sock
    if r.result then
      let r ← writeBytes (be32 (u32OfInt p.type)) r.calls r.state
      if r.result then
        writeBytes p.payload r.calls r.state
      else
        return r
    else
      return r

/-- What is in memory that nothing was stored to yet, by the number of its bytes. -/
def Garbage := (n : Nat) → { bytes : List UInt8 // bytes.length = n }

def readPacket (garbage : Garbage) (calls : List Outcome) (sock : Sock)
    : Option (Returned (Option Packet) Sock) := do
  let r ← readBytes 4 calls ⟨sock, garbage 4⟩
  if r.result then
    let len := ofBE32 r.state.outbuf
    let r ← readBytes 4 r.calls ⟨r.state.sock, garbage 4⟩
    if r.result then
      let type := ofBE32 r.state.outbuf
      if len.toNat > maxPacketSize then
        return ⟨none, r.calls, r.state.sock⟩
      else
        let r ← readBytes len.toNat r.calls ⟨r.state.sock, garbage len.toNat⟩
        if r.result then
          return ⟨some ⟨intOfU32 type, r.state.outbuf⟩, r.calls, r.state.sock⟩
        else
          return ⟨none, r.calls, r.state.sock⟩
    else
      return ⟨none, r.calls, r.state.sock⟩
  else
    return ⟨none, r.calls, r.state.sock⟩

def sendPackets (packets : List Packet) (calls : List Outcome) (sock : Sock)
    : Option (Returned (List Bool) Sock) :=
  match packets with
  | [] => return ⟨[], calls, sock⟩
  | p :: packets => do
    let r ← sendPacket p calls sock
    let rs ← sendPackets packets r.calls r.state
    return ⟨r.result :: rs.result, rs.calls, rs.state⟩

def readPackets (garbage : Garbage) (n : Nat) (calls : List Outcome) (sock : Sock)
    : Option (Returned (List (Option Packet)) Sock) :=
  match n with
  | 0 => return ⟨[], calls, sock⟩
  | n + 1 => do
    let r ← readPacket garbage calls sock
    let rs ← readPackets garbage n r.calls r.state
    return ⟨r.result :: rs.result, rs.calls, rs.state⟩

def Packet.sendable (p : Packet) : Bool :=
  p.payload.length ≤ maxPacketSize ∧ 0 ≤ p.type ∧ p.type < numMessageTypes

def Packet.encode (p : Packet) : List UInt8 :=
  be32 (.ofNat p.payload.length) ++ (be32 (u32OfInt p.type) ++ p.payload)

def wire (packets : List Packet) : List UInt8 := (packets.filter Packet.sendable).flatMap Packet.encode

section Send

variable {calls : List Outcome}

theorem sendPacket_of_not_sendable {p : Packet} (h : p.sendable = false) (calls : List Outcome)
    (sock : Sock)
    : sendPacket p calls sock = some ⟨false, calls, sock⟩ := by
  unfold sendPacket
  split
  . rfl
  . split
    . rfl
    . simp only [Packet.sendable, decide_eq_false_iff_not] at h
      omega

theorem positive_of_suffix {rest : List Outcome} (hcalls : ∀ call ∈ calls, call.Positive)
    (h : rest <:+ calls)
    : ∀ call ∈ rest, call.Positive := fun call hcall => hcalls call (h.subset hcall)

theorem sendPacket_of_sendable {p : Packet} (h : p.sendable = true)
    (hcalls : ∀ call ∈ calls, call.Positive) (sock : Sock)
    : Completes p.encode.length calls (sendPacket p calls sock)
        (fun result sock' => result = true ∧ sock'.stream = sock.stream ++ p.encode) := by
  simp only [Packet.sendable, decide_eq_true_eq] at h
  have hlen : p.payload.length < 2 ^ 64 := by
    unfold maxPacketSize at h
    omega
  unfold sendPacket Packet.encode
  rw [if_neg (by omega), if_neg (by omega), List.length_append]
  apply Completes.bind (writeBytes_positive _ (by simp) hcalls sock)
  rintro ⟨result, rest, sock₁⟩ hsuffix ⟨hresult, hsent⟩
  dsimp only at hresult hsent hsuffix
  have hcalls₁ := positive_of_suffix hcalls hsuffix
  dsimp only
  rw [if_pos hresult, List.length_append]
  apply Completes.bind (writeBytes_positive _ (by simp) hcalls₁ sock₁)
  rintro ⟨result₂, rest₂, sock₂⟩ hsuffix₂ ⟨hresult₂, hsent₂⟩
  dsimp only at hresult₂ hsent₂ hsuffix₂
  have hcalls₂ := positive_of_suffix hcalls₁ hsuffix₂
  dsimp only
  rw [if_pos hresult₂]
  apply (writeBytes_positive _ hlen hcalls₂ sock₂).imp
  rintro result₃ sock₃ ⟨hresult₃, hsent₃⟩
  exact ⟨hresult₃, by rw [hsent₃, hsent₂, hsent]; simp⟩

theorem sendPackets_completes (packets : List Packet) (hcalls : ∀ call ∈ calls, call.Positive)
    (sock : Sock)
    : Completes (wire packets).length calls (sendPackets packets calls sock)
        (fun results sock' => results = packets.map Packet.sendable ∧
          sock'.stream = sock.stream ++ wire packets) := by
  induction packets generalizing calls sock with
  | nil =>
    unfold sendPackets
    exact Completes.done ⟨rfl, by simp [wire]⟩
  | cons p packets ih =>
    unfold sendPackets
    cases hsendable : p.sendable with
    | false =>
      rw [sendPacket_of_not_sendable hsendable]
      have hwire : wire (p :: packets) = wire packets := by simp [wire, hsendable]
      rw [hwire]
      apply Completes.bind (n := 0) (ih hcalls sock)
      rintro r hsuffix ⟨hresults, hsent⟩
      exact Completes.done ⟨by simp [hresults, hsendable], hsent⟩
    | true =>
      have hwire : wire (p :: packets) = p.encode ++ wire packets := by simp [wire, hsendable]
      rw [hwire, List.length_append]
      apply Completes.bind (sendPacket_of_sendable hsendable hcalls sock)
      rintro r hsuffix ⟨hresult, hsent⟩
      apply Completes.bind (n := 0) (ih (positive_of_suffix hcalls hsuffix) r.state)
      rintro rs hsuffix' ⟨hresults, hsent'⟩
      exact Completes.done ⟨by simp [hresult, hresults, hsendable], by simp [hsent', hsent]⟩

end Send

section Receive

variable {calls : List Outcome}

theorem readBytes_garbage (garbage : Garbage) {front rest : List UInt8} {n : Nat}
    (hn : front.length = n) (hlt : n < 2 ^ 64) (hcalls : ∀ call ∈ calls, call.Positive)
    {sock : Sock} (hstream : sock.stream = front ++ rest)
    : Completes n calls (readBytes n calls ⟨sock, garbage n⟩)
        (fun result r => result = true ∧ r.outbuf = front ∧ r.sock.stream = rest) := by
  have hsize := (garbage n).property
  have hread := readBytes_positive (garbage n).val (by omega) hcalls sock
    (by rw [hstream, List.length_append]; omega)
  rw [hsize, hstream, ← hn, List.take_left, List.drop_left] at hread
  rw [hn] at hread
  exact hread

theorem intOfU32_u32OfInt {i : Int} (hpos : 0 ≤ i) (hlt : i < 2 ^ 31) : intOfU32 (u32OfInt i) = i := by
  unfold intOfU32 u32OfInt
  rw [UInt32.toNat_ofNat']
  split
  . omega
  . omega

theorem readPacket_completes (garbage : Garbage) {p : Packet} (h : p.sendable = true)
    (hcalls : ∀ call ∈ calls, call.Positive) {rest : List UInt8} {sock : Sock}
    (hstream : sock.stream = p.encode ++ rest)
    : Completes p.encode.length calls (readPacket garbage calls sock)
        (fun result sock' => result = some p ∧ sock'.stream = rest) := by
  simp only [Packet.sendable, decide_eq_true_eq] at h
  unfold numMessageTypes at h
  have hsmall : p.payload.length < 2 ^ 32 := by
    unfold maxPacketSize at h
    omega
  have hlen : (UInt32.ofNat p.payload.length).toNat = p.payload.length :=
    toNat_ofNat_length _ hsmall
  have hcount : p.encode.length = 4 + (4 + (p.payload.length + 0)) := by simp [Packet.encode]
  simp only [Packet.encode, List.append_assoc] at hstream
  rw [hcount]
  unfold readPacket
  apply Completes.bind (readBytes_garbage garbage (by simp) (by omega) hcalls hstream)
  rintro r hsuffix ⟨hresult, hout, hrest⟩
  have hcalls₁ := positive_of_suffix hcalls hsuffix
  rw [if_pos hresult, hout]
  apply Completes.bind (readBytes_garbage garbage (by simp) (by omega) hcalls₁ hrest)
  rintro r₂ hsuffix₂ ⟨hresult₂, hout₂, hrest₂⟩
  have hcalls₂ := positive_of_suffix hcalls₁ hsuffix₂
  dsimp only
  rw [if_pos hresult₂, hout₂, ofBE32_be32, ofBE32_be32, hlen, if_neg (by omega)]
  apply Completes.bind (readBytes_garbage garbage rfl (by omega) hcalls₂ hrest₂)
  rintro r₃ hsuffix₃ ⟨hresult₃, hout₃, hrest₃⟩
  rw [if_pos hresult₃, hout₃, intOfU32_u32OfInt (by omega) (by omega)]
  exact Completes.done ⟨rfl, hrest₃⟩

theorem readPackets_completes (garbage : Garbage) {packets : List Packet}
    (h : ∀ p ∈ packets, p.sendable = true) (hcalls : ∀ call ∈ calls, call.Positive)
    {rest : List UInt8} {sock : Sock}
    (hstream : sock.stream = packets.flatMap Packet.encode ++ rest)
    : Completes (packets.flatMap Packet.encode).length calls
        (readPackets garbage packets.length calls sock)
        (fun results sock' => results = packets.map some ∧ sock'.stream = rest) := by
  induction packets generalizing calls sock with
  | nil => exact Completes.done ⟨rfl, by simpa using hstream⟩
  | cons p packets ih =>
    rw [List.flatMap_cons, List.append_assoc] at hstream
    rw [List.flatMap_cons, List.length_append, List.length_cons]
    unfold readPackets
    apply Completes.bind (readPacket_completes garbage (h p (by simp)) hcalls hstream)
    rintro r hsuffix ⟨hresult, hrest⟩
    apply Completes.bind (n := 0) (ih (fun q hq => h q (by simp [hq]))
      (positive_of_suffix hcalls hsuffix) hrest)
    rintro rs hsuffix' ⟨hresults, hrest'⟩
    exact Completes.done ⟨by simp [hresult, hresults], hrest'⟩

end Receive

/--
However the bytes are split on their way in and on their way out, the receiver reads the packets that
were sent, in their order, and then there is nothing left to read. Neither end waits for more calls
than there are bytes.
-/
theorem packets_roundTrip (packets : List Packet) (garbage : Garbage) (outs ins : List Outcome)
    (houts : ∀ call ∈ outs, call.Positive) (hins : ∀ call ∈ ins, call.Positive)
    (errno errno' : Errno)
    : Completes (wire packets).length outs (sendPackets packets outs ⟨errno, []⟩)
        (fun results sock => results = packets.map Packet.sendable ∧
          Completes (wire packets).length ins
            (readPackets garbage (results.count true) ins ⟨errno', sock.stream⟩)
            (fun received sock' =>
              received = (packets.filter Packet.sendable).map some ∧ sock'.stream = []))
        ∧
      ∀ p ∈ packets, p.sendable = false →
        ∀ calls sock, sendPacket p calls sock = some ⟨false, calls, sock⟩ := by
  constructor
  . apply (sendPackets_completes packets houts ⟨errno, []⟩).imp
    rintro results sock ⟨rfl, hsent⟩
    refine ⟨rfl, ?_⟩
    have hcount : (packets.map Packet.sendable).count true
        = (packets.filter Packet.sendable).length := by
      rw [List.count_eq_countP, List.countP_map, List.countP_eq_length_filter]
      congr 2
      funext p
      simp
    rw [hcount, hsent]
    apply readPackets_completes garbage (fun p hp => (List.mem_filter.mp hp).right) hins
    simp [wire]
  . intro p _ hrefused calls sock
    apply sendPacket_of_not_sendable hrefused calls sock

def zeroGarbage : Garbage := fun n => ⟨List.replicate n 0, List.length_replicate⟩

/-- The second packet has a type that there is not. -/
def threePackets : List Packet := [⟨0, [7, 8]⟩, ⟨5, [1]⟩, ⟨1, []⟩]

def threeOuts : List Outcome :=
  [.transfer 3, .transfer 9, .transfer 4, .transfer 1, .transfer 8, .transfer 4, .transfer 2, .transfer 2]

def threeIns : List Outcome :=
  [.transfer 1, .transfer 3, .transfer 2, .transfer 2, .transfer 7, .transfer 4, .transfer 1, .transfer 1,
    .transfer 2]

def threeSent : List UInt8 := [0, 0, 0, 2, 0, 0, 0, 0, 7, 8, 0, 0, 0, 0, 0, 0, 0, 1]

theorem packets_roundTrip_three
    : sendPackets threePackets threeOuts ⟨.other, []⟩
          = some ⟨[true, false, true], [], ⟨.other, threeSent⟩⟩
        ∧
      ∃ rest sock, readPackets zeroGarbage 2 threeIns ⟨.other, threeSent⟩
          = some ⟨[some ⟨0, [7, 8]⟩, some ⟨1, []⟩], rest, sock⟩
        ∧
      sock.stream = [] := by
  have houts : ∀ call ∈ threeOuts, call.Positive := by simp [threeOuts, Outcome.Positive]
  have hins : ∀ call ∈ threeIns, call.Positive := by simp [threeIns, Outcome.Positive]
  have hsend : sendPackets threePackets threeOuts ⟨.other, []⟩
      = some ⟨[true, false, true], [], ⟨.other, threeSent⟩⟩ := by decide +kernel
  have hread : (readPackets zeroGarbage 2 threeIns ⟨.other, threeSent⟩).isSome = true := by decide +kernel
  refine ⟨hsend, ?_⟩
  rcases (packets_roundTrip threePackets zeroGarbage threeOuts threeIns houts hins .other .other).left
    with ⟨hnone, _⟩ | ⟨_, _, hsent, _, _, _, hreceived⟩
  . rw [hsend] at hnone
    cases hnone
  . rw [hsend] at hsent
    cases hsent
    rcases hreceived with ⟨hnone, _⟩ | ⟨_, ⟨results, rest, sock⟩, hsome, _, _, hresults, hempty⟩
    . change readPackets zeroGarbage 2 threeIns ⟨.other, threeSent⟩ = none at hnone
      rw [hnone] at hread
      cases hread
    . have hthere : results = [some ⟨0, [7, 8]⟩, some ⟨1, []⟩] := hresults
      exact ⟨rest, sock, hthere ▸ hsome, hempty⟩

end Protocol
end Runes
