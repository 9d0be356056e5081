import Runes.Protocol.Socket

/-!
This module contains what interrupted system calls do to the bytes of a packet. The loops add the
`-1` of such a call to their counter: in the middle of a packet a byte is moved twice, at its start
the counter wraps around and the loop ends.
-/

namespace Runes
namespace Protocol

/--
`calls` are the outcomes of the calls that are made to send some `len` bytes, with success.
-/
def WriteRun (len : Nat) (calls : List Outcome) : Prop :=
  ∃ buf sock sock', buf.length = len ∧ writeBytes buf calls sock = some ⟨true, [], sock'⟩

/--
With these outcomes a successful return means that the bytes were sent, each once and in order.
-/
def WritesExactly (len : Nat) (calls : List Outcome) : Prop :=
  ∀ buf sock rest sock', buf.length = len →
    writeBytes buf calls sock = some ⟨true, rest, sock'⟩ → sock'.stream = sock.stream ++ buf

/--
`calls` are the outcomes of the calls that are made to receive some `len` bytes, with success.
-/
def ReadRun (len : Nat) (calls : List Outcome) : Prop :=
  ∃ outbuf sock r, outbuf.length = len ∧ readBytes len calls ⟨sock, outbuf⟩ = some ⟨true, [], r⟩

/--
With these outcomes a successful return means that the next bytes of the stream were received.
-/
def ReadsExactly (len : Nat) (calls : List Outcome) : Prop :=
  ∀ outbuf sock rest r, outbuf.length = len →
    readBytes len calls ⟨sock, outbuf⟩ = some ⟨true, rest, r⟩ → r.outbuf = sock.stream.take len

variable {len : Nat} {calls : List Outcome}

section Write

theorem writesExactly_of_positive (hlt : len < 2 ^ 64) (hcalls : ∀ call ∈ calls, call.Positive)
    : WritesExactly len calls := by
  rintro buf sock rest sock' rfl hrun
  rcases writeBytes_positive buf hlt hcalls sock with ⟨hnone, _⟩ | ⟨_, r, hsome, _, _, _, hsent⟩
  . rw [hnone] at hrun
    cases hrun
  . rw [hsome] at hrun
    cases hrun
    exact hsent

theorem WriteRun.writeBytes (hlegal : ∀ call ∈ calls, call.Legal) (h : WriteRun len calls)
    {buf : List UInt8} (hbuf : buf.length = len) (sock : Sock)
    : ∃ sock', writeBytes buf calls sock = some ⟨true, [], sock'⟩ := by
  obtain ⟨buf₀, sock₀, sock₁, hlen, hrun⟩ := h
  unfold Protocol.writeBytes at hrun ⊢
  rw [hlen] at hrun
  rw [hbuf]
  apply transferBytes.go_sim (P := Outcome.Legal) (R := fun _ _ _ => True) _ hlegal trivial hrun
  rintro call bytes _ s t (⟨n, rfl, hpos⟩ | rfl) hlt _
  . dsimp only [send]
    rw [List.length_take, List.length_take, List.length_drop, List.length_drop]
    refine ⟨by omega, ?_, trivial⟩
    intro hle _
    omega
  . exact ⟨rfl, fun _ _ => rfl, trivial⟩

def lastByteSet (n : Nat) : List UInt8 := List.replicate n 0 ++ [1]

theorem not_mem_of_lastByteSet {n bytes k : Nat} (h : bytes + k ≤ n)
    : 1 ∉ ((lastByteSet n).drop bytes).take k := by
  unfold lastByteSet
  rw [List.drop_append_of_le_length (by rw [List.length_replicate]; omega)]
  rw [List.take_append_of_le_length (by rw [List.length_drop, List.length_replicate]; omega)]
  intro hmem
  have := List.eq_of_mem_replicate (List.mem_of_mem_drop (List.mem_of_mem_take hmem))
  cases this

/--
After an interruption more bytes have been sent than are counted. The last byte has not been sent
before the counter is at the end.
-/
structure Ahead (len : Nat) (done : List Outcome) (bytes : Nat) (sent : List UInt8) : Prop where
  inside : bytes < len →
    1 ∉ sent ∧ bytes ≤ sent.length ∧ (.fail .eintr ∈ done → bytes < sent.length)
  atEnd : len ≤ bytes → .fail .eintr ∈ done → 1 ∉ sent ∨ len < sent.length

theorem Ahead.send {n : Nat} (hn : n + 1 < 2 ^ 64) {done : List Outcome} {call : Outcome}
    {bytes : Nat} {sock : Sock} (hlegal : call.Legal) (hlt : bytes < n + 1)
    (h : Ahead (n + 1) done bytes sock.stream)
    : Ahead (n + 1) (done ++ [call])
        (addSize bytes (send ((lastByteSet n).drop bytes) call sock).1)
        (send ((lastByteSet n).drop bytes) call sock).2.stream := by
  obtain ⟨hnone, hle, hahead⟩ := h.inside hlt
  rcases hlegal with ⟨k, rfl, hpos⟩ | rfl
  . have hlen : (((lastByteSet n).drop bytes).take k).length = min k (n + 1 - bytes) := by
      simp [lastByteSet]
    dsimp only [Protocol.send]
    rw [hlen, addSize_of_lt (by omega)]
    constructor
    . intro hinside
      rw [List.mem_append, List.length_append, hlen]
      refine ⟨?_, by omega, ?_⟩
      . rintro (hmem | hmem)
        . exact hnone hmem
        . rw [List.take_eq_take_min, List.length_drop] at hmem
          apply not_mem_of_lastByteSet (n := n) _ hmem
          simp only [lastByteSet, List.length_append, List.length_replicate, List.length_singleton]
          omega
      . intro hmem
        have := hahead (by simpa using hmem)
        omega
    . intro hend hmem
      right
      have := hahead (by simpa using hmem)
      rw [List.length_append, hlen]
      omega
  . dsimp only [Protocol.send]
    cases bytes with
    | zero =>
      rw [addSize_zero_neg]
      constructor
      . intro hinside
        omega
      . intro _ _
        exact .inl hnone
    | succ bytes =>
      rw [addSize_succ_neg (by omega)]
      constructor
      . intro _
        exact ⟨hnone, by omega, fun _ => by omega⟩
      . intro hend
        omega

theorem not_writesExactly_of_interrupt (hlt : len < 2 ^ 64)
    (hlegal : ∀ call ∈ calls, call.Legal) (hrun : WriteRun len calls)
    (hmem : .fail .eintr ∈ calls)
    : ¬WritesExactly len calls := by
  intro hexact
  cases len with
  | zero =>
    obtain ⟨buf, sock, sock', hlen, hrun⟩ := hrun
    unfold writeBytes transferBytes transferBytes.go at hrun
    rw [hlen] at hrun
    cases hrun
    cases hmem
  | succ n =>
    have hlen : (lastByteSet n).length = n + 1 := by simp [lastByteSet]
    obtain ⟨sock', hsome⟩ := hrun.writeBytes hlegal hlen ⟨.other, []⟩
    have hsent := hexact _ _ _ _ hlen hsome
    rw [List.nil_append] at hsent
    unfold writeBytes transferBytes at hsome
    rw [hlen] at hsome
    obtain ⟨consumed, bytes, hsplit, hle, hend⟩ := transferBytes.go_rule
      (I := fun done bytes sock => Ahead (n + 1) done bytes sock.stream)
      (fun _ _ _ _ hl hb h => Ahead.send hlt hl hb h) hlegal
      (show Ahead (n + 1) [] 0 [] from ⟨by simp, by simp⟩) hsome
    rw [List.append_nil] at hsplit
    subst hsplit
    rcases hend.atEnd hle (by simpa using hmem) with hnone | hlong
    . rw [hsent] at hnone
      simp [lastByteSet] at hnone
    . rw [hsent, hlen] at hlong
      omega

end Write

section Read

theorem readsExactly_of_positive (hlt : len < 2 ^ 64) (hcalls : ∀ call ∈ calls, call.Positive)
    : ReadsExactly len calls := by
  rintro outbuf sock rest r rfl hrun
  have hstream := le_of_readBytes hlt hcalls hrun rfl
  rcases readBytes_positive outbuf hlt hcalls sock hstream
    with ⟨hnone, _⟩ | ⟨_, _, hsome, _, _, _, hreceived, _⟩
  . rw [hnone] at hrun
    cases hrun
  . rw [hsome] at hrun
    cases hrun
    exact hreceived

-- How many bytes a call moves depends on how many there are, and not on what they are.
theorem readBytes_of_length {r r' : Receiver} {rest : List Outcome} {stream : List UInt8}
    (hlegal : ∀ call ∈ calls, call.Legal) (hrun : readBytes len calls r = some ⟨true, rest, r'⟩)
    (hstream : stream.length = r.sock.stream.length) (outbuf : List UInt8)
    : ∃ r'', readBytes len calls ⟨⟨r.sock.errno, stream⟩, outbuf⟩ = some ⟨true, rest, r''⟩ := by
  unfold readBytes at hrun ⊢
  apply transferBytes.go_sim (P := Outcome.Legal) (R := fun _ r t =>
    r.sock.errno = t.sock.errno ∧ t.sock.stream.length = r.sock.stream.length) _ hlegal
    ⟨rfl, hstream⟩ hrun
  rintro call bytes k r t hcall hlt ⟨herrno, hlength⟩
  rcases hcall with ⟨n, rfl, hpos⟩ | rfl
  . dsimp only [recv]
    rw [List.length_take, List.length_take, List.length_drop, List.length_drop, hlength]
    exact ⟨rfl, fun _ h => herrno ▸ h, herrno, rfl⟩
  . exact ⟨rfl, fun _ _ => rfl, rfl, hlength⟩

def zerosThenOnes (n k : Nat) : List UInt8 := List.replicate n 0 ++ List.replicate k 1

theorem getElem?_zerosThenOnes {n k i : Nat} {b : UInt8} (h : (zerosThenOnes n k)[i]? = some b)
    (hi : n ≤ i)
    : b = 1 := by
  unfold zerosThenOnes at h
  rw [List.getElem?_append_right (by simpa using hi), List.getElem?_replicate] at h
  split at h
  . simpa using h.symm
  . cases h

structure Behind (n k : Nat) (done : List Outcome) (bytes : Nat) (r : Receiver) : Prop where
  size : r.outbuf.length = n + 1
  inside : bytes < n + 1 →
    r.outbuf[n]? = some 1 ∧ ∃ taken, r.sock.stream = (zerosThenOnes (n + 1) k).drop taken ∧
      bytes ≤ taken ∧ (.fail .eintr ∈ done → bytes < taken)
  atEnd : n + 1 ≤ bytes → .fail .eintr ∈ done → r.outbuf[n]? = some 1

theorem Behind.recv {n k : Nat} (hn : n + 1 < 2 ^ 64) {done : List Outcome} {call : Outcome}
    {bytes : Nat} {r : Receiver} (hlegal : call.Legal) (hlt : bytes < n + 1)
    (h : Behind n k done bytes r)
    : Behind n k (done ++ [call])
        (addSize bytes (recv bytes (n + 1 - bytes) call r).1)
        (recv bytes (n + 1 - bytes) call r).2 := by
  obtain ⟨hlast, taken, hstream, hle, hbehind⟩ := h.inside hlt
  have hsize := h.size
  rcases hlegal with ⟨m, rfl, hpos⟩ | rfl
  . dsimp only [Protocol.recv]
    generalize hmoved : r.sock.stream.take (min m (n + 1 - bytes)) = moved
    have hcount : moved.length ≤ n + 1 - bytes := by
      rw [← hmoved, List.length_take]
      omega
    have htake : (r.outbuf.take bytes).length = bytes := by
      rw [List.length_take]
      omega
    rw [addSize_of_lt (by omega)]
    constructor
    . simp only [List.length_append, List.length_drop, htake]
      omega
    . intro hinside
      dsimp only
      constructor
      . rw [List.getElem?_append_right (by omega), List.getElem?_append_right (by omega)]
        rw [List.getElem?_drop, htake, ← hlast]
        congr 1
        omega
      . refine ⟨taken + moved.length, ?_, by omega, ?_⟩
        . rw [hstream, List.drop_drop]
        . intro hmem
          have := hbehind (by simpa using hmem)
          omega
    . intro hend hmem
      have hahead := hbehind (by simpa using hmem)
      dsimp only
      rw [List.getElem?_append_right (by omega), List.getElem?_append_left (by omega), htake]
      obtain ⟨b, hb⟩ : ∃ b, moved[n - bytes]? = some b :=
        ⟨_, List.getElem?_eq_getElem (by omega)⟩
      have hget := hb
      rw [← hmoved, hstream, List.getElem?_take_of_lt, List.getElem?_drop] at hget
      . rw [hb, getElem?_zerosThenOnes hget (by omega)]
      . rw [← hmoved, List.length_take] at hend
        omega
  . dsimp only [Protocol.recv]
    cases bytes with
    | zero =>
      rw [addSize_zero_neg]
      refine ⟨hsize, by omega, ?_⟩
      intro _ _
      exact hlast
    | succ bytes =>
      rw [addSize_succ_neg (by omega)]
      refine ⟨hsize, ?_, by omega⟩
      intro _
      exact ⟨hlast, taken, hstream, by omega, fun _ => by omega⟩

def Sized (len : Nat) (_ : List Outcome) (_ : Nat) (r : Receiver) : Prop := r.outbuf.length = len

theorem Sized.recv {made : List Outcome} {call : Outcome} {bytes : Nat} {r : Receiver}
    (hlegal : call.Legal) (hlt : bytes < len) (h : Sized len made bytes r)
    : Sized len (made ++ [call]) (addSize bytes (recv bytes (len - bytes) call r).1)
        (recv bytes (len - bytes) call r).2 := by
  unfold Sized at *
  rcases hlegal with ⟨n, rfl, _⟩ | rfl
  . dsimp only [Protocol.recv]
    simp only [List.length_append, List.length_take, List.length_drop]
    omega
  . exact h

theorem readBytes_length (hlegal : ∀ call ∈ calls, call.Legal) {r r' : Receiver} {rest : List Outcome}
    (houtbuf : r.outbuf.length = len) (hrun : readBytes len calls r = some ⟨true, rest, r'⟩)
    : r'.outbuf.length = len := by
  unfold readBytes transferBytes at hrun
  have hstart : Sized len [] 0 r := houtbuf
  obtain ⟨_, _, _, _, hsize⟩ := transferBytes.go_rule
    (fun _ _ _ _ hl hb h => Sized.recv hl hb h) hlegal hstart hrun
  exact hsize

theorem not_readsExactly_of_interrupt (hlt : len < 2 ^ 64)
    (hlegal : ∀ call ∈ calls, call.Legal) (hrun : ReadRun len calls)
    (hmem : .fail .eintr ∈ calls)
    : ¬ReadsExactly len calls := by
  intro hexact
  obtain ⟨outbuf, sock, r, hlen, hrun⟩ := hrun
  cases len with
  | zero =>
    unfold readBytes transferBytes transferBytes.go at hrun
    cases hrun
    cases hmem
  | succ n =>
    have hsize := readBytes_length hlegal hlen hrun
    rw [hexact _ _ _ _ hlen hrun, List.length_take] at hsize
    -- as many bytes as there were, but those behind the ones to be read are others
    obtain ⟨k, hk⟩ : ∃ k, sock.stream.length = n + 1 + k := ⟨sock.stream.length - (n + 1), by omega⟩
    have hstream : (zerosThenOnes (n + 1) k).length = sock.stream.length := by
      simp [zerosThenOnes, hk]
    have hbuf : (List.replicate (n + 1) (1 : UInt8)).length = n + 1 := List.length_replicate
    obtain ⟨r', hsome⟩ := readBytes_of_length hlegal hrun hstream (List.replicate (n + 1) 1)
    have hreceived := hexact _ _ _ _ hbuf hsome
    unfold readBytes transferBytes at hsome
    obtain ⟨consumed, bytes, hsplit, hle, hend⟩ := transferBytes.go_rule
      (I := fun done bytes r => Behind n k done bytes r)
      (fun _ _ _ _ hl hb h => Behind.recv hlt hl hb h) hlegal
      (show Behind n k [] 0 _ from
        ⟨hbuf, fun _ => ⟨by simp, 0, by simp, by simp, by simp⟩, by simp⟩)
      hsome
    rw [List.append_nil] at hsplit
    subst hsplit
    have hlast := hend.atEnd hle (by simpa using hmem)
    rw [hreceived] at hlast
    simp [zerosThenOnes] at hlast

end Read

/--
The loops are transparent to short transfers. They are not to interruptions: whatever run it is that
returns `1` after one, there are data on which it has gone wrong.
-/
theorem transparent_iff (hlt : len < 2 ^ 64) (hlegal : ∀ call ∈ calls, call.Legal)
    : (WriteRun len calls → (WritesExactly len calls ↔ .fail .eintr ∉ calls))
        ∧
      (ReadRun len calls → (ReadsExactly len calls ↔ .fail .eintr ∉ calls)) := by
  constructor
  . intro hrun
    constructor
    . intro hexact hmem
      apply not_writesExactly_of_interrupt hlt hlegal hrun hmem hexact
    . intro hnone
      apply writesExactly_of_positive hlt (positive_of_legal hlegal hnone)
  . intro hrun
    constructor
    . intro hexact hmem
      apply not_readsExactly_of_interrupt hlt hlegal hrun hmem hexact
    . intro hnone
      apply readsExactly_of_positive hlt (positive_of_legal hlegal hnone)

theorem transparent_three
    : WritesExactly 3 [.transfer 1, .transfer 2] ∧ ReadsExactly 3 [.transfer 1, .transfer 2] := by
  have hlegal : ∀ call ∈ [Outcome.transfer 1, .transfer 2], call.Legal := by
    intro call hcall
    left
    rcases List.mem_cons.mp hcall with rfl | hcall
    . exact ⟨1, rfl, by decide⟩
    . exact ⟨2, List.mem_singleton.mp hcall, by decide⟩
  have hiff := transparent_iff (show 3 < 2 ^ 64 by decide) hlegal
  constructor
  . exact (hiff.left ⟨[1, 2, 3], ⟨.other, []⟩, ⟨.other, [1, 2, 3]⟩, rfl, by decide⟩).mpr
      (by decide)
  . exact (hiff.right ⟨[0, 0, 0], ⟨.other, [1, 2, 3]⟩, ⟨⟨.other, []⟩, [1, 2, 3]⟩, rfl,
      by decide⟩).mpr (by decide)

theorem not_transparent
    : writeBytes [65] [.fail .eintr] ⟨.other, []⟩ = some ⟨true, [], ⟨.eintr, []⟩⟩
        ∧
      writeBytes [65, 66] [.transfer 1, .fail .eintr, .transfer 2] ⟨.other, []⟩
          = some ⟨true, [], ⟨.eintr, [65, 65, 66]⟩⟩
        ∧
      readBytes 1 [.fail .eintr] ⟨⟨.other, [65]⟩, [0]⟩
          = some ⟨true, [], ⟨⟨.eintr, [65]⟩, [0]⟩⟩
        ∧
      ¬WritesExactly 1 [.fail .eintr]
        ∧
      ¬ReadsExactly 1 [.fail .eintr] := by
  refine ⟨by decide, by decide, by decide, ?_, ?_⟩
  . intro hexact
    have := hexact [65] ⟨.other, []⟩ [] ⟨.eintr, []⟩ rfl (by decide)
    cases this
  . intro hexact
    have := hexact [0] ⟨.other, [65]⟩ [] ⟨⟨.eintr, [65]⟩, [0]⟩ rfl (by decide)
    cases this

end Protocol
end Runes
