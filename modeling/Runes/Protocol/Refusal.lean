import Runes.Protocol.Field

/-!
This module contains what becomes of a packet that the peer does not finish before it closes the
connection. At the end of the stream `recv` returns `0` and leaves `errno` as it is, so it is an earlier
call that decides whether the loop goes on.
-/

namespace Runes
namespace Protocol

open Wire

-- A call at the end of the stream. Before the end it moves a byte.
abbrev atEnd : Outcome := .transfer 1

/-- The packet is refused, after the calls and some more for which there only is the rest of the stream. -/
def Refuses (garbage : Garbage) (calls : List Outcome) (sock : Sock) : Prop :=
  ∃ n r, readPacket garbage (calls ++ List.replicate n atEnd) sock = some r ∧ r.result = none

/-- All of the calls are made. -/
def AllMade (garbage : Garbage) (calls : List Outcome) (sock : Sock) : Prop :=
  ∀ r, readPacket garbage calls sock = some r → r.calls = []

/-- The stream ends before the packet that it announces. -/
def Short (stream : List UInt8) : Prop :=
  stream.length < 8 + (ofBE32 (stream.take 4)).toNat

/--
The turns of the calls for the two numbers in front of the payload: each number comes to its end, and what
was received for the first one is too big.
-/
structure AnnouncesTooBig (garbage : Garbage) (sock : Sock) (len type : List Turn) : Prop where
  lenReads : Reads sock.errno 4 sock.stream.length len
  typeReads : Reads (if 0 < interruptions len then .eintr else sock.errno) 4
    (sock.stream.length - received len) type
  big : maxPacketSize < (ofBE32 (held (garbage 4) sock.stream len 4)).toNat

/-- The calls come to the check of the size, with one that is too big. -/
def TooBig (garbage : Garbage) (calls : List Outcome) (sock : Sock) : Prop :=
  ∃ (n : Nat) (len type : List Turn) (rest : List Outcome),
    calls ++ List.replicate n atEnd
        = len.reverse.map Turn.call ++ (type.reverse.map Turn.call ++ rest)
      ∧ AnnouncesTooBig garbage sock len type

-- The same in terms of what the loops return
def DeliversTooBig (garbage : Garbage) (calls : List Outcome) (sock : Sock) : Prop :=
  ∃ len type, readBytes 4 calls ⟨sock, garbage 4⟩ = some len ∧ len.result = true
    ∧ readBytes 4 len.calls ⟨len.state.sock, garbage 4⟩ = some type ∧ type.result = true
    ∧ maxPacketSize < (ofBE32 len.state.outbuf).toNat

section Streams

variable {α β σ τ : Type} {m : List Outcome → Option (Returned α σ)}

/-- `m` takes the outcomes from the front and does not look at those that it leaves. -/
structure Streams (m : List Outcome → Option (Returned α σ)) : Prop where
  leaves : ∀ calls r, m calls = some r → r.calls <:+ calls
  more : ∀ calls tail r, m calls = some r →
    m (calls ++ tail) = some { r with calls := r.calls ++ tail }
  waits : ∀ calls tail r, m calls = none → m (calls ++ tail) = some r → r.calls <:+ tail

namespace Streams

theorem done (a : α) (s : σ) : Streams (fun calls => pure ⟨a, calls, s⟩) where
  leaves calls r h := by
    cases h
    exact List.suffix_refl calls
  more calls tail r h := by
    cases h
    rfl
  waits calls tail r h := by cases h

theorem bind {f : Returned α σ → Option (Returned β τ)} (hm : Streams m)
    (hf : ∀ a s, Streams (fun calls => f ⟨a, calls, s⟩))
    : Streams (fun calls => m calls >>= f) where
  leaves calls r h := by
    obtain ⟨r₁, hr₁, hr⟩ := Option.bind_eq_some_iff.mp h
    exact ((hf r₁.result r₁.state).leaves _ _ hr).trans (hm.leaves _ _ hr₁)
  more calls tail r h := by
    obtain ⟨r₁, hr₁, hr⟩ := Option.bind_eq_some_iff.mp h
    rw [hm.more calls tail r₁ hr₁]
    exact (hf r₁.result r₁.state).more _ tail _ hr
  waits calls tail r h h' := by
    cases hr₁ : m calls with
    | none =>
      obtain ⟨r₂, hr₂, hr⟩ := Option.bind_eq_some_iff.mp h'
      exact ((hf r₂.result r₂.state).leaves _ _ hr).trans (hm.waits calls tail r₂ hr₁ hr₂)
    | some r₁ =>
      rw [hr₁] at h
      rw [hm.more calls tail r₁ hr₁] at h'
      exact (hf r₁.result r₁.state).waits _ tail _ h h'

end Streams

theorem transferBytes.go_leaves {syscall : Outcome → Nat → σ → Int × σ} {errno : σ → Errno}
    {len bytes : Nat} {s : σ} {calls : List Outcome} {r : Returned Bool σ}
    (h : go syscall errno len calls bytes s = some r)
    : r.calls <:+ calls := by
  fun_induction go syscall errno len calls bytes s with
  | case1 => cases h
  | case2 bytes s hlt call calls n s' hcall hstop =>
    cases h
    exact List.suffix_cons call calls
  | case3 bytes s hlt call calls n s' hcall hstop ih =>
    exact (ih h).trans (List.suffix_cons call calls)
  | case4 =>
    cases h
    exact List.suffix_refl _

theorem transferBytes.go_streams (syscall : Outcome → Nat → σ → Int × σ) (errno : σ → Errno)
    (len bytes : Nat) (s : σ)
    : Streams (fun calls => go syscall errno len calls bytes s) where
  leaves calls r h := go_leaves h
  more calls tail r h := by
    fun_induction go syscall errno len calls bytes s with
    | case1 => cases h
    | case2 bytes s hlt call calls n s' hcall hstop =>
      cases h
      rw [List.cons_append, go, if_pos hlt]
      dsimp only
      rw [hcall]
      dsimp only
      rw [if_pos hstop]
    | case3 bytes s hlt call calls n s' hcall hstop ih =>
      rw [List.cons_append, go, if_pos hlt]
      dsimp only
      rw [hcall]
      dsimp only
      rw [if_neg hstop, ih h]
    | case4 calls bytes s hend =>
      cases h
      unfold go
      rw [if_neg hend]
  waits calls tail r h h' := by
    fun_induction go syscall errno len calls bytes s with
    | case1 => exact go_leaves h'
    | case2 bytes s hlt call calls n s' hcall hstop => cases h
    | case3 bytes s hlt call calls n s' hcall hstop ih =>
      apply ih h
      rw [List.cons_append, go, if_pos hlt] at h'
      dsimp only at h'
      rw [hcall] at h'
      dsimp only at h'
      rwa [if_neg hstop] at h'
    | case4 => cases h

theorem readBytes_streams (len : Nat) (r : Receiver) : Streams (fun calls => readBytes len calls r) :=
  transferBytes.go_streams _ _ len 0 r

theorem readPacket_streams (garbage : Garbage) (sock : Sock)
    : Streams (fun calls => readPacket garbage calls sock) := by
  apply (readBytes_streams 4 ⟨sock, garbage 4⟩).bind
  rintro (_ | _) r
  . apply Streams.done none r.sock
  . simp only [if_true]
    apply (readBytes_streams 4 ⟨r.sock, garbage 4⟩).bind
    rintro (_ | _) r'
    . apply Streams.done none r'.sock
    . simp only [if_true]
      by_cases hbig : (ofBE32 r.outbuf).toNat > maxPacketSize
      . simp only [if_true, hbig]
        apply Streams.done none r'.sock
      . simp only [if_false, hbig]
        apply (readBytes_streams _ ⟨r'.sock, garbage _⟩).bind
        rintro (_ | _) r''
        . apply Streams.done none r''.sock
        . apply Streams.done (some (Packet.mk (intOfU32 (ofBE32 r'.outbuf)) r''.outbuf)) r''.sock

-- If all of `calls` are made, they are also made when there are more.
theorem AllMade.leaves {garbage : Garbage} {calls tail : List Outcome} {sock : Sock}
    {r : Returned (Option Packet) Sock} (hmade : AllMade garbage calls sock)
    (h : readPacket garbage (calls ++ tail) sock = some r)
    : r.calls <:+ tail := by
  have hstreams := readPacket_streams garbage sock
  cases hcalls : readPacket garbage calls sock with
  | none => exact hstreams.waits calls tail r hcalls h
  | some r' =>
    have hmore := hstreams.more calls tail r' hcalls
    rw [hmore, hmade r' hcalls, List.nil_append] at h
    cases h
    exact List.suffix_refl tail

end Streams

section Errno

variable {garbage : Garbage} {calls tail : List Outcome} {len : Nat}

/-- What a run leaves in `errno`. -/
def Marked (calls rest : List Outcome) (before after : Errno) : Prop :=
  ∃ made, calls = made ++ rest ∧ (after = .eintr ↔ before = .eintr ∨ .fail .eintr ∈ made)

theorem Marked.trans {rest rest' : List Outcome} {e e' e'' : Errno} (h : Marked calls rest e e')
    (h' : Marked rest rest' e' e'')
    : Marked calls rest' e e'' := by
  obtain ⟨made, rfl, hmark⟩ := h
  obtain ⟨made', rfl, hmark'⟩ := h'
  refine ⟨made ++ made', (List.append_assoc _ _ _).symm, ?_⟩
  rw [hmark', hmark, List.mem_append, or_assoc]

theorem recv_errno {call : Outcome} (hlegal : call.Legal) (bytes request : Nat) (r : Receiver)
    : (recv bytes request call r).2.sock.errno = .eintr
        ↔ r.sock.errno = .eintr ∨ call = .fail .eintr := by
  rcases hlegal with ⟨n, rfl, _⟩ | rfl
  . unfold recv
    simp
  . unfold recv
    simp

theorem readBytes_marked (hlegal : ∀ call ∈ calls, call.Legal) {r : Receiver}
    {r' : Returned Bool Receiver} (h : readBytes len calls r = some r')
    : Marked calls r'.calls r.sock.errno r'.state.sock.errno
        ∧ (r'.result = false → r'.state.sock.errno ≠ .eintr) := by
  unfold readBytes transferBytes at h
  generalize 0 = bytes at h
  fun_induction transferBytes.go (fun call bytes r => recv bytes (len - bytes) call r)
    (fun r => r.sock.errno) len calls bytes r with
  | case1 => cases h
  | case2 bytes r hlt call calls n s hcall hstop =>
    have hmark := recv_errno (hlegal call List.mem_cons_self) bytes (len - bytes) r
    rw [hcall] at hmark
    cases h
    refine ⟨⟨[call], rfl, ?_⟩, fun _ => hstop.right⟩
    rw [hmark, List.mem_singleton, eq_comm (a := call)]
  | case3 bytes r hlt call calls n s hcall hstop ih =>
    have hmark := recv_errno (hlegal call List.mem_cons_self) bytes (len - bytes) r
    rw [hcall] at hmark
    have ⟨hrest, hfalse⟩ := ih (fun c hc => hlegal c (List.mem_cons_of_mem call hc)) h
    refine ⟨Marked.trans ⟨[call], rfl, ?_⟩ hrest, hfalse⟩
    rw [hmark, List.mem_singleton, eq_comm (a := call)]
  | case4 =>
    cases h
    exact ⟨⟨[], rfl, by simp⟩, by simp⟩

theorem Marked.legal {rest : List Outcome} {e e' : Errno} (h : Marked calls rest e e')
    (hlegal : ∀ call ∈ calls, call.Legal)
    : ∀ call ∈ rest, call.Legal := by
  obtain ⟨made, rfl, _⟩ := h
  intro call hcall
  exact hlegal call (List.mem_append_right made hcall)

-- A packet is only refused with an `errno` that says so, or for its size.
theorem readPacket_marked (hlegal : ∀ call ∈ calls, call.Legal) {sock : Sock}
    {r : Returned (Option Packet) Sock} (h : readPacket garbage calls sock = some r)
    : Marked calls r.calls sock.errno r.state.errno
        ∧ (r.result = none →
          r.state.errno ≠ .eintr ∨ DeliversTooBig garbage calls sock) := by
  unfold readPacket at h
  obtain ⟨len, hlen, h⟩ := Option.bind_eq_some_iff.mp h
  have ⟨hmark, hfalse⟩ := readBytes_marked hlegal hlen
  split at h
  . next hresult =>
    obtain ⟨type, htype, h⟩ := Option.bind_eq_some_iff.mp h
    have ⟨hmark', hfalse'⟩ := readBytes_marked (hmark.legal hlegal) htype
    have hmark' := hmark.trans hmark'
    split at h
    . next hresult' =>
      dsimp only at h
      split at h
      . next hbig =>
        cases h
        exact ⟨hmark', fun _ => Or.inr ⟨len, type, hlen, hresult, htype, hresult', hbig⟩⟩
      . next hbig =>
        obtain ⟨body, hbody, h⟩ := Option.bind_eq_some_iff.mp h
        have ⟨hmark'', hfalse''⟩ := readBytes_marked (hmark'.legal hlegal) hbody
        have hmark'' := hmark'.trans hmark''
        split at h
        . cases h
          exact ⟨hmark'', fun hnone => by cases hnone⟩
        . next hresult'' =>
          cases h
          exact ⟨hmark'', fun _ => Or.inl (hfalse'' (eq_false_of_ne_true hresult''))⟩
    . next hresult' =>
      cases h
      exact ⟨hmark', fun _ => Or.inl (hfalse' (eq_false_of_ne_true hresult'))⟩
  . next hresult =>
    cases h
    exact ⟨hmark, fun _ => Or.inl (hfalse (eq_false_of_ne_true hresult))⟩

end Errno

section Uninterrupted

variable {garbage : Garbage} {calls : List Outcome} {len : Nat}

-- The loop goes on until the stream is at its end, and no further.
theorem readBytes_go_short (hlen : len < 2 ^ 64) (hcalls : ∀ call ∈ calls, call.Positive)
    {bytes : Nat} {r : Receiver} (hshort : bytes + r.sock.stream.length < len)
    (herrno : r.sock.errno ≠ .eintr)
    : Completes (r.sock.stream.length + 1) calls
        (transferBytes.go (fun call bytes r => recv bytes (len - bytes) call r)
          (fun r => r.sock.errno) len calls bytes r)
        (fun result _ => result = false) := by
  induction calls generalizing bytes r with
  | nil =>
    left
    unfold transferBytes.go
    rw [if_pos (by omega)]
    exact ⟨rfl, Nat.succ_pos _⟩
  | cons call calls ih =>
    obtain ⟨k, rfl, hpos⟩ := hcalls _ List.mem_cons_self
    obtain ⟨n, hn, hresult, herrno', hstream⟩ := recv_transfer k bytes (len - bytes) r
    unfold transferBytes.go
    rw [if_pos (by omega)]
    dsimp only
    rw [hresult, herrno']
    by_cases hempty : r.sock.stream.length = 0
    . right
      rw [if_pos ⟨by omega, herrno⟩]
      exact ⟨[.transfer k], _, rfl, rfl, by simp, rfl⟩
    . rw [if_neg (by omega), addSize_of_lt (by omega)]
      have hrest := @ih (fun call hcall => hcalls call (List.mem_cons_of_mem _ hcall)) (bytes + n)
        (recv bytes (len - bytes) (.transfer k) r).2 (by omega) (by rwa [herrno'])
      apply (hrest.cons (.transfer k)).mono
      omega

theorem readBytes_short (hlen : len < 2 ^ 64) (hcalls : ∀ call ∈ calls, call.Positive) (sock : Sock)
    (outbuf : List UInt8) (hshort : sock.stream.length < len) (herrno : sock.errno ≠ .eintr)
    : Completes (sock.stream.length + 1) calls (readBytes len calls ⟨sock, outbuf⟩)
        (fun result _ => result = false) :=
  readBytes_go_short hlen hcalls (r := ⟨sock, outbuf⟩) (by dsimp only; omega) herrno

theorem legal_of_positive (hcalls : ∀ call ∈ calls, call.Positive) : ∀ call ∈ calls, call.Legal :=
  fun call hcall => Or.inl (hcalls call hcall)

theorem not_mem_of_positive (hcalls : ∀ call ∈ calls, call.Positive) : .fail .eintr ∉ calls := by
  intro hmem
  obtain ⟨n, heq, _⟩ := hcalls _ hmem
  cases heq

theorem readBytes_errno (hcalls : ∀ call ∈ calls, call.Positive) {r : Receiver}
    {r' : Returned Bool Receiver} (h : readBytes len calls r = some r') (herrno : r.sock.errno ≠ .eintr)
    : r'.state.sock.errno ≠ .eintr := by
  obtain ⟨⟨made, rfl, hmark⟩, _⟩ := readBytes_marked (legal_of_positive hcalls) h
  have hnot := not_mem_of_positive hcalls
  rw [List.mem_append, not_or] at hnot
  rw [ne_eq, hmark, not_or]
  exact ⟨herrno, hnot.left⟩

theorem readBytes_field (garbage : Garbage) (hcalls : ∀ call ∈ calls, call.Positive) (sock : Sock)
    (hstream : 4 ≤ sock.stream.length)
    : Completes 4 calls (readBytes 4 calls ⟨sock, garbage 4⟩)
        (fun result r => (result = true ∧ r.outbuf = sock.stream.take 4
          ∧ r.sock.stream = sock.stream.drop 4) ∧ (sock.errno ≠ .eintr → r.sock.errno ≠ .eintr)) := by
  have hsize : (sock.stream.take 4).length = 4 := by
    rw [List.length_take]
    omega
  have hread := readBytes_garbage garbage hsize (by decide) hcalls (List.take_append_drop 4 _).symm
  exact hread.and (fun r hr => readBytes_errno hcalls hr)

-- A field that does not come to its end refuses the packet.
theorem refused_at_field (hlen : len < 2 ^ 64) (hcalls : ∀ call ∈ calls, call.Positive) (sock : Sock)
    (outbuf : List UInt8) (hshort : sock.stream.length < len) (herrno : sock.errno ≠ .eintr)
    {f : Returned Bool Receiver → Option (Returned (Option Packet) Sock)}
    (hf : ∀ r, r.result = false → f r = some ⟨none, r.calls, r.state.sock⟩)
    : Completes (sock.stream.length + 1) calls (readBytes len calls ⟨sock, outbuf⟩ >>= f)
        (fun result _ => result = none) := by
  apply Completes.bind (n := 0) (readBytes_short hlen hcalls sock outbuf hshort herrno)
  intro r _ hfalse
  rw [hf r hfalse]
  exact Completes.done rfl

theorem readPacket_short (garbage : Garbage) (hcalls : ∀ call ∈ calls, call.Positive) {sock : Sock}
    (hshort : Short sock.stream) (herrno : sock.errno ≠ .eintr)
    : Completes (sock.stream.length + 1) calls (readPacket garbage calls sock)
        (fun result _ => result = none) := by
  unfold readPacket
  by_cases hlen : sock.stream.length < 4
  . apply refused_at_field (by decide) hcalls sock _ hlen herrno
    intro r hfalse
    rw [hfalse]
    rfl
  . apply ((readBytes_field garbage hcalls sock (by omega)).bind (n := sock.stream.length - 4 + 1) ?_).mono
      (by omega)
    rintro r hsuffix ⟨⟨htrue, hout, hrest⟩, hkeeps⟩
    have hcalls₁ := positive_of_suffix hcalls hsuffix
    have herrno₁ := hkeeps herrno
    have hcount : r.state.sock.stream.length = sock.stream.length - 4 := by
      rw [hrest, List.length_drop]
    rw [if_pos htrue, hout, ← hcount]
    by_cases htype : r.state.sock.stream.length < 4
    . apply refused_at_field (by decide) hcalls₁ r.state.sock _ htype herrno₁
      intro r' hfalse'
      rw [hfalse']
      rfl
    . apply ((readBytes_field garbage hcalls₁ r.state.sock (by omega)).bind
        (n := r.state.sock.stream.length - 4 + 1) ?_).mono (by omega)
      rintro r' hsuffix' ⟨⟨htrue', hout', hrest'⟩, hkeeps'⟩
      have hcalls₂ := positive_of_suffix hcalls₁ hsuffix'
      have herrno₂ := hkeeps' herrno₁
      have hcount' : r'.state.sock.stream.length = r.state.sock.stream.length - 4 := by
        rw [hrest', List.length_drop]
      dsimp only
      rw [if_pos htrue', ← hcount']
      split
      . have hdone : Completes 0 r'.calls (some ⟨none, r'.calls, r'.state.sock⟩)
            (fun (result : Option Packet) (_ : Sock) => result = none) :=
          Completes.done rfl
        apply hdone.mono (Nat.zero_le _)
      . next hbig =>
        unfold Short at hshort
        have hsmall := (ofBE32 (sock.stream.take 4)).toNat_lt
        apply refused_at_field (by omega) hcalls₂ r'.state.sock _ (by omega) herrno₂
        intro r'' hfalse''
        rw [hfalse'']
        rfl

end Uninterrupted

section Refused

variable {garbage : Garbage} {calls : List Outcome} {sock : Sock}

theorem legal_append_atEnd (hlegal : ∀ call ∈ calls, call.Legal) (n : Nat)
    : ∀ call ∈ calls ++ List.replicate n atEnd, call.Legal := by
  intro call hcall
  rcases List.mem_append.mp hcall with hcall | hcall
  . exact hlegal call hcall
  . rw [List.eq_of_mem_replicate hcall]
    exact Or.inl ⟨1, rfl, Nat.one_pos⟩

theorem legal_of_map {turns : List Turn} {rest : List Outcome}
    (hlegal : ∀ call ∈ turns.reverse.map Turn.call ++ rest, call.Legal)
    : (∀ turn ∈ turns, turn.call.Legal) ∧ ∀ call ∈ rest, call.Legal := by
  constructor
  . intro turn hturn
    exact hlegal _ (List.mem_append_left _ (List.mem_map_of_mem (List.mem_reverse.mpr hturn)))
  . exact fun call hcall => hlegal call (List.mem_append_right _ hcall)

theorem After.errno_iff {buf : List UInt8} {turns : List Turn} {r : Receiver} (h : After sock buf turns r)
    : (if 0 < interruptions turns then Errno.eintr else sock.errno) = .eintr ↔ r.sock.errno = .eintr := by
  rw [h.errno]
  split
  . next hpos => exact iff_of_true rfl (.inr hpos)
  . next hzero => exact ⟨.inl, fun h => h.resolve_right hzero⟩

theorem After.stream_length {buf : List UInt8} {turns : List Turn} {r : Receiver}
    (h : After sock buf turns r)
    : r.sock.stream.length = sock.stream.length - received turns := by
  rw [h.stream, List.length_drop]

/-- What the loops return is too big exactly if what the calls have returned says so. -/
theorem tooBig_iff_delivers (hlegal : ∀ call ∈ calls, call.Legal)
    : TooBig garbage calls sock ↔ ∃ n, DeliversTooBig garbage (calls ++ List.replicate n atEnd) sock := by
  have hsize := (garbage 4).property
  have hlt : (garbage 4).val.length < 2 ^ 64 := by omega
  constructor
  . rintro ⟨n, lenTurns, typeTurns, rest, hcalls, hannounces⟩
    have hlegal' := legal_append_atEnd hlegal n
    rw [hcalls] at hlegal'
    obtain ⟨hlenLegal, hrest⟩ := legal_of_map hlegal'
    have hlenReads : Reads sock.errno (garbage 4).val.length sock.stream.length lenTurns := by
      rw [hsize]
      exact hannounces.lenReads
    obtain ⟨r, hlen, hafter⟩ := readBytes_of_reads hlenLegal hlt hlenReads
      (typeTurns.reverse.map Turn.call ++ rest)
    have htypeReads : Reads r.sock.errno (garbage 4).val.length r.sock.stream.length typeTurns := by
      rw [hsize, hafter.stream_length]
      exact hannounces.typeReads.congr hafter.errno_iff
    obtain ⟨r', htype, _⟩ := readBytes_of_reads (legal_of_map hrest).left hlt htypeReads rest
    have hbig : maxPacketSize < (ofBE32 r.outbuf).toNat := by
      rw [hafter.outbuf_eq, hsize]
      exact hannounces.big
    rw [hsize] at hlen htype
    exact ⟨n, ⟨true, _, r⟩, ⟨true, _, r'⟩, hcalls ▸ hlen, rfl, htype, rfl, hbig⟩
  . rintro ⟨n, len, type, hlen, hlenTrue, htype, htypeTrue, hbig⟩
    have hlegal' := legal_append_atEnd hlegal n
    have hlenRun : readBytes (garbage 4).val.length (calls ++ List.replicate n atEnd) ⟨sock, garbage 4⟩
        = some len := by rw [hsize, hlen]
    obtain ⟨lenTurns, hcalls, hlenReads, hafter⟩ := readBytes_reads hlegal' hlt hlenRun hlenTrue
    have htypeRun : readBytes (garbage 4).val.length len.calls ⟨len.state.sock, garbage 4⟩
        = some type := by rw [hsize, htype]
    rw [hcalls] at hlegal'
    obtain ⟨typeTurns, hcalls', htypeReads, _⟩ :=
      readBytes_reads (legal_of_map hlegal').right hlt htypeRun htypeTrue
    have htypeReads := htypeReads.congr hafter.errno_iff.symm
    rw [hafter.stream_length, hsize] at htypeReads
    rw [hafter.outbuf_eq, hsize] at hbig
    rw [hsize] at hlenReads
    exact ⟨n, lenTurns, typeTurns, type.calls, by rw [hcalls, hcalls'], hlenReads, htypeReads, hbig⟩

theorem refuses_of_tooBig (hlegal : ∀ call ∈ calls, call.Legal) (h : TooBig garbage calls sock)
    : Refuses garbage calls sock := by
  obtain ⟨n, len, type, hlen, hresult, htype, hresult', hbig⟩ := (tooBig_iff_delivers hlegal).mp h
  refine ⟨n, ⟨none, type.calls, type.state.sock⟩, ?_, rfl⟩
  unfold readPacket
  rw [hlen, Option.bind_eq_bind, Option.bind_some, if_pos hresult]
  dsimp only
  rw [htype, Option.bind_some, if_pos hresult', if_pos hbig]
  rfl

theorem uninterrupted_or_tooBig (hlegal : ∀ call ∈ calls, call.Legal)
    (hmade : AllMade garbage calls sock) (h : Refuses garbage calls sock)
    : (sock.errno ≠ .eintr ∧ .fail .eintr ∉ calls) ∨ TooBig garbage calls sock := by
  obtain ⟨n, r, hrun, hnone⟩ := h
  have ⟨⟨made, hsplit, hmark⟩, hrefused⟩ := readPacket_marked (legal_append_atEnd hlegal n) hrun
  rcases hrefused hnone with herrno | hbig
  . left
    rw [ne_eq, hmark, not_or] at herrno
    obtain ⟨made', htail⟩ := hmade.leaves hrun
    -- The calls are among those that were made.
    have hmade' : made = calls ++ made' := by
      rw [← htail, ← List.append_assoc] at hsplit
      exact (List.append_cancel_right hsplit).symm
    rw [hmade', List.mem_append, not_or] at herrno
    exact ⟨herrno.left, herrno.right.left⟩
  . exact Or.inr ((tooBig_iff_delivers hlegal).mpr ⟨n, hbig⟩)

theorem positive_append_atEnd (hcalls : ∀ call ∈ calls, call.Positive) (n : Nat)
    : ∀ call ∈ calls ++ List.replicate n atEnd, call.Positive := by
  intro call hcall
  rcases List.mem_append.mp hcall with hcall | hcall
  . exact hcalls call hcall
  . rw [List.eq_of_mem_replicate hcall]
    exact ⟨1, rfl, Nat.one_pos⟩

theorem refuses_of_short (garbage : Garbage) (hcalls : ∀ call ∈ calls, call.Positive)
    (hshort : Short sock.stream) (herrno : sock.errno ≠ .eintr)
    : Refuses garbage calls sock := by
  let n := sock.stream.length + 1
  have hrun := readPacket_short garbage (positive_append_atEnd hcalls n) hshort herrno
  rcases hrun with ⟨_, hwaits⟩ | ⟨_, r, hsome, _, _, hnone⟩
  . rw [List.length_append, List.length_replicate] at hwaits
    omega
  . exact ⟨n, r, hsome, hnone⟩

/-- If no call is interrupted, the number that is delivered is the one that was sent. -/
theorem tooBig_iff (garbage : Garbage) (hcalls : ∀ call ∈ calls, call.Positive) (sock : Sock)
    : TooBig garbage calls sock
        ↔ 8 ≤ sock.stream.length ∧ maxPacketSize < (ofBE32 (sock.stream.take 4)).toNat := by
  rw [tooBig_iff_delivers (legal_of_positive hcalls)]
  constructor
  . rintro ⟨n, len, type, hlen, hresult, htype, hresult', hbig⟩
    have hpos := positive_append_atEnd hcalls n
    have hle := le_of_readBytes (by decide) hpos hlen hresult
    dsimp only at hle
    rcases readBytes_field garbage hpos sock hle with ⟨hnone, _⟩ | ⟨_, r, hsome, hsplit, _, hread, _⟩
    . rw [hlen] at hnone
      cases hnone
    . rw [hlen] at hsome
      cases hsome
      have hpos' := positive_of_suffix hpos ⟨_, hsplit.symm⟩
      have hle' := le_of_readBytes (by decide) hpos' htype hresult'
      rw [hread.right.right, List.length_drop] at hle'
      rw [hread.right.left] at hbig
      exact ⟨by omega, hbig⟩
  . rintro ⟨hstream, hbig⟩
    have hpos := positive_append_atEnd hcalls 8
    refine ⟨8, ?_⟩
    rcases readBytes_field garbage hpos sock (by omega)
      with ⟨_, hwaits⟩ | ⟨made, len, hlen, hsplit, hcount, ⟨htrue, hout, hrest⟩, _⟩
    . rw [List.length_append, List.length_replicate] at hwaits
      omega
    have hpos' := positive_of_suffix hpos ⟨_, hsplit.symm⟩
    rcases readBytes_field garbage hpos' len.state.sock (by rw [hrest, List.length_drop]; omega)
      with ⟨_, hwaits⟩ | ⟨_, type, htype, _, _, ⟨htrue', _⟩, _⟩
    . have hlength := congrArg List.length hsplit
      rw [List.length_append, List.length_append, List.length_replicate] at hlength
      omega
    . exact ⟨len, type, hlen, htrue, htype, htrue', by rwa [hout]⟩

/--
A packet that is cut short is refused after finitely many calls exactly if `errno` is not `EINTR` when the
stream ends, neither from before nor from one of the calls, unless the packet is refused for its size.
-/
theorem refuses_iff (garbage : Garbage) (hlegal : ∀ call ∈ calls, call.Legal)
    (hmade : AllMade garbage calls sock) (hshort : Short sock.stream)
    : Refuses garbage calls sock
        ↔ (sock.errno ≠ .eintr ∧ .fail .eintr ∉ calls) ∨ TooBig garbage calls sock := by
  constructor
  . apply uninterrupted_or_tooBig hlegal hmade
  . rintro (⟨herrno, hnot⟩ | hbig)
    . apply refuses_of_short garbage (positive_of_legal hlegal hnot) hshort herrno
    . apply refuses_of_tooBig hlegal hbig

end Refused

-- One byte arrives, and two interruptions make the counter wrap around: the number is `0xff000000`.
def wrapsAround : List Outcome := [.transfer 1, .fail .eintr, .fail .eintr, .fail .eintr]

theorem refuses_three
    : Refuses zeroGarbage [.transfer 2] ⟨.other, [0, 0, 0]⟩
        ∧ Refuses zeroGarbage wrapsAround ⟨.other, [0xff]⟩ := by
  constructor
  . apply (refuses_iff zeroGarbage ?_ ?_ ?_).mpr
    . left
      decide
    . intro call hcall
      left
      exact ⟨2, List.mem_singleton.mp hcall, by decide⟩
    . intro r hr
      have hnone : readPacket zeroGarbage [.transfer 2] ⟨.other, [0, 0, 0]⟩ = none := by decide
      rw [hnone] at hr
      cases hr
    . unfold Short
      decide
  . apply (refuses_iff zeroGarbage ?_ ?_ ?_).mpr
    . right
      have hlen : Reads .other 4 1 [⟨.fail .eintr, none⟩, ⟨.fail .eintr, none⟩, ⟨.transfer 1, some 1⟩] :=
        ⟨follows_cons ⟨by decide, by decide, by decide⟩ (follows_cons ⟨by decide, by decide, by decide⟩
          (follows_cons ⟨by decide, by decide, by decide⟩ (follows_nil _ _ _))), .inr (by decide)⟩
      have htype : Reads .eintr 4 0 [⟨.fail .eintr, none⟩] :=
        ⟨follows_cons ⟨by decide, by decide, by decide⟩ (follows_nil _ _ _), .inr (by decide)⟩
      exact ⟨0, _, _, [], rfl, hlen, htype, by decide⟩
    . intro call hcall
      unfold wrapsAround at hcall
      simp only [List.mem_cons, List.not_mem_nil, or_false, or_self] at hcall
      rcases hcall with rfl | rfl
      . exact .inl ⟨1, rfl, Nat.one_pos⟩
      . exact .inr rfl
    . intro r hr
      have hall : (readPacket zeroGarbage wrapsAround ⟨.other, [0xff]⟩).map (·.calls) = some [] := by decide
      rw [hr] at hall
      exact Option.some.inj hall
    . unfold Short
      decide

-- The peer sends nothing, and `errno` is what an interrupted call before has left.
theorem not_refuses_eintr
    : Short [] ∧ AllMade zeroGarbage [] ⟨.eintr, []⟩ ∧ ¬Refuses zeroGarbage [] ⟨.eintr, []⟩ := by
  have hmade : AllMade zeroGarbage [] ⟨.eintr, []⟩ := by
    intro r hr
    cases hr
  refine ⟨by unfold Short; decide, hmade, ?_⟩
  intro hrefuses
  rcases uninterrupted_or_tooBig (by simp) hmade hrefuses with ⟨herrno, _⟩ | hbig
  . exact herrno rfl
  . have hstream := ((tooBig_iff zeroGarbage (by simp) _).mp hbig).left
    exact absurd hstream (by decide)

end Protocol
end Runes
