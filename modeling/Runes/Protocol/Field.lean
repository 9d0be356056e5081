import Runes.Protocol.Packet

/-!
This module contains what a loop has read when some of its calls were interrupted, in terms of what the
calls have returned: each byte goes to the place that is the sum of what was returned before it.
-/

namespace Runes
namespace Protocol

open Wire

-- A call of `recv` with the number of bytes that it has returned, which is none if it was interrupted.
structure Turn where
  call : Outcome
  got : Option Nat
  deriving DecidableEq

section Turns

-- The turns are listed with the latest one first.
def received (turns : List Turn) : Nat := turns.foldr (fun turn sum => turn.got.getD 0 + sum) 0

def interruptions (turns : List Turn) : Nat := turns.countP (fun turn => turn.got.isNone)

/-- The sum of what the calls have returned, with the `-1` of those that were interrupted. -/
def place (turns : List Turn) : Int := received turns - interruptions turns

def returned (len total : Nat) (earlier : List Turn) (call : Outcome) : Option Nat :=
  match call with
  | .transfer n => some (min (min n (len - (place earlier).toNat)) (total - received earlier))
  | .fail _ => none

/-- A turn on the way to `len` bytes, from a stream with `total` bytes. -/
structure Turn.Follows (errno : Errno) (len total : Nat) (turn : Turn) (earlier : List Turn) : Prop where
  inside : 0 ≤ place earlier ∧ place earlier < len
  got_eq : turn.got = returned len total earlier turn.call
  -- At the end of the stream the loop goes on if `errno` is what an interrupted call has left.
  goesOn : turn.got = some 0 → errno = .eintr ∨ 0 < interruptions earlier

/-- The turns of a loop that comes to its end: all bytes are there, or the counter wraps around. -/
structure Reads (errno : Errno) (len total : Nat) (turns : List Turn) : Prop where
  follows : ∀ turn earlier, turn :: earlier <:+ turns → turn.Follows errno len total earlier
  ends : place turns = len ∨ place turns = -1

/-- What was received last for the place `j`, or else what was there in `buf`. -/
def heldAt (buf stream : List UInt8) (turns : List Turn) (j : Nat) : Option UInt8 :=
  match turns with
  | [] => buf[j]?
  | ⟨_, none⟩ :: earlier => heldAt buf stream earlier j
  | ⟨_, some n⟩ :: earlier =>
    let first := (place earlier).toNat
    if first ≤ j ∧ j < first + n then
      stream[received earlier + (j - first)]?
    else
      heldAt buf stream earlier j

def held (buf stream : List UInt8) (turns : List Turn) (len : Nat) : List UInt8 :=
  (List.range len).map (fun j => (heldAt buf stream turns j).getD 0)

theorem received_cons (turn : Turn) (earlier : List Turn)
    : received (turn :: earlier) = turn.got.getD 0 + received earlier := rfl

theorem interruptions_cons (turn : Turn) (earlier : List Turn)
    : interruptions (turn :: earlier) = interruptions earlier + if turn.got.isNone then 1 else 0 := by
  unfold interruptions
  rw [List.countP_cons]

theorem place_transfer (call : Outcome) (n : Nat) (earlier : List Turn)
    : place (⟨call, some n⟩ :: earlier) = place earlier + n := by
  unfold place
  rw [received_cons, interruptions_cons]
  simp
  omega

theorem place_interrupted (call : Outcome) (earlier : List Turn)
    : place (⟨call, none⟩ :: earlier) = place earlier - 1 := by
  unfold place
  rw [received_cons, interruptions_cons]
  simp
  omega

end Turns

theorem Reads.congr {errno errno' : Errno} {len total : Nat} {turns : List Turn}
    (h : Reads errno len total turns) (herrno : errno = .eintr ↔ errno' = .eintr)
    : Reads errno' len total turns where
  follows turn earlier hsuffix := by
    have hturn := h.follows turn earlier hsuffix
    exact ⟨hturn.inside, hturn.got_eq, fun hzero => (hturn.goesOn hzero).imp_left herrno.mp⟩
  ends := h.ends

/-- The state of a receiver after some turns, which has started with `sock` and `buf`. -/
structure After (sock : Sock) (buf : List UInt8) (turns : List Turn) (r : Receiver) : Prop where
  stream : r.sock.stream = sock.stream.drop (received turns)
  errno : r.sock.errno = .eintr ↔ sock.errno = .eintr ∨ 0 < interruptions turns
  size : r.outbuf.length = buf.length
  outbuf : ∀ j, r.outbuf[j]? = heldAt buf sock.stream turns j

section Loop

variable {sock : Sock} {buf : List UInt8} {turns : List Turn} {r : Receiver} {len : Nat}

theorem After.start (sock : Sock) (buf : List UInt8) : After sock buf [] ⟨sock, buf⟩ where
  stream := rfl
  errno := by simp [interruptions]
  size := rfl
  outbuf _ := rfl

theorem After.outbuf_eq (h : After sock buf turns r) : r.outbuf = held buf sock.stream turns buf.length := by
  apply List.ext_getElem?
  intro j
  unfold held
  rw [List.getElem?_map, ← h.size]
  by_cases hj : j < r.outbuf.length
  . rw [List.getElem?_range hj, Option.map_some, ← h.outbuf, List.getElem?_eq_getElem hj]
    rfl
  . rw [List.getElem?_eq_none (by omega), List.getElem?_eq_none (by rw [List.length_range]; omega)]
    rfl

theorem After.transfer (h : After sock buf turns r) {n : Nat}
    (hinside : 0 ≤ place turns ∧ place turns < buf.length)
    : let bytes := (place turns).toNat
      let got := min (min n (buf.length - bytes)) (sock.stream.length - received turns)
      (Protocol.recv bytes (buf.length - bytes) (.transfer n) r).1 = got
        ∧ After sock buf (⟨.transfer n, some got⟩ :: turns)
            (Protocol.recv bytes (buf.length - bytes) (.transfer n) r).2 := by
  intro bytes got
  have hbytes : bytes < buf.length := by omega
  let moved := r.sock.stream.take (min n (buf.length - bytes))
  have hlength : moved.length = got := by
    change (r.sock.stream.take _).length = _
    rw [List.length_take, h.stream, List.length_drop]
  have hmoved : bytes + moved.length ≤ r.outbuf.length := by
    rw [h.size, hlength]
    omega
  have hfront : (r.outbuf.take bytes).length = bytes := by
    rw [List.length_take]
    omega
  refine ⟨congrArg Nat.cast hlength, ?_, ?_, ?_, ?_⟩
  . change r.sock.stream.drop moved.length = _
    rw [h.stream, List.drop_drop, received_cons, hlength]
    dsimp only [Option.getD_some]
    rw [Nat.add_comm]
  . change r.sock.errno = .eintr ↔ _
    rw [h.errno, interruptions_cons]
    rfl
  . change (r.outbuf.take bytes ++ (moved ++ r.outbuf.drop (bytes + moved.length))).length = _
    rw [List.length_append, List.length_append, List.length_drop, hfront, ← h.size]
    omega
  . intro j
    change (r.outbuf.take bytes ++ (moved ++ r.outbuf.drop (bytes + moved.length)))[j]? = _
    unfold heldAt
    dsimp only
    change _ = if bytes ≤ j ∧ j < bytes + got then _ else _
    by_cases hbefore : j < bytes
    . rw [if_neg (by omega), List.getElem?_append_left (by omega), List.getElem?_take_of_lt hbefore,
        h.outbuf]
    . rw [List.getElem?_append_right (by omega), hfront]
      by_cases hjust : j < bytes + got
      . rw [if_pos ⟨by omega, hjust⟩, List.getElem?_append_left (by omega)]
        change (r.sock.stream.take _)[j - bytes]? = _
        rw [List.getElem?_take_of_lt (by omega), h.stream, List.getElem?_drop]
      . rw [if_neg (by omega), List.getElem?_append_right (by omega), List.getElem?_drop, ← h.outbuf]
        congr 1
        omega

theorem After.interrupt (h : After sock buf turns r) (bytes request : Nat)
    : After sock buf (⟨.fail .eintr, none⟩ :: turns) (Protocol.recv bytes request (.fail .eintr) r).2 where
  stream := by
    rw [received_cons]
    exact h.stream.trans (by rw [Option.getD_none, Nat.zero_add])
  errno := by
    rw [interruptions_cons]
    exact ⟨fun _ => .inr (Nat.succ_pos _), fun _ => rfl⟩
  size := h.size
  outbuf j := h.outbuf j

variable {calls rest : List Outcome} {r' : Receiver} {bytes : Nat}

/-- The loop of `runes_protocol_read_bytes` when its counter is at `bytes`. -/
abbrev readFrom (len : Nat) (calls : List Outcome) (bytes : Nat) (r : Receiver)
    : Option (Returned Bool Receiver) :=
  transferBytes.go (fun call bytes r => recv bytes (len - bytes) call r) (fun r => r.sock.errno) len calls
    bytes r

theorem readFrom_end (hle : len ≤ bytes) (calls : List Outcome) (r : Receiver)
    : readFrom len calls bytes r = some ⟨true, calls, r⟩ := by
  unfold readFrom transferBytes.go
  rw [if_neg (by omega)]

-- An interrupted call is never the last one, unless it is the first that counts.
theorem readFrom_interrupt (hlt : bytes < len) (calls : List Outcome) (r : Receiver)
    : readFrom len (.fail .eintr :: calls) bytes r
        = readFrom len calls (addSize bytes (-1)) (recv bytes (len - bytes) (.fail .eintr) r).2 := by
  unfold readFrom
  rw [transferBytes.go, if_pos hlt]
  exact if_neg (fun h => h.right rfl)

theorem readFrom_transfer (h : After sock buf turns r) (hbytes : place turns = bytes)
    (hlt : bytes < buf.length) (hlen : buf.length < 2 ^ 64) (n : Nat) (calls : List Outcome)
    : let got := min (min n (buf.length - bytes)) (sock.stream.length - received turns)
      let r' := (recv bytes (buf.length - bytes) (.transfer n) r).2
      After sock buf (⟨.transfer n, some got⟩ :: turns) r'
        ∧ readFrom buf.length (.transfer n :: calls) bytes r
            = if got = 0 ∧ r.sock.errno ≠ .eintr then
                some ⟨false, calls, r'⟩
              else
                readFrom buf.length calls (bytes + got) r' := by
  intro got r'
  have hplace : (place turns).toNat = bytes := by omega
  have hstep := h.transfer (n := n) (by omega)
  rw [hplace] at hstep
  obtain ⟨hgot, hafter⟩ := hstep
  have hgot : (recv bytes (buf.length - bytes) (.transfer n) r).1 = got := hgot
  refine ⟨hafter, ?_⟩
  unfold readFrom
  rw [transferBytes.go, if_pos hlt]
  dsimp only
  rw [hgot, addSize_of_lt (by omega)]
  have hiff : ((got : Int) ≤ 0 ∧ r'.sock.errno ≠ .eintr) ↔ (got = 0 ∧ r.sock.errno ≠ .eintr) := by
    constructor
    . exact fun h => ⟨by omega, h.right⟩
    . exact fun h => ⟨by omega, h.right⟩
  exact if_congr hiff rfl rfl

theorem follows_nil (errno : Errno) (len total : Nat) (turn : Turn) (earlier : List Turn)
    (hsuffix : turn :: earlier <:+ [])
    : turn.Follows errno len total earlier := by
  cases List.suffix_nil.mp hsuffix

theorem follows_cons {errno : Errno} {total : Nat} {turn : Turn}
    (hturn : turn.Follows errno len total turns)
    (hfollows : ∀ turn earlier, turn :: earlier <:+ turns → turn.Follows errno len total earlier)
    : ∀ turn' earlier, turn' :: earlier <:+ turn :: turns → turn'.Follows errno len total earlier := by
  intro turn' earlier hsuffix
  rcases List.suffix_cons_iff.mp hsuffix with heq | hsuffix
  . cases heq
    exact hturn
  . exact hfollows turn' earlier hsuffix

theorem exists_reads (hlegal : ∀ call ∈ calls, call.Legal) (hlen : buf.length < 2 ^ 64)
    (h : After sock buf turns r) (hbytes : place turns = bytes) (hle : bytes ≤ buf.length)
    (hfollows : ∀ turn earlier, turn :: earlier <:+ turns →
      turn.Follows sock.errno buf.length sock.stream.length earlier)
    (hrun : readFrom buf.length calls bytes r = some ⟨true, rest, r'⟩)
    : ∃ next : List Turn, calls = next.map Turn.call ++ rest
        ∧ Reads sock.errno buf.length sock.stream.length (next.reverse ++ turns)
        ∧ After sock buf (next.reverse ++ turns) r' := by
  induction calls generalizing turns bytes r with
  | nil =>
    by_cases hlt : bytes < buf.length
    . unfold readFrom transferBytes.go at hrun
      rw [if_pos hlt] at hrun
      cases hrun
    . rw [readFrom_end (by omega)] at hrun
      cases hrun
      exact ⟨[], rfl, ⟨hfollows, .inl (by rw [List.reverse_nil, List.nil_append]; omega)⟩, h⟩
  | cons call calls ih =>
    have hlegal' : ∀ call' ∈ calls, call'.Legal := fun call' hcall => hlegal call' (List.mem_cons_of_mem _ hcall)
    -- One more turn, and those that `ih` finds
    have hcons {got : Option Nat} {turns' : List Turn} (hturns : turns' = ⟨call, got⟩ :: turns)
        (hnext : ∃ next : List Turn, calls = next.map Turn.call ++ rest
          ∧ Reads sock.errno buf.length sock.stream.length (next.reverse ++ turns')
          ∧ After sock buf (next.reverse ++ turns') r')
        : ∃ next : List Turn, call :: calls = next.map Turn.call ++ rest
          ∧ Reads sock.errno buf.length sock.stream.length (next.reverse ++ turns)
          ∧ After sock buf (next.reverse ++ turns) r' := by
      obtain ⟨next, rfl, hreads, hafter⟩ := hnext
      rw [hturns, ← List.singleton_append, ← List.append_assoc, ← List.reverse_cons] at hreads hafter
      exact ⟨_, rfl, hreads, hafter⟩
    by_cases hlt : bytes < buf.length
    case neg =>
      rw [readFrom_end (by omega)] at hrun
      cases hrun
      exact ⟨[], rfl, ⟨hfollows, .inl (by rw [List.reverse_nil, List.nil_append]; omega)⟩, h⟩
    case pos =>
      have hinside : 0 ≤ place turns ∧ place turns < buf.length := by omega
      rcases hlegal call List.mem_cons_self with ⟨n, rfl, _⟩ | rfl
      . obtain ⟨hafter, hstep⟩ := readFrom_transfer h hbytes hlt hlen n calls
        rw [hstep] at hrun
        split at hrun
        . cases hrun
        . next hgoesOn =>
          refine hcons rfl (ih hlegal' hafter ?_ (by omega) (follows_cons ⟨hinside, ?_, ?_⟩ hfollows) hrun)
          . rw [place_transfer, hbytes, Int.natCast_add]
          . unfold returned
            rw [hbytes, Int.toNat_natCast]
          . intro hzero
            apply h.errno.mp
            by_contra herrno
            exact hgoesOn ⟨Option.some.inj hzero, herrno⟩
      . rw [readFrom_interrupt hlt] at hrun
        have hafter := h.interrupt bytes (buf.length - bytes)
        have hturn : Turn.Follows sock.errno buf.length sock.stream.length ⟨.fail .eintr, none⟩ turns :=
          ⟨hinside, rfl, fun h => by cases h⟩
        cases bytes with
        | zero =>
          rw [addSize_zero_neg, readFrom_end (by omega)] at hrun
          cases hrun
          refine hcons rfl ⟨[], rfl, ⟨follows_cons hturn hfollows, .inr ?_⟩, hafter⟩
          rw [List.reverse_nil, List.nil_append, place_interrupted]
          omega
        | succ bytes =>
          rw [addSize_succ_neg (by omega)] at hrun
          refine hcons rfl (ih hlegal' hafter ?_ (by omega) (follows_cons hturn hfollows) hrun)
          rw [place_interrupted]
          omega

theorem readFrom_of_reads {next : List Turn} (hlegal : ∀ turn ∈ next, turn.call.Legal)
    (hlen : buf.length < 2 ^ 64) (h : After sock buf turns r) (hbytes : place turns = bytes)
    (hreads : Reads sock.errno buf.length sock.stream.length (next.reverse ++ turns)) (rest : List Outcome)
    : ∃ r', readFrom buf.length (next.map Turn.call ++ rest) bytes r = some ⟨true, rest, r'⟩
        ∧ After sock buf (next.reverse ++ turns) r' := by
  induction next generalizing turns bytes r with
  | nil =>
    refine ⟨r, readFrom_end ?_ rest r, h⟩
    have hends := hreads.ends
    rw [List.reverse_nil, List.nil_append] at hends
    omega
  | cons turn next ih =>
    have hlegal' : ∀ turn' ∈ next, turn'.call.Legal :=
      fun turn' hturn => hlegal turn' (List.mem_cons_of_mem _ hturn)
    rw [List.reverse_cons, List.append_assoc, List.singleton_append] at hreads ⊢
    have hfollows := hreads.follows turn turns (List.suffix_append _ _)
    have hinside := hfollows.inside
    have hgot := hfollows.got_eq
    have hlt : bytes < buf.length := by omega
    obtain ⟨call, got⟩ := turn
    rw [List.map_cons, List.cons_append]
    rcases hlegal _ List.mem_cons_self with ⟨n, hcall, _⟩ | hcall
    . dsimp only at hcall hgot
      subst hcall
      unfold returned at hgot
      rw [hbytes, Int.toNat_natCast] at hgot
      subst hgot
      obtain ⟨hafter, hstep⟩ := readFrom_transfer h hbytes hlt hlen n (next.map Turn.call ++ rest)
      rw [hstep, if_neg]
      . apply ih hlegal' hafter _ hreads
        rw [place_transfer, hbytes, Int.natCast_add]
      . rintro ⟨hzero, herrno⟩
        exact herrno (h.errno.mpr (hfollows.goesOn (congrArg some hzero)))
    . dsimp only at hcall hgot
      subst hcall
      have hgot : got = none := hgot
      subst hgot
      have hafter := h.interrupt bytes (buf.length - bytes)
      rw [readFrom_interrupt hlt]
      cases bytes with
      | zero =>
        -- The counter wraps around, and no turn follows.
        cases next with
        | nil =>
          rw [addSize_zero_neg]
          exact ⟨_, readFrom_end (by omega) rest _, hafter⟩
        | cons turn' next =>
          rw [List.reverse_cons, List.append_assoc, List.singleton_append] at hreads
          have hnever := (hreads.follows turn' _ (List.suffix_append _ _)).inside
          rw [place_interrupted] at hnever
          omega
      | succ bytes =>
        rw [addSize_succ_neg (by omega)]
        apply ih hlegal' hafter _ hreads
        rw [place_interrupted]
        omega

theorem readBytes_reads (hlegal : ∀ call ∈ calls, call.Legal) (hlen : buf.length < 2 ^ 64)
    {r : Returned Bool Receiver} (hrun : readBytes buf.length calls ⟨sock, buf⟩ = some r)
    (htrue : r.result = true)
    : ∃ turns : List Turn, calls = turns.reverse.map Turn.call ++ r.calls
        ∧ Reads sock.errno buf.length sock.stream.length turns ∧ After sock buf turns r.state := by
  obtain ⟨result, rest, state⟩ := r
  cases htrue
  obtain ⟨next, hcalls, hreads, hafter⟩ :=
    exists_reads hlegal hlen (.start sock buf) rfl (Nat.zero_le _) (follows_nil _ _ _) hrun
  rw [List.append_nil] at hreads hafter
  exact ⟨next.reverse, by rw [List.reverse_reverse]; exact hcalls, hreads, hafter⟩

theorem readBytes_of_reads (hlegal : ∀ turn ∈ turns, turn.call.Legal) (hlen : buf.length < 2 ^ 64)
    (hreads : Reads sock.errno buf.length sock.stream.length turns) (rest : List Outcome)
    : ∃ r, readBytes buf.length (turns.reverse.map Turn.call ++ rest) ⟨sock, buf⟩ = some ⟨true, rest, r⟩
        ∧ After sock buf turns r := by
  have hlegal' : ∀ turn ∈ turns.reverse, turn.call.Legal :=
    fun turn hturn => hlegal turn (List.mem_reverse.mp hturn)
  have hreads' : Reads sock.errno buf.length sock.stream.length (turns.reverse.reverse ++ []) := by
    rwa [List.reverse_reverse, List.append_nil]
  have hrun := readFrom_of_reads hlegal' hlen (.start sock buf) rfl hreads' rest
  rw [List.reverse_reverse, List.append_nil] at hrun
  exact hrun

end Loop

end Protocol
end Runes
