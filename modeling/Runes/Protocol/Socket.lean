import Mathlib.Algebra.Group.Int.Defs
import Runes.Wire.BigEndian

/-!
This module contains the loops that move the bytes of a packet through a socket. How the kernel
answers the system calls of a loop is an argument, a list with one outcome for every call.
-/

namespace Runes
namespace Protocol

inductive Errno where
  | eintr
  | other
  deriving DecidableEq

inductive Outcome where
  -- `n` bytes are moved, or as many as were asked for if these are less
  | transfer (n : Nat)
  -- the call returns `-1`
  | fail (errno : Errno)
  deriving DecidableEq

-- One end of a connection. For a sender the stream is what it has sent, for a receiver it is what
-- is still to come.
structure Sock where
  errno : Errno
  stream : List UInt8
  deriving DecidableEq

structure Returned (α σ : Type) where
  result : α
  calls : List Outcome
  state : σ
  deriving DecidableEq

def addSize (bytes : Nat) (n : Int) : Nat := ((bytes + n) % 2 ^ 64).toNat

/--
The loop that `runes_protocol_write_bytes` and `runes_protocol_read_bytes` have in common, with a
system call that is started at offset `bytes`. It has no value if it is still in the loop when the
list of outcomes ends.
-/
def transferBytes (syscall : Outcome → Nat → σ → Int × σ) (errno : σ → Errno) (len : Nat)
    (calls : List Outcome) (s : σ)
    : Option (Returned Bool σ) :=
  go calls 0 s
where
  go (calls : List Outcome) (bytes : Nat) (s : σ) : Option (Returned Bool σ) :=
    if bytes < len then
      match calls with
      | [] => none
      | call :: calls =>
        let (n, s) := syscall call bytes s
        if n ≤ 0 ∧ errno s ≠ .eintr then
          some ⟨false, calls, s⟩
        else
          go calls (addSize bytes n) s
    else
      some ⟨true, calls, s⟩

def send (data : List UInt8) (call : Outcome) (sock : Sock) : Int × Sock :=
  match call with
  | .transfer n =>
    let moved := data.take n
    (moved.length, { sock with stream := sock.stream ++ moved })
  | .fail errno => (-1, { sock with errno := errno })

def writeBytes (buf : List UInt8) (calls : List Outcome) (sock : Sock) : Option (Returned Bool Sock) :=
  transferBytes (fun call bytes sock => send (buf.drop bytes) call sock) Sock.errno buf.length calls
    sock

structure Receiver where
  sock : Sock
  outbuf : List UInt8
  deriving DecidableEq

def recv (bytes request : Nat) (call : Outcome) (r : Receiver) : Int × Receiver :=
  match call with
  | .transfer n =>
    let moved := r.sock.stream.take (min n request)
    (
      moved.length,
      {
        sock := { r.sock with stream := r.sock.stream.drop moved.length }
        outbuf := r.outbuf.take bytes ++ (moved ++ r.outbuf.drop (bytes + moved.length))
      }
    )
  | .fail errno => (-1, { r with sock := { r.sock with errno := errno } })

def readBytes (len : Nat) (calls : List Outcome) (r : Receiver) : Option (Returned Bool Receiver) :=
  transferBytes (fun call bytes r => recv bytes (len - bytes) call r) (fun r => r.sock.errno) len
    calls r

section AddSize

theorem addSize_of_lt {bytes n : Nat} (h : bytes + n < 2 ^ 64) : addSize bytes n = bytes + n := by
  unfold addSize
  omega

theorem addSize_zero_neg : addSize 0 (-1) = 2 ^ 64 - 1 := by decide

theorem addSize_succ_neg {bytes : Nat} (h : bytes < 2 ^ 64) : addSize (bytes + 1) (-1) = bytes := by
  unfold addSize
  omega

end AddSize

section Rules

variable {syscall : Outcome → Nat → σ → Int × σ} {errno : σ → Errno} {len : Nat}

theorem transferBytes.go_rule {P : Outcome → Prop} {I : List Outcome → Nat → σ → Prop}
    (hstep : ∀ done call bytes s, P call → bytes < len → I done bytes s →
      I (done ++ [call]) (addSize bytes (syscall call bytes s).1) (syscall call bytes s).2)
    {calls done rest : List Outcome} (hcalls : ∀ call ∈ calls, P call) {bytes : Nat} {s s' : σ}
    (hinv : I done bytes s) (hrun : go syscall errno len calls bytes s = some ⟨true, rest, s'⟩)
    : ∃ consumed bytes', calls = consumed ++ rest ∧ len ≤ bytes' ∧
        I (done ++ consumed) bytes' s' := by
  induction calls generalizing done bytes s with
  | nil =>
    unfold go at hrun
    split at hrun
    . cases hrun
    . cases hrun
      exact ⟨[], bytes, rfl, by omega, by simpa using hinv⟩
  | cons call calls ih =>
    unfold go at hrun
    split at hrun
    . next hlt =>
      have hinv' := hstep done call bytes s (hcalls call (by simp)) hlt hinv
      dsimp only at hrun
      split at hrun
      . cases hrun
      . obtain ⟨consumed, bytes', hsplit, hle, hend⟩ :=
          ih (fun call' hcall => hcalls call' (by simp [hcall])) hinv' hrun
        refine ⟨call :: consumed, bytes', by simp [hsplit], hle, ?_⟩
        simpa using hend
    . cases hrun
      exact ⟨[], bytes, rfl, by omega, by simpa using hinv⟩

/--
The rule for two loops that get the same answers from the kernel, on data of their own: they leave
the loop after the same calls. The relation between their states may depend on how many outcomes
are left.
-/
theorem transferBytes.go_sim {τ : Type} {syscall' : Outcome → Nat → τ → Int × τ}
    {errno' : τ → Errno} {P : Outcome → Prop} {R : Nat → σ → τ → Prop}
    (hstep : ∀ call bytes k s t, P call → bytes < len → R (k + 1) s t →
      (syscall call bytes s).1 = (syscall' call bytes t).1
        ∧
      ((syscall call bytes s).1 ≤ 0 → errno (syscall call bytes s).2 = .eintr →
        errno' (syscall' call bytes t).2 = .eintr)
        ∧
      R k (syscall call bytes s).2 (syscall' call bytes t).2)
    {calls rest : List Outcome} (hcalls : ∀ call ∈ calls, P call) {bytes : Nat} {s s' : σ} {t : τ}
    (hrel : R calls.length s t)
    (hrun : go syscall errno len calls bytes s = some ⟨true, rest, s'⟩)
    : ∃ t', go syscall' errno' len calls bytes t = some ⟨true, rest, t'⟩ := by
  induction calls generalizing bytes s t with
  | nil =>
    unfold go at hrun ⊢
    split at hrun
    . cases hrun
    . next hlt =>
      cases hrun
      rw [if_neg hlt]
      exact ⟨t, rfl⟩
  | cons call calls ih =>
    unfold go at hrun ⊢
    split at hrun
    . next hlt =>
      obtain ⟨hn, hgoes, hrel'⟩ := hstep call bytes calls.length s t (hcalls call (by simp)) hlt hrel
      dsimp only at hrun ⊢
      split at hrun
      . cases hrun
      . next hstays =>
        have hgoes' : ¬((syscall' call bytes t).1 ≤ 0 ∧ errno' (syscall' call bytes t).2 ≠ .eintr) := by
          rintro ⟨hle, herrno'⟩
          rw [← hn] at hle
          exact herrno' (hgoes hle (not_ne_iff.mp (fun herrno => hstays ⟨hle, herrno⟩)))
        rw [if_pos hlt, if_neg hgoes', ← hn]
        exact ih (fun call' hcall => hcalls call' (by simp [hcall])) hrel' hrun
    . next hlt =>
      cases hrun
      rw [if_neg hlt]
      exact ⟨t, rfl⟩

end Rules

/--
A function has come to its end with a result and a state as specified, or it waits for a call for
which there is no outcome. It waits only if there are less outcomes than it needs at most.
-/
def Completes (needs : Nat) (calls : List Outcome) (run : Option (Returned α σ))
    (post : α → σ → Prop)
    : Prop :=
  (run = none ∧ calls.length < needs)
    ∨
  ∃ consumed r, run = some r ∧ calls = consumed ++ r.calls ∧ consumed.length ≤ needs ∧
    post r.result r.state

namespace Completes

variable {calls : List Outcome} {post : α → σ → Prop}

theorem done {a : α} {s : σ} (h : post a s)
    : Completes 0 calls (some ⟨a, calls, s⟩) post := by
  right
  exact ⟨[], _, rfl, rfl, by simp, h⟩

theorem bind {m : Option (Returned α σ)} {f : Returned α σ → Option (Returned β τ)}
    {post' : β → τ → Prop} (hm : Completes k calls m post)
    (hf : ∀ r, r.calls <:+ calls → post r.result r.state → Completes n r.calls (f r) post')
    : Completes (k + n) calls (m >>= f) post' := by
  rcases hm with ⟨rfl, hshort⟩ | ⟨consumed, r, rfl, hsplit, hcount, hpost⟩
  . left
    exact ⟨rfl, by omega⟩
  . rcases hf r ⟨consumed, hsplit.symm⟩ hpost with ⟨hnone, hshort⟩ | ⟨used, r', hsome, hrest, hle, hend⟩
    . left
      refine ⟨hnone, ?_⟩
      rw [hsplit, List.length_append]
      omega
    . right
      refine ⟨consumed ++ used, r', hsome, ?_, ?_, hend⟩
      . rw [hsplit, hrest, List.append_assoc]
      . rw [List.length_append]
        omega

theorem imp {m : Option (Returned α σ)} {post' : α → σ → Prop} (h : Completes k calls m post)
    (himp : ∀ a s, post a s → post' a s)
    : Completes k calls m post' := by
  rcases h with hnone | ⟨consumed, r, hsome, hsplit, hcount, hpost⟩
  . exact .inl hnone
  . exact .inr ⟨consumed, r, hsome, hsplit, hcount, himp _ _ hpost⟩

theorem and {m : Option (Returned α σ)} {post' : α → σ → Prop} (h : Completes k calls m post)
    (hpost' : ∀ r, m = some r → post' r.result r.state)
    : Completes k calls m (fun a s => post a s ∧ post' a s) := by
  rcases h with hnone | ⟨consumed, r, hsome, hsplit, hcount, hpost⟩
  . exact .inl hnone
  . exact .inr ⟨consumed, r, hsome, hsplit, hcount, hpost, hpost' r hsome⟩

theorem mono {m : Option (Returned α σ)} (h : Completes k calls m post) (hle : k ≤ n)
    : Completes n calls m post := by
  rcases h with ⟨hnone, hshort⟩ | ⟨consumed, r, hsome, hsplit, hcount, hpost⟩
  . exact .inl ⟨hnone, by omega⟩
  . exact .inr ⟨consumed, r, hsome, hsplit, by omega, hpost⟩

theorem cons {m : Option (Returned α σ)} (call : Outcome) (h : Completes k calls m post)
    : Completes (k + 1) (call :: calls) m post := by
  rcases h with ⟨hnone, hshort⟩ | ⟨consumed, r, hsome, hsplit, hcount, hpost⟩
  . left
    refine ⟨hnone, ?_⟩
    rw [List.length_cons]
    omega
  . right
    refine ⟨call :: consumed, r, hsome, by simp [hsplit], ?_, hpost⟩
    rw [List.length_cons]
    omega

end Completes

theorem transferBytes.go_progress (syscall : Outcome → Nat → σ → Int × σ) (errno : σ → Errno)
    {len : Nat} {P : Outcome → Prop} {I : Nat → σ → Prop} (hlen : len < 2 ^ 64)
    (hstep : ∀ call bytes s, P call → bytes < len → I bytes s →
      ∃ n : Nat, (syscall call bytes s).1 = n ∧ 0 < n ∧ bytes + n ≤ len ∧
        I (bytes + n) (syscall call bytes s).2)
    {calls : List Outcome} (hcalls : ∀ call ∈ calls, P call) {bytes : Nat} {s : σ}
    (hle : bytes ≤ len) (hinv : I bytes s)
    : Completes (len - bytes) calls (go syscall errno len calls bytes s)
        (fun result s => result = true ∧ I len s) := by
  induction calls generalizing bytes s with
  | nil =>
    unfold go
    by_cases hlt : bytes < len
    . left
      rw [if_pos hlt]
      refine ⟨rfl, ?_⟩
      rw [List.length_nil]
      omega
    . right
      have heq : bytes = len := by omega
      rw [if_neg hlt]
      exact ⟨[], _, rfl, rfl, by simp, rfl, heq ▸ hinv⟩
  | cons call calls ih =>
    unfold go
    by_cases hlt : bytes < len
    . obtain ⟨n, hn, hpos, hle', hinv'⟩ := hstep call bytes s (hcalls call (by simp)) hlt hinv
      rw [if_pos hlt]
      dsimp only
      rw [if_neg (by omega), hn, addSize_of_lt (by omega)]
      have hrest := ih (fun call' hcall => hcalls call' (by simp [hcall])) hle' hinv'
      apply (hrest.cons call).mono
      omega
    . right
      have heq : bytes = len := by omega
      rw [if_neg hlt]
      exact ⟨[], _, rfl, rfl, by simp, rfl, heq ▸ hinv⟩

def Outcome.Positive (call : Outcome) : Prop := ∃ n, call = .transfer n ∧ 0 < n

def Outcome.Legal (call : Outcome) : Prop := call.Positive ∨ call = .fail .eintr

theorem positive_of_legal {calls : List Outcome} (hlegal : ∀ call ∈ calls, call.Legal)
    (hnone : .fail .eintr ∉ calls)
    : ∀ call ∈ calls, call.Positive := by
  intro call hcall
  rcases hlegal call hcall with hpos | rfl
  . exact hpos
  . exact absurd hcall hnone

section Uninterrupted

theorem send_positive {call : Outcome} (h : call.Positive) (buf w : List UInt8) {bytes : Nat}
    (hlt : bytes < buf.length) {sock : Sock} (hinv : sock.stream = w ++ buf.take bytes)
    : ∃ n : Nat, (send (buf.drop bytes) call sock).1 = n ∧ 0 < n ∧ bytes + n ≤ buf.length ∧
        (send (buf.drop bytes) call sock).2.stream = w ++ buf.take (bytes + n) := by
  obtain ⟨k, rfl, hpos⟩ := h
  refine ⟨min k (buf.length - bytes), ?_, by omega, by omega, ?_⟩
  . dsimp only [send]
    rw [List.length_take, List.length_drop]
  . dsimp only [send]
    rw [hinv, List.take_add, List.append_assoc, ← List.length_drop, ← List.take_eq_take_min]

theorem writeBytes_positive (buf : List UInt8) (hlen : buf.length < 2 ^ 64) {calls : List Outcome}
    (hcalls : ∀ call ∈ calls, call.Positive) (sock : Sock)
    : Completes buf.length calls (writeBytes buf calls sock)
        (fun result sock' => result = true ∧ sock'.stream = sock.stream ++ buf) := by
  have hloop := transferBytes.go_progress
    (fun call bytes sock => send (buf.drop bytes) call sock) Sock.errno
    (P := Outcome.Positive) (I := fun bytes s => s.stream = sock.stream ++ buf.take bytes) hlen
    (fun _ _ _ hpos hlt hinv => send_positive hpos buf _ hlt hinv) hcalls (Nat.zero_le _)
    (s := sock) (by simp)
  simpa [writeBytes, transferBytes] using hloop

theorem recv_positive {call : Outcome} (h : call.Positive) (stream outbuf : List UInt8)
    (hstream : outbuf.length ≤ stream.length) {bytes : Nat} (hlt : bytes < outbuf.length)
    {r : Receiver}
    (hinv : r.outbuf = stream.take bytes ++ outbuf.drop bytes ∧ r.sock.stream = stream.drop bytes)
    : ∃ n : Nat, (recv bytes (outbuf.length - bytes) call r).1 = n ∧ 0 < n ∧
        bytes + n ≤ outbuf.length ∧
        (recv bytes (outbuf.length - bytes) call r).2.outbuf
            = stream.take (bytes + n) ++ outbuf.drop (bytes + n) ∧
        (recv bytes (outbuf.length - bytes) call r).2.sock.stream = stream.drop (bytes + n) := by
  obtain ⟨k, rfl, hpos⟩ := h
  obtain ⟨hout, hrest⟩ := hinv
  have hlen : (r.sock.stream.take (min k (outbuf.length - bytes))).length
      = min k (outbuf.length - bytes) := by
    rw [hrest, List.length_take, List.length_drop]
    omega
  have htake : (stream.take bytes).length = bytes := by
    rw [List.length_take]
    omega
  refine ⟨min k (outbuf.length - bytes), ?_, by omega, by omega, ?_, ?_⟩
  . dsimp only [recv]
    rw [hlen]
  . dsimp only [recv]
    rw [hlen, hout, List.take_append_of_le_length (by omega), List.take_of_length_le (by omega)]
    rw [List.drop_append, htake, List.drop_of_length_le (by omega), List.nil_append]
    rw [List.drop_drop, hrest, List.take_add, List.append_assoc]
    congr 4
    omega
  . dsimp only [recv]
    rw [hlen, hrest, List.drop_drop]

theorem readBytes_positive (outbuf : List UInt8) (hlen : outbuf.length < 2 ^ 64)
    {calls : List Outcome} (hcalls : ∀ call ∈ calls, call.Positive) (sock : Sock)
    (hstream : outbuf.length ≤ sock.stream.length)
    : Completes outbuf.length calls (readBytes outbuf.length calls ⟨sock, outbuf⟩)
        (fun result r => result = true ∧ r.outbuf = sock.stream.take outbuf.length ∧
          r.sock.stream = sock.stream.drop outbuf.length) := by
  have hloop := transferBytes.go_progress
    (fun call bytes r => recv bytes (outbuf.length - bytes) call r) (fun r => r.sock.errno)
    (P := Outcome.Positive)
    (I := fun bytes r => r.outbuf = sock.stream.take bytes ++ outbuf.drop bytes ∧
      r.sock.stream = sock.stream.drop bytes) hlen
    (fun _ _ _ hpos hlt hinv => recv_positive hpos sock.stream outbuf hstream hlt hinv) hcalls
    (Nat.zero_le _) (s := ⟨sock, outbuf⟩) (by simp)
  simpa [readBytes, transferBytes] using hloop

theorem recv_transfer (k bytes request : Nat) (r : Receiver)
    : ∃ n : Nat, n = min (min k request) r.sock.stream.length
        ∧ (recv bytes request (.transfer k) r).1 = n
        ∧ (recv bytes request (.transfer k) r).2.sock.errno = r.sock.errno
        ∧ (recv bytes request (.transfer k) r).2.sock.stream.length = r.sock.stream.length - n := by
  refine ⟨_, rfl, ?_, rfl, ?_⟩
  . dsimp only [recv]
    rw [List.length_take]
  . dsimp only [recv]
    rw [List.length_drop, List.length_take]

-- What the loop has counted is what is gone from the stream.
def Counted (total : Nat) (_ : List Outcome) (bytes : Nat) (r : Receiver) : Prop :=
  bytes + r.sock.stream.length = total

theorem Counted.recv {len total bytes : Nat} {done : List Outcome} {call : Outcome} {r : Receiver}
    (hlen : len < 2 ^ 64) (hcall : call.Positive) (hlt : bytes < len) (h : Counted total done bytes r)
    : Counted total (done ++ [call]) (addSize bytes (recv bytes (len - bytes) call r).1)
        (recv bytes (len - bytes) call r).2 := by
  obtain ⟨k, rfl, _⟩ := hcall
  obtain ⟨n, hn, hresult, _, hstream⟩ := recv_transfer k bytes (len - bytes) r
  unfold Counted at *
  rw [hresult, hstream, addSize_of_lt (by omega)]
  omega

theorem le_of_readBytes {len : Nat} {calls : List Outcome} (hlen : len < 2 ^ 64) (hcalls : ∀ call ∈ calls, call.Positive) {r : Receiver}
    {r' : Returned Bool Receiver} (h : readBytes len calls r = some r') (htrue : r'.result = true)
    : len ≤ r.sock.stream.length := by
  obtain ⟨result, rest, state⟩ := r'
  cases htrue
  have hstart : Counted r.sock.stream.length [] 0 r := Nat.zero_add _
  obtain ⟨_, _, _, hle, htotal⟩ := transferBytes.go_rule
    (fun _ _ _ _ hcall hlt hcounted => Counted.recv hlen hcall hlt hcounted) hcalls hstart h
  unfold Counted at htotal
  omega

end Uninterrupted

end Protocol
end Runes
