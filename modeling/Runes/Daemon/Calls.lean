import Runes.Daemon.Service

/-!
This module contains the proof that the calls of the system, taken one after another, are the ones of
the functions that read and send a packet.
-/

namespace Runes
namespace Daemon

open Protocol Wire

def writeRun (w : Writer) (calls : List Outcome) (sock : Sock) : Option (List Outcome × Sock) :=
  match w, calls with
  | .closed, calls => some (calls, sock)
  | .writing _ _ _, [] => none
  | .writing bytes buf bufs, call :: calls =>
    let (w, sock) := writeStep (.writing bytes buf bufs) call sock
    writeRun w calls sock

def readRun (garbage : Garbage) (r : Reading) (calls : List Outcome) (sock : Sock)
    : Option (Returned (Option Packet) Sock) :=
  match calls with
  | [] => none
  | call :: calls =>
    match readStep garbage r call sock with
    | (.waits r, sock) => readRun garbage r calls sock
    | (.returns packet, sock) => some ⟨packet, calls, sock⟩

section Loops

variable {syscall : Outcome → Nat → σ → Int × σ} {errno : σ → Errno} {len bytes : Nat}

theorem go_cons (hlt : bytes < len) (call : Outcome) (calls : List Outcome) (s : σ)
    : transferBytes.go syscall errno len (call :: calls) bytes s
        =
      match afterCall len bytes (syscall call bytes s).1 (errno (syscall call bytes s).2) with
      | .goesOn bytes' => transferBytes.go syscall errno len calls bytes' (syscall call bytes s).2
      | .left result => some ⟨result, calls, (syscall call bytes s).2⟩ := by
  conv => lhs; unfold transferBytes.go
  rw [if_pos hlt]
  dsimp only
  unfold afterCall
  by_cases hfails : (syscall call bytes s).1 ≤ 0 ∧ errno (syscall call bytes s).2 ≠ .eintr
  . rw [if_pos hfails, if_pos hfails]
  . rw [if_neg hfails, if_neg hfails]
    by_cases hmore : addSize bytes (syscall call bytes s).1 < len
    . rw [if_pos hmore]
    . rw [if_neg hmore]
      unfold transferBytes.go
      rw [if_neg hmore]

theorem go_nil (hlt : bytes < len) (s : σ)
    : transferBytes.go syscall errno len [] bytes s = none := by
  unfold transferBytes.go
  rw [if_pos hlt]

theorem go_of_ge (hge : ¬bytes < len) (calls : List Outcome) (s : σ)
    : transferBytes.go syscall errno len calls bytes s = some ⟨true, calls, s⟩ := by
  unfold transferBytes.go
  rw [if_neg hge]

theorem lt_of_afterCall {n : Int} {e : Errno} {bytes' : Nat}
    (h : afterCall len bytes n e = .goesOn bytes')
    : bytes' < len := by
  unfold afterCall at h
  split at h
  . cases h
  . split at h
    . next hlt =>
      cases h
      exact hlt
    . cases h

end Loops

section Write

theorem writeRun_closed (calls : List Outcome) (sock : Sock)
    : writeRun .closed calls sock = some (calls, sock) := by
  cases calls <;> rfl

def writeNext (w : Writer) (r : Returned Bool Sock) : Option (List Outcome × Sock) :=
  if r.result then writeRun w r.calls r.state else some (r.calls, r.state)

theorem writeRun_writing {bytes : Nat} {buf : List UInt8} (hlt : bytes < buf.length)
    (bufs : List (List UInt8)) (calls : List Outcome) (sock : Sock)
    : writeRun (.writing bytes buf bufs) calls sock
        =
      (transferBytes.go (fun call bytes sock => send (buf.drop bytes) call sock) Sock.errno
        buf.length calls bytes sock).bind (writeNext (nextBuf bufs)) := by
  induction calls generalizing bytes sock with
  | nil =>
    rw [go_nil hlt]
    rfl
  | cons call calls ih =>
    rw [go_cons hlt]
    dsimp only [writeRun, writeStep]
    cases hafter : afterCall buf.length bytes (send (buf.drop bytes) call sock).1
        (send (buf.drop bytes) call sock).2.errno with
    | goesOn bytes' => exact ih (lt_of_afterCall hafter) _
    | left result =>
      cases result with
      | true => simp [writeNext]
      | false => simp [writeNext, writeRun_closed]

theorem writeRun_nextBuf (buf : List UInt8) (bufs : List (List UInt8)) (calls : List Outcome)
    (sock : Sock)
    : writeRun (nextBuf (buf :: bufs)) calls sock
        =
      (writeBytes buf calls sock).bind (writeNext (nextBuf bufs)) := by
  conv => lhs; unfold nextBuf
  split
  . next hlt => apply writeRun_writing hlt
  . next hge =>
    unfold writeBytes transferBytes
    rw [go_of_ge hge]
    simp [writeNext]

/--
A client that gets the same answers from the kernel sends what `runes_protocol_send_packet` sends.
-/
theorem sendPacket_eq_writeRun (p : Packet) (calls : List Outcome) (sock : Sock)
    : (sendPacket p calls sock).map (fun r => (r.calls, r.state))
        =
      writeRun (startWriter (some p)) calls sock := by
  unfold sendPacket startWriter
  dsimp only
  split
  . rw [writeRun_closed]
    rfl
  . split
    . rw [writeRun_closed]
      rfl
    . rw [writeRun_nextBuf]
      have hend : ∀ r : Returned Bool Sock, writeNext (nextBuf []) r = some (r.calls, r.state) := by
        intro r
        unfold writeNext nextBuf
        split <;> simp [writeRun_closed]
      cases writeBytes (be32 (.ofNat p.payload.length)) calls sock with
      | none => rfl
      | some r =>
        dsimp only [Option.bind_eq_bind, Option.bind_some]
        conv => rhs; unfold writeNext
        split
        . rw [writeRun_nextBuf]
          cases writeBytes (be32 (u32OfInt p.type)) r.calls r.state with
          | none => rfl
          | some r =>
            dsimp only [Option.bind_eq_bind, Option.bind_some]
            conv => rhs; unfold writeNext
            split
            . rw [writeRun_nextBuf]
              cases writeBytes p.payload r.calls r.state with
              | none => rfl
              | some r =>
                rw [Option.bind_some, hend]
                rfl
            . rfl
        . rfl

end Write

section Read

variable {garbage : Garbage}

def readNext (garbage : Garbage) (stage : Stage) (r : Returned Bool Receiver)
    : Option (Returned (Option Packet) Sock) :=
  if r.result then
    match leave garbage stage r.state.outbuf with
    | .waits reading => readRun garbage reading r.calls r.state.sock
    | .returns packet => some ⟨packet, r.calls, r.state.sock⟩
  else
    some ⟨none, r.calls, r.state.sock⟩

theorem readRun_eq {stage : Stage} {bytes : Nat} (hlt : bytes < stage.size) (outbuf : List UInt8)
    (calls : List Outcome) (sock : Sock)
    : readRun garbage ⟨stage, bytes, outbuf⟩ calls sock
        =
      (transferBytes.go (fun call bytes r => recv bytes (stage.size - bytes) call r)
        (fun r => r.sock.errno) stage.size calls bytes ⟨sock, outbuf⟩).bind
          (readNext garbage stage) := by
  induction calls generalizing bytes outbuf sock with
  | nil =>
    rw [go_nil hlt]
    rfl
  | cons call calls ih =>
    rw [go_cons hlt]
    dsimp only [readRun, readStep]
    cases hafter : afterCall stage.size bytes
        (recv bytes (stage.size - bytes) call ⟨sock, outbuf⟩).1
        (recv bytes (stage.size - bytes) call ⟨sock, outbuf⟩).2.sock.errno with
    | goesOn bytes' => exact ih (lt_of_afterCall hafter) _ _
    | left result =>
      cases result with
      | true =>
        dsimp only [Option.bind_some, readNext]
        rw [if_pos rfl]
        cases leave garbage stage (recv bytes (stage.size - bytes) call ⟨sock, outbuf⟩).2.outbuf with
        | waits reading => rfl
        | returns packet => rfl
      | false => rfl

/--
A daemon that gets the same answers from the kernel reads what `runes_protocol_read_packet` reads.
-/
theorem readPacket_eq_readRun (calls : List Outcome) (sock : Sock)
    : readPacket garbage calls sock = readRun garbage (startReading garbage) calls sock := by
  unfold startReading
  rw [readRun_eq (by decide)]
  unfold readPacket
  change (readBytes 4 calls _).bind _ = (readBytes 4 calls _).bind _
  congr 1
  funext r
  unfold readNext
  split
  . dsimp only [leave]
    rw [readRun_eq (by exact Nat.zero_lt_succ 3)]
    change (readBytes 4 r.calls _).bind _ = (readBytes 4 r.calls _).bind _
    congr 1
    funext r₂
    unfold readNext
    split
    . dsimp only [leave]
      by_cases hbig : (ofBE32 r.state.outbuf).toNat > maxPacketSize
      . rw [if_pos hbig, if_pos hbig]
        rfl
      . rw [if_neg hbig, if_neg hbig]
        by_cases hpos : 0 < (ofBE32 r.state.outbuf).toNat
        . rw [if_pos hpos]
          dsimp only
          rw [readRun_eq (by exact hpos)]
          change (readBytes _ r₂.calls _).bind _ = (readBytes _ r₂.calls _).bind _
          congr 1
        . rw [if_neg hpos]
          unfold readBytes transferBytes
          rw [go_of_ge hpos]
          rfl
    . rfl
  . rfl

end Read

end Daemon
end Runes
