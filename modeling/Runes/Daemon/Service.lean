import Runes.Exec.Machine
import Runes.Libc.Number
import Runes.Protocol.Load
import Runes.Protocol.Packet
import Runes.Protocol.Store

/-!
This module contains the daemon and the clients that connect to it as one system. A step is one call
of a client or of the daemon that the kernel answers, so the steps of all of them interleave in every
order. The functions are the ones of `daemon.c`, `runesc.c` and `protocol.c`.
-/

namespace Runes
namespace Daemon

open Libc Protocol Wire

def newTerm : Int := 0

def killDaemon : Int := 1

-- A run of `runesc`, by what it gets from the one who starts it.
structure Client where
  argv : List CString
  environ : List CString
  cwd : CString
  deriving DecidableEq

def Client.message (c : Client) : NewTermMessage where
  argc := .ofNat c.argv.length
  argv := c.argv
  envp := c.environ
  cwd := c.cwd

def Client.kills (c : Client) : Bool :=
  match c.argv with
  | _ :: option :: _ => option.bytes = ascii "--kill-daemon"
  | _ => false

/--
What `main` hands to `runes_protocol_send_packet`, if it comes so far.
-/
def Client.packet (c : Client) : Option Packet :=
  if c.kills then
    some ⟨killDaemon, []⟩
  else
    (createNewTermMessage c.message).map (fun buf => ⟨newTerm, buf⟩)

section Loops

inductive Loop where
  | goesOn (bytes : Nat)
  | left (result : Bool)
  deriving DecidableEq

/--
What `runes_protocol_read_bytes` and `runes_protocol_write_bytes` do between the calls that they
make: after one that returned `n` the loop goes on with a new count, or is left.
-/
def afterCall (len bytes : Nat) (n : Int) (errno : Errno) : Loop :=
  if n ≤ 0 ∧ errno ≠ .eintr then
    .left false
  else if addSize bytes n < len then
    .goesOn (addSize bytes n)
  else
    .left true

end Loops

section Write

inductive Writer where
  -- the next call is made for `buf`, of which `bytes` are counted as written
  | writing (bytes : Nat) (buf : List UInt8) (bufs : List (List UInt8))
  | closed
  deriving DecidableEq

def nextBuf (bufs : List (List UInt8)) : Writer :=
  match bufs with
  | [] => .closed
  | buf :: bufs => if 0 < buf.length then .writing 0 buf bufs else nextBuf bufs

/-- `runes_protocol_send_packet` up to its first call, and `main` around it. -/
def startWriter (packet : Option Packet) : Writer :=
  match packet with
  | none => .closed
  | some p =>
    if p.payload.length > maxPacketSize then
      .closed
    else if p.type < 0 ∨ p.type ≥ numMessageTypes then
      .closed
    else
      nextBuf [be32 (.ofNat p.payload.length), be32 (u32OfInt p.type), p.payload]

def writeStep (w : Writer) (call : Outcome) (sock : Sock) : Writer × Sock :=
  match w with
  | .writing bytes buf bufs =>
    let (n, sock) := send (buf.drop bytes) call sock
    match afterCall buf.length bytes n sock.errno with
    | .goesOn bytes => (.writing bytes buf bufs, sock)
    | .left true => (nextBuf bufs, sock)
    | .left false => (.closed, sock)
  | .closed => (.closed, sock)

end Write

section Read

-- The three loops of `runes_protocol_read_packet`, with what the ones before have read.
inductive Stage where
  | len
  | type (len : UInt32)
  | payload (len type : UInt32)
  deriving DecidableEq

def Stage.size (stage : Stage) : Nat :=
  match stage with
  | .len => 4
  | .type _ => 4
  | .payload n _ => n.toNat

structure Reading where
  stage : Stage
  bytes : Nat
  outbuf : List UInt8
  deriving DecidableEq

inductive Read where
  | waits (r : Reading)
  | returns (packet : Option Packet)
  deriving DecidableEq

def startReading (garbage : Garbage) : Reading := ⟨.len, 0, garbage 4⟩

def leave (garbage : Garbage) (stage : Stage) (outbuf : List UInt8) : Read :=
  match stage with
  | .len => .waits ⟨.type (ofBE32 outbuf), 0, garbage 4⟩
  | .type len =>
    let type := ofBE32 outbuf
    if len.toNat > maxPacketSize then
      .returns none
    else if 0 < len.toNat then
      .waits ⟨.payload len type, 0, garbage len.toNat⟩
    else
      .returns (some ⟨intOfU32 type, garbage len.toNat⟩)
  | .payload _ type => .returns (some ⟨intOfU32 type, outbuf⟩)

def readStep (garbage : Garbage) (r : Reading) (call : Outcome) (sock : Sock) : Read × Sock :=
  let (n, rc) := recv r.bytes (r.stage.size - r.bytes) call ⟨sock, r.outbuf⟩
  match afterCall r.stage.size r.bytes n rc.sock.errno with
  | .goesOn bytes => (.waits ⟨r.stage, bytes, rc.outbuf⟩, rc.sock)
  | .left true => (leave garbage r.stage rc.outbuf, rc.sock)
  | .left false => (.returns none, rc.sock)

end Read

-- A connection with the client at its other end. The daemon has taken `received` of the bytes that
-- the client has sent.
structure Conn where
  client : Client
  writer : Writer
  sock : Sock
  received : Nat
  deriving DecidableEq

def Conn.incoming (c : Conn) : List UInt8 := c.sock.stream.drop c.received

inductive Answer where
  -- `runes_term_new`
  | newTerm (msg : NewTermMessage)
  -- `runes_loop_stop`
  | stop
  | unknownPacket (type : Int)
  | invalidPacket
  | unparsable
  deriving DecidableEq

inductive Event where
  | accept (conn : Nat)
  | answer (answer : Answer)
  | close (conn : Nat)
  deriving DecidableEq

/--
What `runes_daemon_handle_request` does with what `runes_protocol_read_packet` has returned.
-/
def answerPacket (behind : List UInt8) (packet : Option Packet) (load : LoadState)
    : Except Crash (Answer × LoadState) :=
  match packet with
  | some p =>
    if p.type = newTerm then
      match (handleNewTermMessage (p.payload ++ behind) p.payload.length).run load with
      | .ok (some msg) load => .ok (.newTerm msg.view, load)
      | .ok none load => .ok (.unparsable, load)
      | .error e _ => .error e
    else if p.type = killDaemon then
      .ok (.stop, load)
    else
      .ok (.unknownPacket p.type, load)
  | none => .ok (.invalidPacket, load)

inductive Phase where
  -- in `runes_loop_run`
  | polling
  | reading (r : Reading)
  -- `runes_loop_run` has returned, `main` returns
  | returned
  | crashed
  deriving DecidableEq

-- The connections are in the order in which they were made, and so is the queue of the socket: it
-- holds those that are not accepted yet.
structure System where
  conns : List Conn
  accepted : Nat
  phase : Phase
  errno : Errno
  load : LoadState
  -- the block that the payload is read into
  buf : Option Nat
  log : List Event

-- What lies in memory that nothing was stored to yet, and behind a packet.
structure Env where
  garbage : Garbage
  behind : Nat → List UInt8

inductive Input where
  | connect (client : Client)
  -- the call that client number `conn` waits for returns
  | write (conn : Nat) (call : Outcome)
  -- the client is killed
  | die (conn : Nat)
  -- the socket of the daemon is readable, `errno` is what other callbacks have left
  | accept (errno : Errno)
  | read (call : Outcome)
  deriving DecidableEq

def System.alive (s : System) : Bool := s.phase ≠ .returned ∧ s.phase ≠ .crashed

def connect (client : Client) (s : System) : System :=
  let conn : Conn := ⟨client, startWriter client.packet, ⟨.other, []⟩, 0⟩
  { s with conns := s.conns ++ [conn] }

def accept (env : Env) (errno : Errno) (s : System) : System :=
  { s with
    accepted := s.accepted + 1
    phase := .reading (startReading env.garbage)
    errno := errno
    log := s.log ++ [.accept s.accepted]
  }

/--
The size that `runes_protocol_read_packet` allocates between two calls: the block is there before the
payload is read, also if that takes no call.
-/
def allocates (stage : Stage) (read : Read) : Option Nat :=
  match stage, read with
  | .type _, .waits ⟨.payload len _, _, _⟩ => some len.toNat
  | .type len, .returns (some _) => some len.toNat
  | _, _ => none

def System.allocated (s : System) (stage : Stage) (read : Read) : System :=
  match allocates stage read with
  | some size =>
    { s with
      load := { s.load with heap := s.load.heap.malloc size }
      buf := some s.load.heap.next
    }
  | none => s

/--
`free(buf)`: by `runes_daemon_handle_request` behind the answer to a packet, or by
`runes_protocol_read_packet` if the payload has not come to its end.
-/
def freeBuf (buf : Option Nat) (load : LoadState) : LoadState :=
  match buf with
  | some addr => { load with heap := load.heap.free (.block addr) }
  | none => load

def finish (env : Env) (packet : Option Packet) (s : System) : System :=
  let conn := s.accepted - 1
  match answerPacket (env.behind conn) packet s.load with
  | .ok (answer, load) =>
    { s with
      phase := if answer = .stop then .returned else .polling
      load := freeBuf s.buf load
      buf := none
      log := s.log ++ [.answer answer, .close conn]
    }
  | .error _ => { s with phase := .crashed }

def readCall (env : Env) (r : Reading) (conn : Conn) (call : Outcome) (s : System) : System :=
  let (read, sock) := readStep env.garbage r call ⟨s.errno, conn.incoming⟩
  let taken := conn.incoming.length - sock.stream.length
  let s :=
    { s with
      errno := sock.errno
      conns := s.conns.set (s.accepted - 1) { conn with received := conn.received + taken }
    }
  let s := s.allocated r.stage read
  match read with
  | .waits r => { s with phase := .reading r }
  | .returns packet => finish env packet s

/--
A read waits as long as there is nothing to be read from a client that may still write.
-/
def Conn.readable (c : Conn) : Bool := c.incoming ≠ [] ∨ c.writer = .closed

-- A call that waits may be interrupted.
def Conn.returns (c : Conn) (call : Outcome) : Bool :=
  match call with
  | .transfer n => c.readable ∧ 0 < n
  | .fail _ => true

def Conn.wrote (c : Conn) (call : Outcome) : Conn :=
  let (writer, sock) := writeStep c.writer call c.sock
  { c with writer := writer, sock := sock }

def Outcome.moves (call : Outcome) : Bool :=
  match call with
  | .transfer n => 0 < n
  | .fail _ => true

def step (env : Env) (s : System) (i : Input) : Option System :=
  match i with
  | .connect client => if s.alive then some (connect client s) else none
  | .write i call =>
    match s.conns[i]? with
    | some conn =>
      if conn.writer ≠ .closed ∧ Outcome.moves call then
        some { s with conns := s.conns.set i (conn.wrote call) }
      else
        none
    | none => none
  | .die i =>
    match s.conns[i]? with
    | some conn =>
      if conn.writer ≠ .closed then
        some { s with conns := s.conns.set i { conn with writer := .closed } }
      else
        none
    | none => none
  | .accept errno =>
    if s.phase = .polling ∧ s.accepted < s.conns.length then some (accept env errno s) else none
  | .read call =>
    match s.phase, s.conns[s.accepted - 1]? with
    | .reading r, some conn =>
      if conn.returns call then some (readCall env r conn call s) else none
    | _, _ => none

def machine (env : Env) : Exec.Machine System Input where
  init := ⟨[], 0, .polling, .other, ⟨[], .empty⟩, none, []⟩
  step := step env

/-- What the steps are that the inputs make possible. -/
inductive Steps (env : Env) (s : System) : Input → System → Prop where
  | connect (client : Client) (halive : s.alive = true)
      : Steps env s (.connect client) (connect client s)
  | write {i : Nat} (c : Conn) {call : Outcome} (hc : s.conns[i]? = some c)
      (hopen : c.writer ≠ .closed) (hmoves : Outcome.moves call = true)
      : Steps env s (.write i call) { s with conns := s.conns.set i (c.wrote call) }
  | die {i : Nat} (c : Conn) (hc : s.conns[i]? = some c) (hopen : c.writer ≠ .closed)
      : Steps env s (.die i) { s with conns := s.conns.set i { c with writer := .closed } }
  | accept (errno : Errno) (hphase : s.phase = .polling) (hlt : s.accepted < s.conns.length)
      : Steps env s (.accept errno) (accept env errno s)
  | read (r : Reading) (c : Conn) (call : Outcome) (hphase : s.phase = .reading r)
      (hc : s.conns[s.accepted - 1]? = some c) (hreturns : c.returns call = true)
      : Steps env s (.read call) (readCall env r c call s)

theorem steps_of_step {env : Env} {s s' : System} {i : Input}
    (h : (machine env).step s i = some s')
    : Steps env s i s' := by
  change step env s i = some s' at h
  cases i with
  | connect client =>
    dsimp only [step] at h
    split at h
    . next halive =>
      cases h
      exact .connect client halive
    . cases h
  | write i call =>
    dsimp only [step] at h
    split at h
    . next c hc =>
      split at h
      . next hwrites =>
        cases h
        exact .write c hc hwrites.left hwrites.right
      . cases h
    . cases h
  | die i =>
    dsimp only [step] at h
    split at h
    . next c hc =>
      split at h
      . next hopen =>
        cases h
        exact .die c hc hopen
      . cases h
    . cases h
  | accept errno =>
    dsimp only [step] at h
    split at h
    . next hready =>
      cases h
      exact .accept errno hready.left hready.right
    . cases h
  | read call =>
    dsimp only [step] at h
    split at h
    . next r c hphase hc =>
      split at h
      . next hreads =>
        cases h
        exact .read r c call hphase hc hreads
      . cases h
    . cases h

end Daemon
end Runes
