import Runes.Heap.Basic
import Runes.Protocol.Basic

/-!
This module contains the decoder of the daemon: the parser for the message that asks for a new
terminal and the functions that it is built from. Pointers into the packet are indices into the
memory that is mapped from the start of the packet on, which may go on after its last byte. The
parser records how it accesses the packet and runs on an explicit heap. The functions are the ones
of `protocol.c`.
-/

namespace Runes
namespace Protocol

open Wire

-- Where an address that `malloc` never returned comes from when it reaches `free`: it is the
-- message in the frame of the caller or what is read through a vector that is already freed.
inductive Origin where
  | outmsg
  | stale
  deriving DecidableEq

inductive Access where
  -- a `LOAD` computes `len - offset`
  | window (offset len : Nat)
  -- a loader returns `n` for a window of `len` bytes
  | incr (len n : Nat)
  -- `n` bytes are read, starting at index `p`
  | read (p n : Nat)
  deriving DecidableEq

def Access.Inside (len : Nat) (a : Access) : Prop :=
  match a with
  | window offset limit => offset ≤ limit
  | incr limit n => n ≤ limit
  | read p n => ∀ i < n, p + i < len

instance : Decidable (Access.Inside len a) := by
  cases a <;> unfold Access.Inside <;> infer_instance

inductive Crash where
  | segfault
  deriving DecidableEq

structure LoadState where
  trace : List Access
  heap : Heap Origin

abbrev LoadM := EStateM Crash LoadState

def sizeSub (a b : Nat) : Nat := (a + 2 ^ 64 - b % 2 ^ 64) % 2 ^ 64

def wrap32 (a : Nat) : Nat := a % 2 ^ 32

def LoadState.record (s : LoadState) (a : Access) : LoadState :=
  { s with trace := s.trace ++ [a] }

def record (a : Access) : LoadM Unit :=
  modify (fun s => s.record a)

def malloc (size : Nat) : LoadM Nat :=
  modifyGet (fun s => (s.heap.next, { s with heap := s.heap.malloc size }))

def free (p : Ptr Origin) : LoadM Unit :=
  modify (fun s => { s with heap := s.heap.free p })

def store (addr : Nat) (extent : Nat) : LoadM Unit :=
  modify (fun s => { s with heap := s.heap.store addr extent })

def readAt (mem : List UInt8) (p n : Nat) : LoadM (List UInt8) := do
  record (.read p n)
  if n = 0 ∨ p + n ≤ mem.length then
    return (mem.drop p).take n
  else
    throw .segfault

structure Str where
  addr : Nat
  bytes : List UInt8
  deriving DecidableEq

structure Strvec where
  addr : Nat
  slots : List (Option Str)
  deriving DecidableEq

/--
The `LOAD` macro up to its cleanup, which is the caller's: run the loader on what is left of the
window after `offset` and advance the offset.
-/
def load (loader : Nat → Nat → LoadM (Option (α × Nat))) (buf len offset : Nat)
    : LoadM (Option (α × Nat)) := do
  record (.window offset len)
  match ← loader (buf + offset) (sizeSub len offset) with
  | none => return none
  | some (val, incr) =>
    record (.incr (sizeSub len offset) incr)
    return some (val, offset + incr)

def loadU32 (mem : List UInt8) (buf len : Nat) : LoadM (Option (UInt32 × Nat)) := do
  if len < 4 then
    return none
  else
    let hi ← readAt mem buf 4
    return some (ofBE32 hi, 4)

def loadStr (mem : List UInt8) (buf len : Nat) : LoadM (Option (Str × Nat)) := do
  match ← load (loadU32 mem) buf len 0 with
  | none =>
    free .null
    return none
  | some (strlen, offset) =>
    -- the limit still counts the four bytes of the header
    if strlen.toNat > len then
      return none
    else
      let addr ← malloc (wrap32 (strlen.toNat + 1))
      let bytes ← readAt mem (buf + offset) strlen.toNat
      store addr (strlen.toNat + 1)
      return some (⟨addr, bytes⟩, offset + strlen.toNat)

/--
`free(*vec[i])` for the elements of a vector. The subscript binds tighter than the dereference, so
this reads from the vector, which is gone already, and from whatever lies behind the pointer to it.
-/
def freeStale (veclen : Nat) : LoadM Unit :=
  match veclen with
  | 0 => return ()
  | n + 1 => do
    free (.foreign .stale)
    freeStale n

def loadStrs (mem : List UInt8) (buf len vec veclen n offset : Nat)
    : LoadM (Option (List Str × Nat)) :=
  match n with
  | 0 => return some ([], offset)
  | n + 1 => do
    store vec (8 * (veclen - n))
    match ← load (loadStr mem) buf len offset with
    | none =>
      free (.block vec)
      freeStale veclen
      return none
    | some (str, offset) =>
      match ← loadStrs mem buf len vec veclen n offset with
      | none => return none
      | some (strs, offset) => return some (str :: strs, offset)

def loadStrvec (mem : List UInt8) (buf len : Nat) : LoadM (Option (Strvec × Nat)) := do
  match ← load (loadU32 mem) buf len 0 with
  | none =>
    -- `*vec` is still `NULL` and `veclen` still zero
    free .null
    return none
  | some (veclen, offset) =>
    if veclen.toNat > len then
      return none
    else
      let vec ← malloc (8 * wrap32 (veclen.toNat + 1))
      match ← loadStrs mem buf len vec veclen.toNat veclen.toNat offset with
      | none => return none
      | some (strs, offset) =>
        store vec (8 * (veclen.toNat + 1))
        return some (⟨vec, strs.map some ++ [none]⟩, offset)

structure LoadedMessage where
  argc : UInt32
  argv : Strvec
  envp : Strvec
  cwd : Str
  deriving DecidableEq

-- Every failure of a field takes this way out, with a pointer to the message of the caller.
def parseFail : LoadM (Option LoadedMessage) := do
  free (.foreign .outmsg)
  return none

def loadField (loader : Nat → Nat → LoadM (Option (α × Nat))) (len offset : Nat)
    (next : α → Nat → LoadM (Option LoadedMessage))
    : LoadM (Option LoadedMessage) := do
  match ← load loader 0 len offset with
  | none => parseFail
  | some (val, offset) => next val offset

def parseNewTermMessage (mem : List UInt8) (len : Nat) : LoadM (Option LoadedMessage) :=
  loadField (loadU32 mem) len 0 fun version offset =>
  if version ≠ messageVersion then
    parseFail
  else
    loadField (loadU32 mem) len offset fun argc offset =>
    loadField (loadStrvec mem) len offset fun argv offset =>
    loadField (loadStrvec mem) len offset fun envp offset =>
    loadField (loadStr mem) len offset fun cwd _ =>
    return some ⟨argc, argv, envp, cwd⟩

def freeSlots (slots : List (Option Str)) : LoadM Unit :=
  match slots with
  | some str :: slots => do
    free (.block str.addr)
    freeSlots slots
  | none :: _ => return ()
  | [] => throw .segfault

def freeNewTermMessage (msg : LoadedMessage) : LoadM Unit := do
  freeSlots msg.argv.slots
  free (.block msg.argv.addr)
  freeSlots msg.envp.slots
  free (.block msg.envp.addr)
  free (.block msg.cwd.addr)

/--
`runes_daemon_handle_new_term_message`, with the message that it hands to `runes_term_new` as the
result. The new terminal keeps nothing of the message.
-/
def handleNewTermMessage (mem : List UInt8) (len : Nat) : LoadM (Option LoadedMessage) := do
  match ← parseNewTermMessage mem len with
  | some msg =>
    freeNewTermMessage msg
    return some msg
  | none => return none

def Strvec.strings (v : Strvec) : List Str :=
  go v.slots
where
  go (slots : List (Option Str)) : List Str :=
    match slots with
    | some str :: slots => str :: go slots
    | none :: _ => []
    | [] => []

def LoadedMessage.view (msg : LoadedMessage) : NewTermMessage where
  argc := msg.argc
  argv := msg.argv.strings.map (fun str => .ofBytes str.bytes)
  envp := msg.envp.strings.map (fun str => .ofBytes str.bytes)
  cwd := .ofBytes msg.cwd.bytes

end Protocol
end Runes
