import Runes.Protocol.ParseLemmas

/-!
This module contains what becomes of the blocks that the daemon allocates for a packet: they are
all freed again if the packet is accepted, and the heap is misused if it is not.
-/

namespace Runes
namespace Protocol

open Wire Exec

section Free

theorem run_freeSlots (strs : List Str) (s : LoadState)
    : (freeSlots (strs.map some ++ [none])).run s
        =
      .ok () { s with heap := s.heap.freeAll (strs.map (·.addr)) } := by
  induction strs generalizing s with
  | nil => rfl
  | cons str strs ih =>
    rw [List.map_cons, List.cons_append]
    unfold freeSlots
    rw [EStateM.run_bind, run_free]
    dsimp
    rw [ih]
    rfl

def LoadedMessage.freed (msg : LoadedMessage) : List Nat :=
  msg.argv.strings.map (·.addr)
    ++ (msg.argv.addr :: (msg.envp.strings.map (·.addr) ++ [msg.envp.addr, msg.cwd.addr]))

theorem LoadedMessage.addrs_perm_freed (msg : LoadedMessage) : msg.addrs.Perm msg.freed := by
  unfold addrs freed Strvec.addrs
  rw [List.cons_append, List.cons_append]
  apply List.Perm.trans List.perm_middle.symm
  apply List.Perm.append_left
  apply List.Perm.cons
  apply List.perm_middle.symm

theorem run_freeNewTermMessage {msg : LoadedMessage} {m : WireMessage} (h : msg.Loaded m)
    (s : LoadState)
    : (freeNewTermMessage msg).run s
        =
      .ok () { s with heap := s.heap.freeAll msg.freed } := by
  unfold freeNewTermMessage
  rw [h.argv.terminated, h.envp.terminated]
  simp only [EStateM.run_bind, run_freeSlots, run_free]
  simp [LoadedMessage.freed, Heap.freeAll_append]

end Free

section Handle

variable {mem : List UInt8} {len : Nat} {s s' : LoadState}

theorem run_handle_some {msg : LoadedMessage} {m : WireMessage} (h : msg.Loaded m)
    (hparse : (parseNewTermMessage mem len).run s = .ok (some msg) s')
    : (handleNewTermMessage mem len).run s
        =
      .ok (some msg) { s' with heap := s'.heap.freeAll msg.freed } := by
  unfold handleNewTermMessage
  rw [run_bind_ok hparse]
  apply run_bind_ok (run_freeNewTermMessage h s')

theorem run_handle_none (hparse : (parseNewTermMessage mem len).run s = .ok none s')
    : (handleNewTermMessage mem len).run s = .ok none s' := by
  unfold handleNewTermMessage
  rw [run_bind_ok hparse]
  rfl

theorem run_handle_error (hparse : (parseNewTermMessage mem len).run s = .error e s')
    : (handleNewTermMessage mem len).run s = .error e s' := by
  unfold handleNewTermMessage
  apply run_bind_error hparse

end Handle

theorem WireMessage.allocatable_of_encode_lt {m : WireMessage} (h : m.encode.length < 2 ^ 32)
    : m.Allocatable := by
  have hargv := m.argv.size_lt_encode_length
  have henvp := m.envp.size_lt_encode_length
  simp only [encode, List.length_append, be32_length, Block.encode_length] at h
  have hargvLen := m.argv.length_le_encode_length
  have henvpLen := m.envp.length_le_encode_length
  constructor
  . refine ⟨by omega, ?_⟩
    intro b hb
    have := hargv b hb
    omega
  . refine ⟨by omega, ?_⟩
    intro b hb
    have := henvp b hb
    omega
  . omega

/--
Handling the packet `bs` ends normally, never frees what is not one of the live blocks, and leaves
the same blocks live as there were before. For a packet as large as `runes_protocol_read_packet` lets it
be, the sizes that are allocated do not wrap around, so that all that is stored fits into its block.
-/
def FreesOnce (bs tail : List UInt8) (s : LoadState) : Prop :=
  ∃ r s', (handleNewTermMessage (bs ++ tail) bs.length).run s = .ok r s' ∧
    s'.heap.badFrees = [] ∧ s'.heap.live = s.heap.live ∧
      (bs.length ≤ maxPacketSize → s'.heap.badStores = s.heap.badStores)

theorem freesOnce_of_wire (m : WireMessage) (rest tail : List UInt8)
    (hlt : (m.encode ++ rest).length < 2 ^ 64) {s : LoadState} (hs : s.heap.badFrees = [])
    : FreesOnce (m.encode ++ rest) tail s := by
  obtain ⟨msg, s', hreturns, hloaded, halloc, hstores⟩ :=
    returns_parseNewTermMessage m (.start _ tail) hlt s
  have hfreed := halloc.freeAll_eq msg.addrs_perm_freed
  refine ⟨some msg, _, run_handle_some hloaded hreturns.run_eq, ?_, hfreed.right, ?_⟩
  . rw [hfreed.left, hs]
  . intro hsize
    have hsmall : m.encode.length < 2 ^ 32 := by
      unfold maxPacketSize at hsize
      rw [List.length_append] at hsize
      omega
    dsimp only
    rw [Heap.freeAll_badStores, hstores (WireMessage.allocatable_of_encode_lt hsmall)]

theorem not_freesOnce_of_fails {bs tail : List UInt8}
    (h : Fails bs.length (parseNewTermMessage (bs ++ tail) bs.length)) (s : LoadState)
    : ¬FreesOnce bs tail s := by
  obtain ⟨s', hreturns, hfreed⟩ := h s
  rintro ⟨r, s'', hrun, hnone, _⟩
  rw [run_handle_none hreturns.run_eq] at hrun
  injection hrun with _ hstate
  rw [hstate, hnone] at hfreed
  simp at hfreed

theorem not_freesOnce_of_overlong {bs : List UInt8} (hlt : bs.length < 2 ^ 64)
    (h : Overlong bs) (s : LoadState)
    : ¬FreesOnce bs [] s := by
  obtain ⟨s', hcrash⟩ := (strays_parseNewTermMessage (.start bs []) hlt h s).crashes (by simp)
  rintro ⟨r, s'', hrun, _⟩
  rw [run_handle_error hcrash] at hrun
  cases hrun

/--
The heap is used properly on the packets that are accepted, and on no other.
-/
theorem freesOnce_iff (bs : List UInt8) (hlt : bs.length < 2 ^ 64)
    : (∀ tail s, s.heap.badFrees = [] → FreesOnce bs tail s)
        ↔
      ∃ m rest, bs = WireMessage.encode m ++ rest := by
  constructor
  . intro h
    rcases parseNewTermMessage_cases (.start bs []) hlt with hlayout | hover | hfails
    . exact hlayout
    . exact absurd (h [] ⟨[], .empty⟩ rfl) (not_freesOnce_of_overlong hlt hover _)
    . exact absurd (h [] ⟨[], .empty⟩ rfl) (not_freesOnce_of_fails hfails _)
  . rintro ⟨m, rest, rfl⟩ tail s hs
    apply freesOnce_of_wire m rest tail hlt hs

def smallPacket : List UInt8 :=
  [0, 0, 0, 1, 0, 0, 0, 2, 0, 0, 0, 2, 0, 0, 0, 1, 97, 0, 0, 0, 0, 0, 0, 0, 0, 0, 0, 0, 1, 47]

theorem freesOnce_smallPacket : FreesOnce smallPacket [] ⟨[], .empty⟩ := by
  refine (freesOnce_iff smallPacket (by decide)).mpr ?_ [] ⟨[], .empty⟩ rfl
  exact ⟨⟨2, ⟨[⟨[97], by decide⟩, ⟨[], by decide⟩], by decide⟩, ⟨[], by decide⟩, ⟨[47], by decide⟩⟩,
    [], by decide⟩

theorem not_freesOnce_truncated
    : (endState ((handleNewTermMessage (smallPacket.take 14) 14).run ⟨[], .empty⟩)).heap.badFrees
        = [.foreign .outmsg, .foreign .stale, .foreign .stale]
        ∧
      ¬FreesOnce (smallPacket.take 14) [] ⟨[], .empty⟩ := by
  have hfrees : (endState ((handleNewTermMessage (smallPacket.take 14) 14).run
      ⟨[], .empty⟩)).heap.badFrees = [.foreign .outmsg, .foreign .stale, .foreign .stale] := by
    decide
  refine ⟨hfrees, ?_⟩
  rintro ⟨r, s', hrun, hnone, _⟩
  rw [List.append_nil] at hrun
  have hlen : (smallPacket.take 14).length = 14 := by decide
  rw [hlen] at hrun
  rw [hrun] at hfrees
  dsimp only [endState] at hfrees
  rw [hnone] at hfrees
  simp at hfrees

end Protocol
end Runes
