import Runes.Protocol.Bounds
import Runes.Protocol.MessageLemmas

/-!
This module contains the relation between the encoder of the client and the parser of the daemon:
the parser takes back what the encoder produces, and the packets it accepts are characterized.
-/

namespace Runes
namespace Protocol

open Wire Exec

def Strvec.Terminated (v : Strvec) : Prop := v.slots = v.strings.map some ++ [none]

/--
A message whose encoding fits into a packet arrives unchanged, whatever follows it in the packet
and whatever follows the packet in memory.
-/
theorem parse_create (msg : NewTermMessage) (trailing : List UInt8)
    (hsize : msg.encode.length ≤ maxPacketSize)
    (hlt : (msg.encode ++ trailing).length < 2 ^ 64)
    : createNewTermMessage msg = some msg.encode
        ∧
      ∀ tail s, ∃ loaded s',
        (parseNewTermMessage (msg.encode ++ trailing ++ tail) (msg.encode ++ trailing).length).run s
            = .ok (some loaded) s'
          ∧
        loaded.view = msg
          ∧
        loaded.argv.Terminated
          ∧
        loaded.envp.Terminated := by
  have hstorable := NewTermMessage.storable_of_encode_le hsize
  constructor
  . exact (createNewTermMessage_eq_some_iff msg _).mpr ⟨hstorable, rfl⟩
  . intro tail s
    obtain ⟨m, _, hview, hencode⟩ := hstorable.exists_wire
    rw [← hencode] at hlt ⊢
    obtain ⟨loaded, s', hreturns, hloaded, _⟩ :=
      returns_parseNewTermMessage m (.start _ tail) hlt s
    refine ⟨loaded, s', hreturns.run_eq, ?_, hloaded.argv.terminated, hloaded.envp.terminated⟩
    rw [hloaded.view, hview]

def viMessage : NewTermMessage where
  argc := 2
  argv := [⟨[114], by decide⟩, ⟨[118, 105], by decide⟩]
  envp := [⟨[65, 61], by decide⟩, ⟨[], by decide⟩]
  cwd := ⟨[47], by decide⟩

theorem parse_create_viMessage
    : createNewTermMessage viMessage = some viMessage.encode
        ∧
      ∀ tail s, ∃ loaded s',
        (parseNewTermMessage (viMessage.encode ++ [7] ++ tail) (viMessage.encode ++ [7]).length).run
            s
            = .ok (some loaded) s'
          ∧
        loaded.view = viMessage
          ∧
        loaded.argv.Terminated
          ∧
        loaded.envp.Terminated :=
  parse_create viMessage [7] (by decide) (by decide)

/--
The packet `bs` starts with what the encoder makes of `msg`.
-/
def Carries (bs : List UInt8) (msg : NewTermMessage) : Prop :=
  ∃ buf, createNewTermMessage msg = some buf ∧ buf <+: bs

/--
On the packet `bs` the parser ends as the decoder of the encoder should: it returns the message that
the packet carries and refuses the packet if there is none. A daemon that hands something to `free` that
`malloc` has not returned is ended there, so this is no refusal.
-/
structure DecodesImage (bs tail : List UInt8) (s : LoadState) : Prop where
  accepts_iff :
    (∃ loaded s', (parseNewTermMessage (bs ++ tail) bs.length).run s = .ok (some loaded) s')
      ↔
    ∃ msg, Carries bs msg
  view_eq : ∀ loaded s' msg,
    (parseNewTermMessage (bs ++ tail) bs.length).run s = .ok (some loaded) s' →
      Carries bs msg → loaded.view = msg
  refuses : (¬∃ msg, Carries bs msg) →
    ∃ s', (parseNewTermMessage (bs ++ tail) bs.length).run s = .ok none s' ∧
      s'.heap.badFrees = s.heap.badFrees

theorem carries_of_sendable {m : WireMessage} (h : m.Sendable) (rest : List UInt8)
    : Carries (m.encode ++ rest) m.view :=
  ⟨m.encode, h.create_eq_some, List.prefix_append _ _⟩

theorem exists_wire_of_carries {bs : List UInt8} {msg : NewTermMessage} (h : Carries bs msg)
    : ∃ m rest, bs = WireMessage.encode m ++ rest ∧ m.Sendable ∧ m.view = msg := by
  obtain ⟨buf, hcreate, rest, rfl⟩ := h
  obtain ⟨m, hsend, hview, rfl⟩ := exists_wire_of_create hcreate
  exact ⟨m, rest, rfl, hsend, hview⟩

theorem sendable_of_carries {m : WireMessage} {rest : List UInt8} {msg : NewTermMessage}
    (h : Carries (m.encode ++ rest) msg)
    : m.Sendable ∧ m.view = msg := by
  obtain ⟨m', rest', heq, hsend, hview⟩ := exists_wire_of_carries h
  obtain ⟨rfl, _⟩ := WireMessage.prefixCode_encode _ _ _ _ heq
  exact ⟨hsend, hview⟩

theorem not_decodesImage_of_overlong {bs : List UInt8} (hlt : bs.length < 2 ^ 64)
    (hover : Overlong bs) (s : LoadState)
    : ¬DecodesImage bs [] s := by
  intro h
  have hstrays := strays_parseNewTermMessage (.start bs []) hlt hover s
  obtain ⟨s', hcrash⟩ := hstrays.crashes (by simp)
  by_cases hcarries : ∃ msg, Carries bs msg
  . obtain ⟨loaded, s'', hrun⟩ := h.accepts_iff.mpr hcarries
    rw [hcrash] at hrun
    cases hrun
  . obtain ⟨s'', hrun, _⟩ := h.refuses hcarries
    rw [hcrash] at hrun
    cases hrun

theorem decodesImage_of_sendable {m : WireMessage} (hsend : m.Sendable) (rest tail : List UInt8)
    (hlt : (m.encode ++ rest).length < 2 ^ 64) (s : LoadState)
    : DecodesImage (m.encode ++ rest) tail s := by
  have hcarries := carries_of_sendable hsend rest
  obtain ⟨loaded, s', hreturns, hloaded, _⟩ := returns_parseNewTermMessage m (.start _ tail) hlt s
  constructor
  . constructor
    . intro _
      exact ⟨_, hcarries⟩
    . intro _
      exact ⟨loaded, s', hreturns.run_eq⟩
  . intro loaded' s'' msg hrun hcarries'
    rw [hreturns.run_eq] at hrun
    cases hrun
    rw [hloaded.view, (sendable_of_carries hcarries').right]
  . intro hnone
    exact absurd ⟨_, hcarries⟩ hnone

-- Every refusal frees the message of the caller.
theorem not_decodesImage_of_fails {bs tail : List UInt8} (hnone : ¬∃ msg, Carries bs msg)
    (hfails : Fails bs.length (parseNewTermMessage (bs ++ tail) bs.length)) {s : LoadState}
    (hs : s.heap.badFrees = [])
    : ¬DecodesImage bs tail s := by
  intro h
  obtain ⟨s', hreturns, hfreed⟩ := hfails s
  obtain ⟨s'', hrun, hbad⟩ := h.refuses hnone
  rw [hreturns.run_eq] at hrun
  cases hrun
  rw [hbad, hs] at hfreed
  cases hfreed

/--
The parser decodes the image of the encoder on the packets that it is to accept, and on no others: those
with a `NUL` in a string, or with a string or a vector that no client has, are accepted as something
else, those with an overlong string are read behind their end, and all that are refused misuse the heap.
-/
theorem decodesImage_iff (bs : List UInt8) (hlt : bs.length < 2 ^ 64)
    : (∀ tail s, DecodesImage bs tail s)
        ↔
      ∃ m rest, bs = WireMessage.encode m ++ rest ∧ m.Sendable := by
  constructor
  . intro h
    have hempty := h [] ⟨[], .empty⟩
    rcases parseNewTermMessage_cases (.start bs []) hlt with ⟨m, rest, rfl⟩ | hover | hfails
    . obtain ⟨loaded, s', hreturns, _⟩ :=
        returns_parseNewTermMessage m (.start _ []) hlt ⟨[], .empty⟩
      obtain ⟨msg, hcarries⟩ := hempty.accepts_iff.mp ⟨loaded, s', hreturns.run_eq⟩
      exact ⟨m, rest, rfl, (sendable_of_carries hcarries).left⟩
    . exact absurd hempty (not_decodesImage_of_overlong hlt hover _)
    . by_cases hcarries : ∃ msg, Carries bs msg
      . obtain ⟨msg, hcarries⟩ := hcarries
        obtain ⟨m, rest, heq, hsend, _⟩ := exists_wire_of_carries hcarries
        exact ⟨m, rest, heq, hsend⟩
      . exact absurd hempty (not_decodesImage_of_fails hcarries hfails rfl)
  . rintro ⟨m, rest, rfl, hsend⟩ tail s
    exact decodesImage_of_sendable hsend rest tail hlt s

theorem decodesImage_viMessage : DecodesImage (viMessage.encode ++ [7]) [] ⟨[], .empty⟩ := by
  refine (decodesImage_iff (viMessage.encode ++ [7]) (by decide)).mpr ?_ [] ⟨[], .empty⟩
  have hcarries : Carries (viMessage.encode ++ [7]) viMessage :=
    ⟨viMessage.encode, by decide, List.prefix_append _ _⟩
  obtain ⟨m, rest, heq, hsend, _⟩ := exists_wire_of_carries hcarries
  exact ⟨m, rest, heq, hsend⟩

def nulPacket : List UInt8 :=
  [0, 0, 0, 1, 0, 0, 0, 0, 0, 0, 0, 0, 0, 0, 0, 0, 0, 0, 0, 3, 47, 0, 120]

theorem nulPacket_eq_encode
    : nulPacket
        =
      WireMessage.encode ⟨0, ⟨[], by decide⟩, ⟨[], by decide⟩, ⟨[47, 0, 120], by decide⟩⟩ := by
  decide

theorem not_decodesImage_nulPacket
    : (∃ loaded s',
        (parseNewTermMessage nulPacket 23).run ⟨[], .empty⟩ = .ok (some loaded) s'
          ∧
        loaded.view.cwd.bytes = [47])
        ∧
      (¬∃ msg, Carries nulPacket msg)
        ∧
      ¬DecodesImage nulPacket [] ⟨[], .empty⟩ := by
  have hnone : ¬∃ msg, Carries nulPacket msg := by
    rintro ⟨msg, hcarries⟩
    rw [nulPacket_eq_encode, ← List.append_nil (WireMessage.encode _)] at hcarries
    have := (sendable_of_carries hcarries).left.cwd.nul_free
    revert this
    decide
  have hrun : ∃ loaded s',
      (parseNewTermMessage nulPacket 23).run ⟨[], .empty⟩ = .ok (some loaded) s'
        ∧
      loaded.view.cwd.bytes = [47] := ⟨_, _, rfl, by decide⟩
  refine ⟨hrun, hnone, ?_⟩
  intro h
  obtain ⟨loaded, s', hrun, _⟩ := hrun
  exact hnone (h.accepts_iff.mp ⟨loaded, s', hrun⟩)

end Protocol
end Runes
