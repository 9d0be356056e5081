import Runes.Protocol.ParseLemmas

/-!
This module contains the proof that the parser of the daemon stays inside of its packet on all
packets but those with an overlong string.
-/

namespace Runes
namespace Protocol

open Wire Exec

/--
Every access that the parser makes to the packet `bs` is inside of it, whatever comes behind the
packet in memory.
-/
def ParsesInside (bs : List UInt8) : Prop :=
  ∀ tail s, s.trace = [] →
    ∀ a ∈ (endState ((parseNewTermMessage (bs ++ tail) bs.length).run s)).trace, a.Inside bs.length

theorem not_overlong_of_wire (m : WireMessage) (rest : List UInt8)
    (hlt : (m.encode ++ rest).length < 2 ^ 64)
    : ¬Overlong (m.encode ++ rest) := by
  intro hover
  have hwindow := Window.start (m.encode ++ rest) []
  obtain ⟨msg, s', hreturns, _⟩ := returns_parseNewTermMessage m hwindow hlt ⟨[], .empty⟩
  obtain ⟨a, hmem, houtside⟩ := (strays_parseNewTermMessage hwindow hlt hover ⟨[], .empty⟩).outside
  rw [hreturns.run_eq] at hmem
  exact houtside (hreturns.all_inside rfl a hmem)

/--
The limit of `loadStr` counts the header of the string, so a string may announce up to four bytes
more than the packet has left. Nothing else leads the parser out of the packet.
-/
theorem parsesInside_iff (bs : List UInt8) (hlt : bs.length < 2 ^ 64)
    : ParsesInside bs ↔ ¬Overlong bs := by
  constructor
  . intro hinside hover
    have hstrays := strays_parseNewTermMessage (.start bs []) hlt hover ⟨[], .empty⟩
    obtain ⟨a, hmem, houtside⟩ := hstrays.outside
    exact houtside (hinside [] _ rfl a hmem)
  . intro hover tail s htrace
    rcases parseNewTermMessage_cases (.start bs tail) hlt with ⟨m, rest, rfl⟩ | hover' | hfails
    . obtain ⟨msg, s', hreturns, _⟩ := returns_parseNewTermMessage m (.start _ tail) hlt s
      rw [hreturns.run_eq]
      apply hreturns.all_inside htrace
    . exact absurd hover' hover
    . obtain ⟨s', hreturns, _⟩ := hfails s
      rw [hreturns.run_eq]
      apply hreturns.all_inside htrace

-- The arguments `r` and `vi`, the environment `A=` and an empty string, and the directory `/h`.
def viWire : WireMessage where
  argc := 2
  argv := ⟨[⟨[114], by decide⟩, ⟨[118, 105], by decide⟩], by decide⟩
  envp := ⟨[⟨[65, 61], by decide⟩, ⟨[], by decide⟩], by decide⟩
  cwd := ⟨[47, 104], by decide⟩

theorem parsesInside_viWire : ParsesInside (viWire.encode ++ [7]) := by
  apply (parsesInside_iff (viWire.encode ++ [7]) (by decide)).mpr
  apply not_overlong_of_wire viWire [7] (by decide)

def overlongPacket : List UInt8 := [0, 0, 0, 1, 0, 0, 0, 0, 0, 0, 0, 0, 0, 0, 0, 0, 0, 0, 0, 1]

theorem not_parsesInside_overlongPacket
    : overlongPacket.length = 20
        ∧
      .incr 4 5 ∈ (endState ((parseNewTermMessage (overlongPacket ++ [65]) 20).run
        ⟨[], .empty⟩)).trace
        ∧
      .read 20 1 ∈ (endState ((parseNewTermMessage (overlongPacket ++ [65]) 20).run
        ⟨[], .empty⟩)).trace
        ∧
      ¬ParsesInside overlongPacket := by
  refine ⟨by decide, by decide, by decide, ?_⟩
  intro h
  have hinside := h [65] ⟨[], .empty⟩ rfl (.incr 4 5) (by decide)
  revert hinside
  decide

end Protocol
end Runes
