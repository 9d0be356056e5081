import Runes.Config.Args
import Runes.Protocol.AcceptLemmas
import Runes.Protocol.ParseLemmas

/-!
This module contains what the loop over the options does with the arguments of a client.
-/

namespace Runes
namespace Config

open Wire Protocol Exec

def packetWord (bs : List UInt8) (p : Nat) : UInt32 := ofBE32 ((bs.drop p).take 4)

theorem packetWord_append {bs : List UInt8} (tail : List UInt8) {p : Nat} (h : p + 4 ≤ bs.length)
    : packetWord (bs ++ tail) p = packetWord bs p := by
  unfold packetWord
  rw [List.drop_append_of_le_length (by omega), List.take_append_of_le_length]
  rw [List.length_drop]
  omega

/--
The loop over the options dereferences only strings that came with the packet.
-/
def StaysInArgv (set : σ → CString → CString → σ) (config : σ) (msg : LoadedMessage) : Prop :=
  ∀ i ∈ (endState ((processMessageArgs set msg).run ⟨config, [], []⟩)).derefs,
    i < msg.argv.strings.length

theorem staysInArgv_iff (set : σ → CString → CString → σ) (config : σ) (msg : LoadedMessage)
    : StaysInArgv set config msg
        ↔
      intOfU32 msg.argc ≤ 1 ∨ intOfU32 msg.argc ≤ msg.argv.strings.length := by
  have hloop := processArgs.go_inside set (intOfU32 msg.argc)
    (msg.argv.strings.map (fun str => .ofBytes str.bytes)) 1 ⟨config, [], []⟩
  simpa [Inside, StaysInArgv, processMessageArgs, processArgs] using hloop

/--
Nothing relates the argument count of an accepted packet to the number of its arguments. Where the
count is too large the loop leaves the vector, unless the count turns negative as an `int`.
-/
theorem parsed_staysInArgv_iff {bs tail : List UInt8} {s s' : LoadState} {msg : LoadedMessage}
    (hlt : bs.length < 2 ^ 64)
    (haccept : (parseNewTermMessage (bs ++ tail) bs.length).run s = .ok (some msg) s')
    (set : σ → CString → CString → σ) (config : σ)
    : StaysInArgv set config msg
        ↔
      intOfU32 (packetWord bs 4) ≤ 1
        ∨
      intOfU32 (packetWord bs 4) ≤ (packetWord bs 8).toNat := by
  obtain ⟨hlen, hargc, hcount⟩ := of_run_parseNewTermMessage haccept hlt
  have hargcWord : msg.argc = packetWord bs 4 := by
    rw [hargc, ← packetWord_append tail (by omega)]
    rfl
  have hcountWord : msg.argv.strings.length = (packetWord bs 8).toNat := by
    rw [hcount, ← packetWord_append tail (by omega)]
    rfl
  rw [staysInArgv_iff, hargcWord, hcountWord]

def argcFields (argc : UInt32) : WireMessage where
  argc := argc
  argv := ⟨[⟨[97], by decide⟩, ⟨[98], by decide⟩], by decide⟩
  envp := ⟨[], by decide⟩
  cwd := ⟨[47], by decide⟩

theorem exists_parsed_argcFields (argc : UInt32)
    : ∃ msg s',
        (parseNewTermMessage ((argcFields argc).encode ++ []) (argcFields argc).encode.length).run
            ⟨[], .empty⟩
            = .ok (some msg) s'
          ∧
        msg.argc = argc
          ∧
        msg.argv.strings.length = 2 := by
  have hwindow := Window.start (argcFields argc).encode []
  have hlt : (argcFields argc).encode.length < 2 ^ 64 := by
    simp [argcFields, WireMessage.encode, BlockVec.encode]
  rw [← List.append_nil (argcFields argc).encode] at hwindow hlt
  obtain ⟨msg, s', hreturns, hloaded, _⟩ :=
    returns_parseNewTermMessage (argcFields argc) hwindow hlt ⟨[], .empty⟩
  have hcount := congrArg List.length hloaded.argv.bytes
  simp only [List.length_map] at hcount
  simp only [List.append_nil] at hreturns ⊢
  exact ⟨msg, s', hreturns.run_eq, hloaded.argc, hcount⟩

theorem parsed_staysInArgv_argcFields
    : ∃ msg s',
        (parseNewTermMessage ((argcFields 2).encode ++ []) (argcFields 2).encode.length).run
            ⟨[], .empty⟩
            = .ok (some msg) s'
          ∧
        (StaysInArgv (fun keys key _ => keys ++ [key]) [] msg
            ↔
          intOfU32 (packetWord (argcFields 2).encode 4) ≤ 1
            ∨
          intOfU32 (packetWord (argcFields 2).encode 4)
            ≤ (packetWord (argcFields 2).encode 8).toNat)
          ∧
        StaysInArgv (fun keys key _ => keys ++ [key]) [] msg := by
  obtain ⟨msg, s', hrun, _⟩ := exists_parsed_argcFields 2
  have hstays := parsed_staysInArgv_iff (by decide) hrun (fun keys key _ => keys ++ [key]) []
  exact ⟨msg, s', hrun, hstays, hstays.mpr (by decide)⟩

theorem not_staysInArgv_argcFields
    : ∃ msg s',
        (parseNewTermMessage ((argcFields 3).encode ++ []) (argcFields 3).encode.length).run
            ⟨[], .empty⟩
            = .ok (some msg) s'
          ∧
        msg.argv.strings.length = 2
          ∧
        ¬StaysInArgv (fun _ _ _ => ()) () msg := by
  obtain ⟨msg, s', hrun, hargc, hcount⟩ := exists_parsed_argcFields 3
  refine ⟨msg, s', hrun, hcount, ?_⟩
  rw [staysInArgv_iff, hargc, hcount]
  decide

end Config
end Runes
