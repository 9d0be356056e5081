import Runes.Config.Precedence
import Runes.Daemon.Environ

/-!
This module contains that the terminals of the daemon have the options of the clients that have asked for
them.
-/

namespace Runes
namespace Daemon

open Config Libc Protocol Exec Unix

theorem intOfU32_ofNat {n : Nat} (h : n < 2 ^ 31) : intOfU32 (.ofNat n) = n := by
  have hmod : (UInt32.ofNat n).toNat = n := by
    rw [UInt32.toNat_ofNat']
    omega
  unfold intOfU32
  rw [hmod, if_pos h]

-- A client whose message gets through has no more arguments than its count says.
theorem argc_of_complete {c : Conn} (hcomplete : c.complete = true) (hkills : c.client.kills = false)
    : intOfU32 c.client.message.argc = c.client.argv.length := by
  unfold Conn.complete at hcomplete
  rw [decide_eq_true_eq] at hcomplete
  have hwire := hcomplete.left
  unfold Client.wire Client.packet at hwire
  rw [hkills, if_neg Bool.false_ne_true] at hwire
  cases hcreate : createNewTermMessage c.client.message with
  | none =>
    rw [hcreate] at hwire
    exact absurd rfl hwire
  | some buf =>
    have hlength := ((createNewTermMessage_eq_some_iff _ _).mp hcreate).left.argv_length
    apply intOfU32_ofNat
    apply Nat.lt_of_le_of_lt hlength
    decide

section Messages

variable {env : Env} {s : System} {msg : NewTermMessage}

/--
The loop over the options of a message that the daemon answers with a terminal stays inside of its
arguments, and the terminal has the options of a client that has asked for it, before those of the
configuration file that the daemon finds by its own environment.
-/
theorem options_of_client (h : (machine env).Reaches Uninterrupted s)
    (hmsg : .answer (.newTerm msg) ∈ s.log) {fopen : Path → Option (List UInt8)} {environ : Environ}
    {line : Buffer lineSize} {l : List Setting}
    (hfile : settings ((configPaths environ).findSome? fopen) line 0 [] = some l)
    : ∃ c ∈ s.conns, c.client.kills = false ∧
        ∃ config,
          configNew (getConfigFile fopen environ) line (intOfU32 msg.argc) msg.argv = some config ∧
            ∀ f, config.get f
              = ((lastValue f (argOptions c.client.argv.tail)).or (lastValue f l)).getD
                  (setDefaults.get f) := by
  obtain ⟨c, hc, hcomplete, hkills, rfl⟩ := exists_conn_of_answer h hmsg
  refine ⟨c, hc, hkills, ?_⟩
  rw [argc_of_complete hcomplete hkills]
  exact ⟨_, configNew_of_settings hfile c.client.argv, get_configured_append _ _⟩

-- `runesc --rows 40`
def opensRows : Client :=
  { opens with argv := [ascii "runesc", ascii "--rows", ascii "40"].map CString.ofBytes }

def oneClient : List Input :=
  [.connect opensRows, .write 0 (.transfer 4), .write 0 (.transfer 4), .write 0 (.transfer 64),
    .accept .other, .read (.transfer 4), .read (.transfer 4), .read (.transfer 64)]

theorem options_of_client_rows
    : ∃ s, (machine ones).run (machine ones).init oneClient = some s ∧ ∃ config,
        configNew (getConfigFile etcOnly []) (zeroedLine ()).line (intOfU32 opensRows.message.argc)
            opensRows.argv = some config ∧ config.defaultRows = 40 ∧ config.defaultCols = 90 := by
  obtain ⟨s, hrun, hlog, hclient⟩ : ∃ s, (machine ones).run (machine ones).init oneClient = some s ∧
      .answer (.newTerm opensRows.message) ∈ s.log ∧ ∀ c ∈ s.conns, c.client = opensRows :=
    Machine.exists_run (by decide +kernel)
  have hreaches : (machine ones).Reaches Uninterrupted s :=
    Machine.Reaches.run .init (by decide +kernel) hrun
  have hfile : (configPaths []).findSome? etcOnly = some (optionFile sizeOptions) := by
    decide +kernel
  have hsettings := settings_optionFile sizeOptions (zeroedLine ()).line
  rw [← hfile] at hsettings
  obtain ⟨c, hc, _, config, hconfig, hget⟩ := options_of_client hreaches hlog hsettings
  rw [hclient c hc] at hget
  exact ⟨s, hrun, config, hconfig, (hget .defaultRows).trans rfl, (hget .defaultCols).trans rfl⟩

end Messages

end Daemon
end Runes
