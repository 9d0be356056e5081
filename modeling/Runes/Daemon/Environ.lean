import Runes.Daemon.Served
import Runes.Pty.Spawn

/-!
This module contains what the processes in the terminals of the daemon get from the clients that have asked
for the terminals.
-/

namespace Runes
namespace Daemon

open Libc Protocol Exec Pty

def entries (vec : List CString) : Environ := vec.map CString.bytes

/--
`runes_term_new` hands the environment and the directory of a message to `runes_pty_spawn_subprocess`.
-/
def spawnFor {δ : Type} (chdir : List UInt8 → Option δ) (master slave windowId : Nat)
    (cmd : Option (List UInt8)) (p : Process δ) (msg : NewTermMessage)
    : Process δ × Execlp :=
  spawnChild chdir master slave windowId (some (entries msg.envp)) (some msg.cwd.bytes) cmd p

theorem childExec_childEnviron (cmd : Option (List UInt8)) (windowId : Nat) (environ : Environ)
    : childExec cmd (childEnviron windowId environ) = childExec cmd environ := by
  have hshell : getenv (childEnviron windowId environ) shell = getenv environ shell := by
    rw [getenv_childEnviron, if_neg (by decide), if_neg (by decide), if_neg (by decide)]
  unfold childExec
  rw [hshell]

section Messages

variable {env : Env} {s : System} {msg : NewTermMessage}

theorem exists_conn_of_answer (h : (machine env).Reaches Uninterrupted s)
    (hmsg : .answer (.newTerm msg) ∈ s.log)
    : ∃ c ∈ s.conns, c.complete = true ∧ c.client.kills = false ∧ c.client.message = msg := by
  have hlog := (Reaches.serves h).right.log_eq
  rw [hlog] at hmsg
  rcases List.mem_append.mp hmsg with hmsg | hmsg
  . unfold servedLog at hmsg
    obtain ⟨⟨c, n⟩, hc, hevent⟩ := List.mem_flatMap.mp hmsg
    have hmem : c ∈ s.served := (List.mem_zipIdx' hc).right ▸ List.getElem_mem _
    refine ⟨c, List.mem_of_mem_take hmem, ?_⟩
    simp only [Conn.events, List.mem_cons, Event.answer.injEq, reduceCtorEq, List.not_mem_nil,
      or_false, false_or] at hevent
    unfold Conn.answer at hevent
    split at hevent
    . next hcomplete =>
      split at hevent
      . cases hevent
      . next hkills =>
        cases hevent
        exact ⟨hcomplete, by simpa using hkills, rfl⟩
    . cases hevent
  . unfold System.current at hmsg
    split at hmsg
    . simp at hmsg
    . cases hmsg

/--
The program in a terminal that the daemon has opened finds the environment of a client that has asked for
it, but for what describes the terminal, runs in the directory of that client if there is such a one,
and is the shell of that client unless the configuration has a command.
-/
theorem environ_of_client (h : (machine env).Reaches Uninterrupted s)
    (hmsg : .answer (.newTerm msg) ∈ s.log) {δ : Type} (chdir : List UInt8 → Option δ)
    (master slave windowId : Nat) (cmd : Option (List UInt8)) (p : Process δ)
    : ∃ c ∈ s.conns, c.client.kills = false
        ∧
      (∀ name, getenv (spawnFor chdir master slave windowId cmd p msg).1.environ name
          = if name = term then
              some (ascii "screen-256color")
            else if name = windowid then
              some (decimalOf windowId)
            else if name ∈ changed then
              none
            else
              getenv (entries c.client.environ) name)
        ∧
      (spawnFor chdir master slave windowId cmd p msg).1.cwd
          = (chdir c.client.cwd.bytes).getD p.cwd
        ∧
      (spawnFor chdir master slave windowId cmd p msg).2
          = childExec cmd (entries c.client.environ) := by
  obtain ⟨c, hc, _, hkills, rfl⟩ := exists_conn_of_answer h hmsg
  refine ⟨c, hc, hkills, ?_, rfl, ?_⟩
  . intro name
    apply getenv_childEnviron
  . apply childExec_childEnviron

theorem environ_of_client_opens
    : ∃ s : System, ∃ c ∈ s.conns, c.client.kills = false
        ∧
      (∀ name, getenv (spawnFor (fun _ => (none : Option Unit)) 5 6 77 none ⟨[], [], (), none⟩
            opens.message).1.environ name
          = if name = term then
              some (ascii "screen-256color")
            else if name = windowid then
              some (decimalOf 77)
            else if name ∈ changed then
              none
            else
              getenv (entries c.client.environ) name)
        ∧
      (spawnFor (fun _ => (none : Option Unit)) 5 6 77 none ⟨[], [], (), none⟩ opens.message).1.cwd = ()
        ∧
      (spawnFor (fun _ => (none : Option Unit)) 5 6 77 none ⟨[], [], (), none⟩ opens.message).2
          = childExec none (entries c.client.environ) := by
  have ⟨s, hrun, hlog⟩ : ∃ s, (machine ones).run (machine ones).init threeClients = some s ∧
      .answer (.newTerm opens.message) ∈ s.log :=
    Machine.exists_run (by decide +kernel)
  have hreaches : (machine ones).Reaches Uninterrupted s :=
    Machine.Reaches.run .init (by decide +kernel) hrun
  exact ⟨s, environ_of_client hreaches hlog (fun _ => none) 5 6 77 none ⟨[], [], (), none⟩⟩

end Messages

end Daemon
end Runes
