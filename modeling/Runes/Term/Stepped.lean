import Runes.Term.Callbacks

/-!
This module contains what the steps of the machine are, with the states that they lead to.
-/

namespace Runes
namespace Term

variable {ρ : Type} {env : Env ρ} {s s' : World ρ}

-- The output of the program is in the screen, but nothing is drawn yet.
def ptyProcess (env : Env ρ) (bytes : List UInt8) (s : World ρ) : World ρ :=
  let buf := s.term.pty.readbuf ++ bytes
  let (scr, processed) := env.vt100.processString s.term.scr buf
  modifyTerm ({ · with scr, pty := ⟨buf.drop processed, bytes.length⟩ }) s

theorem ptyInputCb_some (env : Env ρ) {bytes : List UInt8} (hne : bytes ≠ []) (s : World ρ)
    : ptyInputCb env (some bytes) s = (true, windowFlush env (ptyProcess env bytes s)) := by
  have hpos := List.length_pos_iff.mpr hne
  have hreadlen : (bytes.length : Int) > 0 := by omega
  unfold ptyInputCb
  dsimp only
  rw [if_pos hreadlen]
  rfl

theorem ptyInputCb_none (env : Env ρ) {answer : Option (List UInt8)}
    (hanswer : answer.getD [] = []) (s : World ρ)
    : ∃ pty, ptyInputCb env answer s
        = (false, termRefcntDec (act .requestClose (modifyTerm ({ · with pty }) s))) := by
  unfold ptyInputCb
  extract_lets readlen old pty buf s₁
  have hreadlen : ¬readlen > 0 := by
    cases answer with
    | none => simp [readlen]
    | some bytes =>
      simp at hanswer
      simp [readlen, hanswer]
  rw [if_neg hreadlen]
  exact ⟨{ old with readlen }, rfl⟩

inductive Stepped (env : Env ρ) (s : World ρ) : Input → World ρ → Prop where
  | opens {id : Nat} (hidle : s.busy = none) (hmem : ⟨id, .windowEvent⟩ ∈ s.pending)
      : Stepped env s (.windowReady id) { delEvent id s with busy := some id }
  | handles {id : Nat} {filtered : Bool} {e : Event} (hbusy : s.busy = some id)
      (hopen : (windowHandleEvent env filtered e s).fst = false)
      : Stepped env s (.event filtered e) (windowHandleEvent env filtered e s).snd
  | closes {id : Nat} {filtered : Bool} {e : Event} (hbusy : s.busy = some id)
      (hclose : (windowHandleEvent env filtered e s).fst = true)
      : Stepped env s (.event filtered e)
          { windowClose (windowHandleEvent env filtered e s).snd with busy := none }
  | drains {id : Nat} (hbusy : s.busy = some id)
      : Stepped env s .drained { readdEvent ⟨id, .windowEvent⟩ s with busy := none }
  | reads {id : Nat} {bytes : List UInt8} (hidle : s.busy = none)
      (hmem : ⟨id, .ptyInput⟩ ∈ s.pending) (hne : bytes ≠ [])
      : Stepped env s (.ptyReady id (some bytes))
          (readdEvent ⟨id, .ptyInput⟩ (windowFlush env (ptyProcess env bytes (delEvent id s))))
  | ends {id : Nat} {answer : Option (List UInt8)} {pty : RunesPty} (hidle : s.busy = none)
      (hmem : ⟨id, .ptyInput⟩ ∈ s.pending) (hanswer : answer.getD [] = [])
      : Stepped env s (.ptyReady id answer)
          (termRefcntDec (act .requestClose (modifyTerm ({ · with pty }) (delEvent id s))))
  | delay {id : Nat} (hidle : s.busy = none) (hmem : ⟨id, .delay⟩ ∈ s.pending)
      : Stepped env s (.timerExpired id) (windowDelayCb env (delEvent id s))
  | resetVisualBell {id : Nat} (hidle : s.busy = none) (hmem : ⟨id, .resetVisualBell⟩ ∈ s.pending)
      : Stepped env s (.timerExpired id) (windowResetVisualBell env (delEvent id s))
  | multiClick {id : Nat} (hidle : s.busy = none) (hmem : ⟨id, .multiClick⟩ ∈ s.pending)
      : Stepped env s (.timerExpired id) (windowMultiClickCb (delEvent id s))

theorem mem_of_ready {id : Nat} {e : Entry Callback} (h : ready id s = some e)
    : s.busy = none ∧ e ∈ s.pending ∧ e.id = id := by
  unfold ready at h
  split at h
  . cases h
  . next hbusy =>
    have hid := List.find?_some h
    exact ⟨hbusy, List.mem_of_find?_eq_some h, by simpa using hid⟩

theorem stepped_ptyReady {id : Nat} {answer : Option (List UInt8)}
    (h : stepPtyReady env id answer s = some s')
    : Stepped env s (.ptyReady id answer) s' := by
  unfold stepPtyReady at h
  split at h
  . next entry heq =>
    have ⟨hidle, hmem, hid⟩ := mem_of_ready heq
    dsimp only at hid
    subst hid
    split at h
    . by_cases hanswer : answer.getD [] = []
      . have ⟨pty, hcb⟩ := ptyInputCb_none env hanswer (delEvent entry s)
        rw [hcb] at h
        cases h
        exact .ends hidle hmem hanswer
      . cases answer with
        | none => exact absurd rfl hanswer
        | some bytes =>
          have hne : bytes ≠ [] := hanswer
          rw [ptyInputCb_some env hne] at h
          cases h
          exact .reads hidle hmem hanswer
    . cases h
  . cases h

theorem stepped_timerExpired {id : Nat} (h : stepTimerExpired env id s = some s')
    : Stepped env s (.timerExpired id) s' := by
  unfold stepTimerExpired at h
  split at h
  . next heq =>
    have ⟨hidle, hmem, hid⟩ := mem_of_ready heq
    dsimp only at hid
    subst hid
    cases h
    exact .delay hidle hmem
  . next heq =>
    have ⟨hidle, hmem, hid⟩ := mem_of_ready heq
    dsimp only at hid
    subst hid
    cases h
    exact .resetVisualBell hidle hmem
  . next heq =>
    have ⟨hidle, hmem, hid⟩ := mem_of_ready heq
    dsimp only at hid
    subst hid
    cases h
    exact .multiClick hidle hmem
  . cases h

theorem stepped {input : Input} (h : step env s input = some s')
    : Stepped env s input s' := by
  cases input with
  | windowReady id =>
    unfold step stepWindowReady at h
    dsimp only at h
    split at h
    . next heq =>
      have ⟨hidle, hmem, hid⟩ := mem_of_ready heq
      dsimp only at hid
      subst hid
      cases h
      exact .opens hidle hmem
    . cases h
  | event filtered e =>
    unfold step stepEvent at h
    dsimp only at h
    split at h
    . next hbusy =>
      cases hhandle : windowHandleEvent env filtered e s with
      | mk close s₁ =>
        rw [hhandle] at h
        cases close with
        | true =>
          cases h
          have hcloses := Stepped.closes hbusy (congrArg Prod.fst hhandle)
          rwa [hhandle] at hcloses
        | false =>
          cases h
          have hhandles := Stepped.handles hbusy (congrArg Prod.fst hhandle)
          rwa [hhandle] at hhandles
    . cases h
  | drained =>
    unfold step stepDrained at h
    dsimp only at h
    split at h
    . next hbusy =>
      cases h
      exact .drains hbusy
    . cases h
  | ptyReady id answer => exact stepped_ptyReady h
  | timerExpired id => exact stepped_timerExpired h

end Term
end Runes
