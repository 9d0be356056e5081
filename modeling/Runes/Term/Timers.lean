import Runes.Term.RedrawRate
import Runes.Term.Registered

/-!
This module contains how many timers can still expire for a terminal that no longer gets any events or
output: a flush of the window may arm the timer of its delay or that of the visual bell again, but it
does so only a few times.
-/

namespace Runes
namespace Term

variable {ρ : Type} {env : Env ρ} {s s' : World ρ}

-- Whether a flush is to ring one of the bells.
def bellDue (s : World ρ) : Bool := s.term.scr.audibleBell || s.term.scr.visualBell

/--
A bound on the expiries of the timers. Ringing a bell may lead to that of the visual bell, and that may
delay a draw.
-/
def expiries (s : World ρ) : Nat :=
  2 * (bellDue s).toNat + 2 * s.term.w.visualBellIsRinging.toNat + s.term.w.delaying.toNat
    + s.term.w.multiClickTimerEvent.isSome.toNat

theorem expiries_le (s : World ρ) : expiries s ≤ 6 := by
  have hbell := (bellDue s).toNat_le
  have hringing := s.term.w.visualBellIsRinging.toNat_le
  have hdelaying := s.term.w.delaying.toNat_le
  have hclick := s.term.w.multiClickTimerEvent.isSome.toNat_le
  unfold expiries
  omega

theorem expiries_congr (hw : s'.term.w = s.term.w) (hbell : bellDue s' = bellDue s)
    : expiries s' = expiries s := by
  unfold expiries
  rw [hw, hbell]

section Flush

theorem displayMaybeClearSelection_timers (env : Env ρ) (s : World ρ)
    : (displayMaybeClearSelection env s).term.w = s.term.w
        ∧ bellDue (displayMaybeClearSelection env s) = bellDue s := by
  unfold displayMaybeClearSelection
  extract_lets display grid s₁ contents
  split
  . split
    . exact ⟨rfl, rfl⟩
    . exact ⟨rfl, rfl⟩
  . exact ⟨rfl, rfl⟩

theorem displayDrawScreen_timers (env : Env ρ) (s : World ρ)
    : (displayDrawScreen env s).term.w = s.term.w
        ∧ bellDue (displayDrawScreen env s) = bellDue s := by
  unfold displayDrawScreen
  extract_lets s₁ grid s₂ s₃
  have h₁ : s₁.term.w = s.term.w ∧ bellDue s₁ = bellDue s := by
    unfold s₁
    split
    . exact displayMaybeClearSelection_timers env s
    . exact ⟨rfl, rfl⟩
  have h₂ : s₂.term.w = s.term.w ∧ bellDue s₂ = bellDue s := by
    unfold s₂
    split
    . exact h₁
    . exact ⟨rfl, rfl⟩
  exact h₂

theorem windowVisualBell_timers (s : World ρ)
    : (windowVisualBell s).term.w = { s.term.w with visualBellIsRinging := true }
        ∧ (windowVisualBell s).term.scr = s.term.scr := by
  unfold windowVisualBell
  extract_lets s₁ s₂ s₃
  have h₁ : s₁.term = s.term := by
    unfold s₁
    split <;> rfl
  split
  . next hringing =>
    rw [h₁] at hringing ⊢
    refine ⟨?_, rfl⟩
    rw [← hringing]
  . constructor
    . change { s₁.term.w with visualBellIsRinging := true } = _
      rw [h₁]
    . change s₁.term.scr = _
      rw [h₁]

theorem windowAudibleBell_timers (s : World ρ)
    : ∃ ringing, (windowAudibleBell s).term.w = { s.term.w with visualBellIsRinging := ringing }
        ∧ (windowAudibleBell s).term.scr = s.term.scr := by
  unfold windowAudibleBell
  extract_lets s₁
  split
  . have h₁ : s₁.term = s.term := by
      unfold s₁
      split <;> rfl
    refine ⟨s.term.w.visualBellIsRinging, ?_, ?_⟩
    . change s₁.term.w = _
      rw [h₁]
    . change s₁.term.scr = _
      rw [h₁]
  . exact ⟨true, windowVisualBell_timers s⟩

/-- All bells that are due are rung, and without one nothing starts to ring. -/
theorem flushScreenFlags_timers (s : World ρ)
    : bellDue (flushScreenFlags s) = false ∧
        ∃ ringing, (flushScreenFlags s).term.w = { s.term.w with visualBellIsRinging := ringing }
          ∧ (bellDue s = false → ringing = s.term.w.visualBellIsRinging) := by
  unfold flushScreenFlags
  extract_lets s₁ s₂ s₃
  have h₁ : s₁.term.scr.audibleBell = false ∧ s₁.term.scr.visualBell = s.term.scr.visualBell ∧
      ∃ ringing, s₁.term.w = { s.term.w with visualBellIsRinging := ringing }
        ∧ (s.term.scr.audibleBell = false → ringing = s.term.w.visualBellIsRinging) := by
    unfold s₁
    split
    . next hbell =>
      obtain ⟨ringing, hw, hscr⟩ := windowAudibleBell_timers s
      have hvisual : (windowAudibleBell s).term.scr.visualBell = s.term.scr.visualBell := by rw [hscr]
      refine ⟨rfl, hvisual, ringing, hw, fun hnot => ?_⟩
      rw [hbell] at hnot
      cases hnot
    . next hbell => exact ⟨Bool.eq_false_iff.mpr hbell, rfl, _, rfl, fun _ => rfl⟩
  obtain ⟨haudible, hvisual, ringing, hw, hringing⟩ := h₁
  have h₂ : s₂.term.scr.audibleBell = false ∧ s₂.term.scr.visualBell = false ∧
      ∃ ringing, s₂.term.w = { s.term.w with visualBellIsRinging := ringing }
        ∧ (bellDue s = false → ringing = s.term.w.visualBellIsRinging) := by
    unfold s₂
    split
    . next hbell =>
      obtain ⟨hw', hscr⟩ := windowVisualBell_timers s₁
      have haudible' : (windowVisualBell s₁).term.scr.audibleBell = false := by rw [hscr, haudible]
      refine ⟨haudible', rfl, true, ?_, fun hnot => ?_⟩
      . rw [hw] at hw'
        exact hw'
      . rw [hvisual] at hbell
        unfold bellDue at hnot
        rw [hbell, Bool.or_true] at hnot
        cases hnot
    . next hbell =>
      refine ⟨haudible, Bool.eq_false_iff.mpr hbell, ringing, hw, fun hnot => hringing ?_⟩
      unfold bellDue at hnot
      exact (Bool.or_eq_false_iff.mp hnot).left
  obtain ⟨haudible, hvisual, hrings⟩ := h₂
  have hdue : bellDue s₂ = false := by
    unfold bellDue
    rw [haudible, hvisual]
    rfl
  have h₃ : bellDue s₃ = false ∧ s₃.term.w = s₂.term.w := by
    unfold s₃
    split <;> exact ⟨hdue, rfl⟩
  have hlast : ∀ t : World ρ, t.term.w = s₃.term.w → bellDue t = bellDue s₃ → bellDue t = false ∧
      ∃ ringing, t.term.w = { s.term.w with visualBellIsRinging := ringing }
        ∧ (bellDue s = false → ringing = s.term.w.visualBellIsRinging) := by
    intro t hw hbell
    rw [hbell, hw, h₃.right]
    exact ⟨h₃.left, hrings⟩
  split
  . exact hlast _ rfl rfl
  . exact hlast _ rfl rfl

theorem windowCheckRecent_timers (env : Env ρ) (s : World ρ)
    : bellDue (windowCheckRecent env s).snd = bellDue s ∧
        (windowCheckRecent env s).snd.term.w
          = { s.term.w with delaying := s.term.w.delaying || (windowCheckRecent env s).fst } := by
  unfold windowCheckRecent
  extract_lets rate now last s₁ s₂
  split
  . refine ⟨rfl, ?_⟩
    rw [Bool.or_false]
  . split
    . next hdelaying =>
      refine ⟨rfl, ?_⟩
      rw [Bool.or_true, ← hdelaying]
    . split
      . refine ⟨rfl, ?_⟩
        rw [Bool.or_true]
        rfl
      . refine ⟨rfl, ?_⟩
        rw [Bool.or_false]

theorem expiries_of_delaying (hw : s'.term.w = { s.term.w with delaying := true })
    (hbell : bellDue s' = bellDue s)
    : expiries s' ≤ expiries s + 1 := by
  unfold expiries
  rw [hw, hbell]
  dsimp only
  rw [Bool.toNat_true]
  omega

theorem expiries_of_rung {ringing : Bool} (last : Timespec)
    (hw : s'.term.w = { s.term.w with visualBellIsRinging := ringing, lastRedraw := last })
    (hringing : bellDue s = false → ringing = s.term.w.visualBellIsRinging) (hbell : bellDue s' = false)
    : expiries s' ≤ expiries s := by
  unfold expiries
  rw [hw, hbell]
  dsimp only
  have hle := ringing.toNat_le
  cases hdue : bellDue s with
  | true =>
    rw [Bool.toNat_true, Bool.toNat_false]
    omega
  | false =>
    have hsame := congrArg Bool.toNat (hringing hdue)
    omega

/-- A flush makes at most one expiry more possible, and only if it delays the draw. -/
theorem expiries_windowFlush (env : Env ρ) (s : World ρ)
    : expiries (windowFlush env s) ≤ expiries s + 1 ∧
        ((windowCheckRecent env (act .flush s)).fst = false →
          expiries (windowFlush env s) ≤ expiries s) := by
  obtain ⟨hbell, hw⟩ := windowCheckRecent_timers env (act .flush s)
  unfold windowFlush
  cases hrecent : windowCheckRecent env (act .flush s) with
  | mk recent s₁ =>
    rw [hrecent] at hbell hw
    cases recent with
    | true =>
      rw [Bool.or_true] at hw
      exact ⟨expiries_of_delaying hw hbell, fun h => by cases h⟩
    | false =>
      rw [Bool.or_false] at hw
      have hsame : expiries s₁ = expiries s := expiries_congr hw hbell
      obtain ⟨hrung, ringing, hw', hringing⟩ := flushScreenFlags_timers s₁
      rw [← hsame]
      dsimp only
      refine (fun hle => ⟨Nat.le_succ_of_le hle, fun _ => hle⟩ : expiries _ ≤ expiries s₁ → _) ?_
      split
      . exact expiries_of_rung s₁.term.w.lastRedraw hw' hringing hrung
      . obtain ⟨hw'', hbell'⟩ := displayDrawScreen_timers env (flushScreenFlags s₁)
        let last := env.clock (displayDrawScreen env (flushScreenFlags s₁)).ticks
        refine expiries_of_rung last ?_ hringing (hbell'.trans hrung)
        exact congrArg (fun w : RunesWindow => { w with lastRedraw := last }) (hw''.trans hw')

end Flush

section Pending

/-- Only timers are registered. -/
def RegistersTimers (s s' : World ρ) : Prop :=
  ∃ new, s'.pending = s.pending ++ new ∧ ∀ e ∈ new, ¬e.kind.IsWork

namespace RegistersTimers

theorem of_eq (h : s'.pending = s.pending) : RegistersTimers s s' :=
  ⟨[], by rw [h, List.append_nil], fun _ h => by cases h⟩

theorem trans {s'' : World ρ} (h : RegistersTimers s s') (h' : RegistersTimers s' s'')
    : RegistersTimers s s'' := by
  obtain ⟨new, heq, hnew⟩ := h
  obtain ⟨new', heq', hnew'⟩ := h'
  refine ⟨new ++ new', by rw [heq', heq, List.append_assoc], fun e he => ?_⟩
  exact (List.mem_append.mp he).elim (hnew e) (hnew' e)

theorem ite {c : Prop} [Decidable c] (h : c → RegistersTimers s s')
    : RegistersTimers s (if c then s' else s) := by
  split
  . next hc => exact h hc
  . exact of_eq rfl

theorem one (cb : Callback) (h : s'.pending = s.pending ++ [⟨s.next, cb⟩]) (hcb : ¬cb.IsWork)
    : RegistersTimers s s' :=
  ⟨_, h, List.forall_mem_singleton.mpr hcb⟩

theorem mem_or (h : RegistersTimers s s') {e : Entry Callback} (he : e ∈ s'.pending)
    : e ∈ s.pending ∨ ¬e.kind.IsWork := by
  obtain ⟨new, heq, hnew⟩ := h
  rw [heq] at he
  exact (List.mem_append.mp he).imp_right (hnew e)

theorem mem (h : RegistersTimers s s') {e : Entry Callback} (he : e ∈ s.pending)
    : e ∈ s'.pending := by
  obtain ⟨new, heq, _⟩ := h
  rw [heq]
  exact List.mem_append_left _ he

end RegistersTimers

theorem windowCheckRecent_registers (env : Env ρ) (s : World ρ)
    : RegistersTimers s (windowCheckRecent env s).snd := by
  unfold windowCheckRecent
  extract_lets rate now last s₁ s₂
  split
  . exact .of_eq rfl
  . split
    . exact .of_eq rfl
    . split
      . exact .one .delay rfl (by simp [Callback.IsWork])
      . exact .of_eq rfl

theorem windowVisualBell_registers (s : World ρ) : RegistersTimers s (windowVisualBell s) := by
  unfold windowVisualBell
  extract_lets s₁ s₂ s₃
  have h₁ : RegistersTimers s s₁ := .ite fun _ => .of_eq rfl
  split
  . exact h₁
  . exact h₁.trans (.one .resetVisualBell rfl (by simp [Callback.IsWork]))

theorem windowAudibleBell_registers (s : World ρ) : RegistersTimers s (windowAudibleBell s) := by
  unfold windowAudibleBell
  extract_lets s₁
  have h₁ : RegistersTimers s s₁ := .ite fun _ => .of_eq rfl
  split
  . exact h₁.trans (.of_eq rfl)
  . exact windowVisualBell_registers s

theorem flushScreenFlags_registers (s : World ρ) : RegistersTimers s (flushScreenFlags s) := by
  unfold flushScreenFlags
  extract_lets s₁ s₂ s₃
  have h₁ : RegistersTimers s s₁ := .ite fun _ => (windowAudibleBell_registers s).trans (.of_eq rfl)
  have h₂ : RegistersTimers s₁ s₂ := .ite fun _ => (windowVisualBell_registers s₁).trans (.of_eq rfl)
  have h₃ : RegistersTimers s₂ s₃ := .ite fun _ => .of_eq rfl
  exact h₁.trans (h₂.trans (h₃.trans (.ite fun _ => .of_eq rfl)))

theorem displayDrawScreen_pending (env : Env ρ) (s : World ρ)
    : (displayDrawScreen env s).pending = s.pending := by
  unfold displayDrawScreen displayMaybeClearSelection
  dsimp only
  split
  . split
    . split
      . split <;> rfl
      . rfl
    . rfl
  . rfl

theorem windowFlush_registers (env : Env ρ) (s : World ρ) : RegistersTimers s (windowFlush env s) := by
  have hrecent := windowCheckRecent_registers env (act .flush s)
  unfold windowFlush
  split
  . next s₁ heq =>
    rw [heq] at hrecent
    exact hrecent
  . next s₁ heq =>
    rw [heq] at hrecent
    extract_lets s₂ s₃ s₄
    have h₂ : RegistersTimers s s₂ := hrecent.trans (flushScreenFlags_registers s₁)
    split
    . exact h₂
    . exact h₂.trans (.of_eq (displayDrawScreen_pending env s₂))

end Pending

end Term
end Runes
