import Runes.Term.StepLemmas

/-!
This module contains that a terminal is deleted when the last of its callbacks is gone, and not
before.
-/

namespace Runes
namespace Term

variable {ρ : Type} {s s' : World ρ} {grid : Option Grid}

-- The callback that takes events runs from one step to the next.
def running (s : World ρ) : List (Entry Callback) :=
  match s.busy with
  | some id => [⟨id, .windowEvent⟩]
  | none => []

theorem running_of_some {id : Nat} (h : s.busy = some id)
    : running s = [⟨id, .windowEvent⟩] := by
  unfold running
  rw [h]

theorem running_of_none (h : s.busy = none)
    : running s = [] := by
  unfold running
  rw [h]

def Alive (s : World ρ) : Prop := Held (core s).toLifetime (running s)

theorem Changes.held (h : Changes s s' grid) {e : Entry Callback} {rest : List (Entry Callback)}
    (hs : Held (core s).toLifetime (e :: rest))
    : Held (core s').toLifetime (e :: rest) := by
  cases h with
  | reacts h => exact h.held e rest hs
  | regrids h h' =>
    apply h'.held e rest
    rw [h.core]
    exact hs

theorem Started.held {e : Entry Callback} (h : Started e s s') (hs : Alive s)
    : Held (core s').toLifetime [e] := by
  unfold Alive at hs
  rw [running_of_none h.idle] at hs
  rw [h.lifetime]
  apply hs.start h.mem

theorem Finished.held {e : Entry Callback} (h : Finished s s')
    (hs : Held (core s).toLifetime [e])
    : Held (core s').toLifetime [] := by
  rw [h.lifetime]
  apply hs.finish

theorem Resumed.held {e : Entry Callback} (h : Resumed e s s') (hwork : e.kind.IsWork)
    (hs : Held (core s).toLifetime [e])
    : Held (core s').toLifetime [] := by
  rw [h.lifetime]
  apply hs.resume hwork

theorem Step.alive (h : Step s s' grid) (hs : Alive s) : Alive s' := by
  unfold Alive
  cases h with
  | opens hstart hbusy' =>
    rw [running_of_some hbusy']
    apply hstart.held hs
  | handles hbusy h =>
    rw [running_of_some (h.busy.trans hbusy)]
    unfold Alive at hs
    rw [running_of_some hbusy] at hs
    apply h.held hs
  | closes hbusy h hfinish hbusy' =>
    rw [running_of_none hbusy']
    unfold Alive at hs
    rw [running_of_some hbusy] at hs
    apply hfinish.held (h.held hs)
  | drains hbusy hresume hbusy' =>
    rw [running_of_none hbusy']
    unfold Alive at hs
    rw [running_of_some hbusy] at hs
    apply hresume.held (Or.inl rfl) hs
  | reads hstart h hresume hbusy' =>
    rw [running_of_none hbusy']
    apply hresume.held (Or.inr rfl) (h.held (hstart.held hs))
  | ends hstart h hfinish hbusy' =>
    rw [running_of_none hbusy']
    apply hfinish.held (h.held _ [] (hstart.held hs))

theorem alive_init (env : Env ρ) (start : Start) : Alive (machine env start).init := by
  have hnew : (core (termNew env start)).holders =
      { count := 0, pending := [], next := 0, deletes := 0 } := rfl
  have hslots : (core (termNew env start)).holders.Slots (fun _ => none) := by
    intro kind id
    simp [hnew]
  have hwindow := Holders.Sound.first (congrArg Holders.count hnew)
    (congrArg Holders.pending hnew) (congrArg Holders.deletes hnew) Callback.windowEvent
  constructor
  . apply hwindow.register (by simp [Holders.register]) .ptyInput
  . have hslots' := (hslots.register .windowEvent rfl).register .ptyInput rfl
    exact ⟨_, hslots', rfl, rfl, rfl, fun _ he => by cases he⟩

theorem Reachable.alive {env : Env ρ} {start : Start} (h : (machine env start).Reachable s)
    : Alive s :=
  h.invariant (alive_init env start) (fun _ _ _ hs _ hstep => (step_cases hstep).alive hs)

theorem Alive.pending_length_le (h : Alive s) : s.pending.length ≤ 5 := by
  have ⟨p, hp⟩ := h.named
  have hkinds : ∀ cb, cb ∈ [Callback.windowEvent, .ptyInput, .delay, .resetVisualBell, .multiClick] := by
    intro cb
    cases cb <;> simp
  apply hp.slots.length_le h.sound hkinds

theorem Alive.refcnt (h : Alive s) (hbusy : s.busy = none)
    : s.term.refcnt = s.pending.length := by
  have hcount := h.sound.count
  rw [running_of_none hbusy, List.append_nil] at hcount
  exact hcount

theorem Alive.multiClickTimerEvent (h : Alive s)
    : s.term.w.multiClickTimerEvent.isSome ↔ ∃ e ∈ s.pending, e.kind = .multiClick := by
  have ⟨p, hp⟩ := h.named
  have hsome : (p .multiClick).isSome ↔ ∃ e ∈ s.pending, e.kind = .multiClick :=
    hp.slots.isSome_iff
  rwa [hp.multiClick] at hsome

theorem Alive.deletes (h : Alive s)
    : s.deletes = if s.busy = none ∧ s.pending = [] then 1 else 0 := by
  have hdeletes : s.deletes = if s.pending ++ running s = [] then 1 else 0 := h.sound.deletes
  rw [hdeletes]
  cases hbusy : s.busy with
  | none => simp [running_of_none hbusy]
  | some id => simp [running_of_some hbusy]

theorem step_eq_none (env : Env ρ) (hbusy : s.busy = none) (hpending : s.pending = [])
    (input : Input)
    : step env s input = none := by
  have hready : ∀ id, ready id s = none := by
    intro id
    simp [ready, hbusy, hpending]
  cases input <;>
    simp [step, stepWindowReady, stepEvent, stepDrained, stepPtyReady, stepTimerExpired, hready,
      hbusy]

theorem Alive.deletes_of_step (h : Alive s) {input : Input} (hstep : step env s input = some s')
    : s.deletes = 0 := by
  rw [h.deletes, if_neg]
  rintro ⟨hbusy, hpending⟩
  rw [step_eq_none env hbusy hpending input] at hstep
  cases hstep

/--
In every run from the moment when a terminal is registered with the event loop: between callbacks its
reference count is the number of callbacks that are pending for it, the window points to a timer
exactly while a multi-click timer is pending, and the terminal is deleted once, when nothing is
pending any more, after which no callback starts.
-/
theorem deleted_by_last_callback {env : Env ρ} {start : Start}
    (h : (machine env start).Reachable s)
    : (s.busy = none → s.term.refcnt = s.pending.length)
        ∧ (s.term.w.multiClickTimerEvent.isSome ↔ ∃ e ∈ s.pending, e.kind = .multiClick)
        ∧ s.deletes = (if s.busy = none ∧ s.pending = [] then 1 else 0)
        ∧ (0 < s.deletes → ∀ input, step env s input = none) := by
  have halive := Reachable.alive h
  refine ⟨halive.refcnt, halive.multiClickTimerEvent, halive.deletes, ?_⟩
  intro hdeletes
  rw [halive.deletes] at hdeletes
  split at hdeletes
  . next hgone => exact step_eq_none env hgone.left hgone.right
  . cases hdeletes

namespace Plain

def env : Env Unit :=
  { vt100 := vt100, clock := fun n => ⟨n, 0⟩, selectionOwner := fun _ => 1, window := 1 }

def start : Start :=
  {
    config :=
      {
        defaultRows := 3
        defaultCols := 10
        scrollLines := 1
        scrollbackLength := 4096
        redrawRate := 0
        doubleClickRate := 250
        audibleBell := true
        bellIsUrgent := false
      }
    fontx := 1
    fonty := 1
    width := 10
    height := 3
  }

def noModifiers : Modifiers :=
  {
    shift := false
    control := false
    mod1 := false
    button1 := false
    button2 := false
    button3 := false
  }

def release : Event :=
  .button { press := false, button := .button1, state := noModifiers, x := 0, y := 0 }

def clickAndClose : List Input :=
  [
    .windowReady 0,
    .event false release,
    .drained,
    .timerExpired 2,
    .windowReady 0,
    .event false release,
    .event false (.clientMessage .deleteWindow),
    .ptyReady 1 none,
    .timerExpired 3
  ]

end Plain

theorem deleted_by_last_callback_clickAndClose
    : ∃ s, (machine Plain.env Plain.start).run (machine Plain.env Plain.start).init
          Plain.clickAndClose = some s
        ∧ s.deletes = 1
        ∧ s.term.refcnt = 0
        ∧ ∀ input, step Plain.env s input = none := by
  let M := machine Plain.env Plain.start
  have ⟨s, hrun, hdeletes, hpending, hbusy⟩ : ∃ s, M.run M.init Plain.clickAndClose = some s
      ∧ s.deletes = 1 ∧ s.pending = [] ∧ s.busy = none :=
    Exec.Machine.exists_run (by decide +kernel)
  have hreach := Exec.Machine.Reaches.init.run (Exec.Machine.runOk_true _ _) hrun
  have ⟨hrefcnt, _, _, hgone⟩ := deleted_by_last_callback hreach
  refine ⟨s, hrun, hdeletes, ?_, hgone (hdeletes ▸ Nat.one_pos)⟩
  rw [hrefcnt hbusy, hpending]
  rfl

end Term
end Runes
