import Runes.Term.Mouse

/-!
This module contains how often an event of a button is acted on, and how many clicks are counted.
-/

namespace Runes
namespace Term

variable {ρ : Type} {env : Env ρ}

def ButtonEvent.isRelease (e : ButtonEvent) : Bool :=
  match e.press, e.button with
  | false, .button1 => true
  | _, _ => false

-- The event that the built-in handler acts on, but does not report as handled.
def ButtonEvent.isShiftRelease (e : ButtonEvent) : Bool := e.isRelease && e.state.shift

/-- A report is formatted or a built-in action is run, and not more than one of them. -/
def ActedOnce (env : Env ρ) (e : ButtonEvent) (s : World ρ) : Prop :=
  (windowHandleButtonEvent env e s).log.countP Action.isMouse ≤ s.log.countP Action.isMouse + 1

def PointerAct.isAct (a : PointerAct) : Bool :=
  match a with
  | .builtin => true
  | .report _ _ => true
  | _ => false

-- A click is counted, or the release that makes it goes to the program.
def PointerAct.isRelease (a : PointerAct) : Bool := a = .click || a = .report .release .left

def reportedRelease : Action := .mouseReport .release .left

theorem foldl_cause_acts (acts : List PointerAct) (p : Pointer)
    : (acts.foldl Pointer.cause p).acts.length = p.acts.length + acts.countP PointerAct.isAct := by
  induction acts generalizing p with
  | nil => rfl
  | cons a acts ih =>
    rw [List.foldl_cons, ih, List.countP_cons]
    cases a <;> simp [Pointer.cause, PointerAct.isAct] <;> omega

theorem foldl_cause_clicks (acts : List PointerAct) (p : Pointer)
    : (acts.foldl Pointer.cause p).multiClicks
          + UInt32.ofNat ((acts.foldl Pointer.cause p).acts.count reportedRelease)
        =
      p.multiClicks + UInt32.ofNat (p.acts.count reportedRelease + acts.countP PointerAct.isRelease)
    := by
  induction acts generalizing p with
  | nil => rfl
  | cons a acts ih =>
    rw [List.foldl_cons, ih, List.countP_cons]
    cases a with
    | builtin => simp [Pointer.cause, PointerAct.isRelease, reportedRelease]
    | mouseDown down => simp [Pointer.cause, PointerAct.isRelease]
    | click =>
      simp only [Pointer.cause, PointerAct.isRelease, UInt32.ofNat_add]
      simp only [decide_true, Bool.true_or, if_true, UInt32.reduceOfNat]
      ac_rfl
    | report type button =>
      by_cases heq : PointerAct.report type button = .report .release .left
      . cases heq
        simp only [Pointer.cause, PointerAct.isRelease, reportedRelease, List.count_append,
          List.count_singleton_self, decide_true, Bool.or_true, if_true, UInt32.ofNat_add]
        ac_rfl
      . have hne : Action.mouseReport type button ≠ reportedRelease := by
          intro heq'
          cases heq'
          exact heq rfl
        simp [Pointer.cause, PointerAct.isRelease, heq, List.count_append, hne]

theorem builtinActs_isRelease (e : ButtonEvent)
    : (builtinActs e).countP PointerAct.isRelease = e.isRelease.toNat := by
  unfold builtinActs ButtonEvent.isRelease
  cases e.press <;> cases e.button <;> rfl

theorem reportActs_isRelease (env : Env ρ) (e : ButtonEvent) (scr : Screen ρ)
    : (reportActs env e scr).countP PointerAct.isRelease = e.isRelease.toNat := by
  unfold reportActs
  split
  . unfold ButtonEvent.isRelease Button.report
    cases e.press <;> cases e.button <;> rfl
  . apply builtinActs_isRelease

theorem builtinActs_isAct_le (e : ButtonEvent) : (builtinActs e).countP PointerAct.isAct ≤ 1 := by
  unfold builtinActs
  cases e.press <;> cases e.button <;> simp [PointerAct.isAct, List.countP_cons]

theorem reportActs_isAct_le (env : Env ρ) (e : ButtonEvent) (scr : Screen ρ)
    : (reportActs env e scr).countP PointerAct.isAct ≤ 1 := by
  unfold reportActs
  split
  . cases e.button.report <;> simp [PointerAct.isAct]
  . apply builtinActs_isAct_le

-- Nothing happens to an event that is not handled, apart from that release.
theorem builtinActs_of_not_handled (env : Env ρ) {e : ButtonEvent} (s : World ρ)
    (hfst : (windowHandleBuiltinButtonPress env e s).fst = false)
    : e.isRelease = true ∨ builtinActs e = [] := by
  unfold windowHandleBuiltinButtonPress at hfst
  unfold ButtonEvent.isRelease builtinActs
  cases hpress : e.press <;> cases hbutton : e.button <;> simp_all

theorem handled_of_isRelease (env : Env ρ) {e : ButtonEvent} (h : e.isRelease = true) (s : World ρ)
    : (windowHandleBuiltinButtonPress env e s).fst = false := by
  unfold ButtonEvent.isRelease at h
  unfold windowHandleBuiltinButtonPress
  split at h
  . next hpress hbutton => simp [hpress, hbutton]
  . cases h

theorem isRelease_of_eq_nil {e : ButtonEvent} (h : builtinActs e = []) : e.isRelease = false := by
  have hcount := builtinActs_isRelease e
  rw [h] at hcount
  cases hrelease : e.isRelease with
  | true =>
    rw [hrelease] at hcount
    cases hcount
  | false => rfl

theorem builtinActs_isAct_of_isRelease {e : ButtonEvent} (h : e.isRelease = true)
    : (builtinActs e).countP PointerAct.isAct = 1 := by
  unfold ButtonEvent.isRelease at h
  split at h
  . next hpress hbutton =>
    simp only [builtinActs, hpress, hbutton]
    rfl
  . cases h

theorem reportActs_isAct_of_isRelease (env : Env ρ) {e : ButtonEvent} (h : e.isRelease = true)
    (scr : Screen ρ)
    : (reportActs env e scr).countP PointerAct.isAct = 1 := by
  unfold reportActs
  split
  . unfold ButtonEvent.isRelease at h
    split at h
    . next hpress hbutton =>
      simp only [Button.report, hbutton]
      rfl
    . cases h
  . apply builtinActs_isAct_of_isRelease h

theorem buttonActs_isAct (env : Env ρ) (e : ButtonEvent) (s : World ρ)
    : (buttonActs env e s).countP PointerAct.isAct ≤ 1 ↔ e.isShiftRelease = false := by
  unfold buttonActs ButtonEvent.isShiftRelease
  split
  . next hshift =>
    rw [hshift, Bool.and_true]
    split
    . next s₁ heq =>
      apply iff_of_true (builtinActs_isAct_le e)
      cases hrelease : e.isRelease with
      | true =>
        have hfst := handled_of_isRelease env hrelease s
        rw [heq] at hfst
        cases hfst
      | false => rfl
    . next s₁ heq =>
      have hfst := congrArg Prod.fst heq
      rw [List.countP_append]
      rcases builtinActs_of_not_handled env s hfst with hrelease | hnil
      . have hbuiltin := builtinActs_isAct_of_isRelease hrelease
        have hreport := reportActs_isAct_of_isRelease env hrelease s₁.term.scr
        apply iff_of_false
        . omega
        . simp [hrelease]
      . apply iff_of_true
        . rw [hnil, List.countP_nil, Nat.zero_add]
          apply reportActs_isAct_le
        . exact isRelease_of_eq_nil hnil
  . next hshift =>
    apply iff_of_true (reportActs_isAct_le env e _)
    simpa using fun _ => hshift

theorem windowHandleButtonEvent_pointer (env : Env ρ) (e : ButtonEvent) (s : World ρ)
    : pointer (windowHandleButtonEvent env e s)
        = (buttonActs env e s).foldl Pointer.cause (pointer s) := by
  have hdoes : Does env (fun _ => True) _ s (windowHandleButtonEvent env e s) :=
    windowHandleButtonEvent_does e s (fun _ _ _ _ => trivial)
  exact hdoes.pointer

theorem actedOnce_iff (env : Env ρ) (e : ButtonEvent) (s : World ρ)
    : ActedOnce env e s ↔ e.isShiftRelease = false := by
  have hacts := foldl_cause_acts (buttonActs env e s) (pointer s)
  rw [← windowHandleButtonEvent_pointer] at hacts
  simp only [pointer, ← List.countP_eq_length_filter] at hacts
  rw [← buttonActs_isAct env e s]
  unfold ActedOnce
  omega

theorem buttonActs_isRelease (env : Env ρ) (e : ButtonEvent) (s : World ρ)
    : (buttonActs env e s).countP PointerAct.isRelease
        = e.isRelease.toNat + e.isShiftRelease.toNat := by
  unfold buttonActs ButtonEvent.isShiftRelease
  split
  . next hshift =>
    rw [hshift, Bool.and_true]
    split
    . next s₁ heq =>
      rw [builtinActs_isRelease]
      cases hrelease : e.isRelease with
      | true =>
        have hfst := handled_of_isRelease env hrelease s
        rw [heq] at hfst
        cases hfst
      | false => rfl
    . rw [List.countP_append, builtinActs_isRelease, reportActs_isRelease]
  . next hshift =>
    rw [reportActs_isRelease, eq_false_of_ne_true hshift, Bool.and_false]
    rfl

-- How many releases of the first button the window is told of.
def Input.releases (input : Input) : Nat :=
  match input with
  | .event false (.button e) => e.isRelease.toNat
  | _ => 0

def Input.isShiftRelease (input : Input) : Bool :=
  match input with
  | .event false (.button e) => e.isShiftRelease
  | _ => false

theorem stepActs_isRelease (env : Env ρ) (s : World ρ) (input : Input)
    : (stepActs env s input).countP PointerAct.isRelease
        = input.releases + input.isShiftRelease.toNat := by
  cases input with
  | event filtered e =>
    cases filtered with
    | true => cases e <;> rfl
    | false =>
      cases e with
      | button e => exact buttonActs_isRelease env e s
      | motion e =>
        simp only [stepActs, eventActs, motionActs]
        split
        . split <;> rfl
        . rfl
      | _ => rfl
  | _ => rfl

instance (s : World ρ) (input : Input) : Decidable (EndsClicks s input) :=
  match input with
  | .timerExpired id => decidable_of_iff (⟨id, .multiClick⟩ ∈ s.pending) (by simp [EndsClicks])
  | .windowReady _ => isFalse (by simp [EndsClicks])
  | .event _ _ => isFalse (by simp [EndsClicks])
  | .drained => isFalse (by simp [EndsClicks])
  | .ptyReady _ _ => isFalse (by simp [EndsClicks])

/-- The machine with the number of releases, as long as no series of clicks is ended by its timer. -/
def clickMachine (env : Env ρ) (start : Start) : Exec.Machine (World ρ × Nat) Input :=
  (machine env start).record 0 fun s n input =>
    if EndsClicks s input then none else some (n + input.releases)

-- Since `s₀` as many clicks were counted as there were releases that the program was not told of.
def CountsClicks (s₀ : World ρ) (s : World ρ × Nat) : Prop :=
  s.fst.term.w.multiClicks + UInt32.ofNat (s.fst.log.count reportedRelease)
    = s₀.term.w.multiClicks + UInt32.ofNat (s₀.log.count reportedRelease + s.snd)

theorem count_reportedRelease (s : World ρ)
    : (pointer s).acts.count reportedRelease = s.log.count reportedRelease :=
  List.count_filter rfl

theorem clickMachine_step {start : Start} {s s' : World ρ × Nat} {input : Input}
    (h : (clickMachine env start).step s input = some s')
    : s'.snd = s.snd + input.releases
        ∧ s'.fst.term.w.multiClicks + UInt32.ofNat (s'.fst.log.count reportedRelease)
          =
        s.fst.term.w.multiClicks
          + UInt32.ofNat
              (s.fst.log.count reportedRelease + (input.releases + input.isShiftRelease.toNat)) := by
  have ⟨hstep, hnext⟩ := Exec.Machine.record_step h
  split at hnext
  . cases hnext
  . next hgoing =>
    refine ⟨(Option.some.inj hnext).symm, ?_⟩
    have hpointer : pointer s'.fst = (stepActs env s.fst input).foldl Pointer.cause (pointer s.fst) :=
      (stepped hstep).pointer.resolve_right (fun hends => hgoing hends.left)
    have hclicks := foldl_cause_clicks (stepActs env s.fst input) (pointer s.fst)
    rw [← hpointer, stepActs_isRelease, count_reportedRelease, count_reportedRelease] at hclicks
    exact hclicks

theorem countsClicks_step {start : Start} {s₀ : World ρ} {s s' : World ρ × Nat} {input : Input}
    (hs : CountsClicks s₀ s) (h : (clickMachine env start).step s input = some s')
    : CountsClicks s₀ s' ↔ input.isShiftRelease = false := by
  have ⟨hcount, hclicks⟩ := clickMachine_step h
  unfold CountsClicks at hs ⊢
  rw [hclicks, hcount, UInt32.ofNat_add, ← UInt32.add_assoc, hs, UInt32.add_assoc, ← UInt32.ofNat_add,
    UInt32.add_right_inj]
  cases input.isShiftRelease with
  | true =>
    apply iff_of_false
    . rw [← Nat.add_assoc, ← Nat.add_assoc, UInt32.ofNat_add _ (Bool.toNat true),
        UInt32.add_eq_left]
      decide
    . simp
  | false =>
    apply iff_of_true
    . rw [Bool.toNat_false, Nat.add_zero, Nat.add_assoc]
    . rfl

/--
An event of a button is acted on at most once exactly if it is not the release of the first button
with the shift key. In every sequence of steps in which no series of clicks ends by its timer, exactly
the releases that were not reported are counted, in every state of it, if and only if none of them
was with the shift key.
-/
theorem actedOnce_and_counted_iff (env : Env ρ) (start : Start)
    : (∀ (s : World ρ) (e : ButtonEvent), ActedOnce env e s ↔ e.isShiftRelease = false)
        ∧
      ∀ (s₀ : World ρ) (inputs : List Input),
        (clickMachine env start).Always (CountsClicks s₀) (s₀, 0) inputs
          ↔ (clickMachine env start).RunOk (fun _ input => input.isShiftRelease = false) (s₀, 0)
            inputs := by
  refine ⟨fun s e => actedOnce_iff env e s, ?_⟩
  intro s₀ inputs
  apply Exec.Machine.always_iff_runOk (CountsClicks s₀) (fun _ hs => hs)
  . exact fun _ _ _ hs hstep hok => (countsClicks_step hs hstep).mpr hok
  . exact fun _ _ _ hs hstep hcounts => (countsClicks_step hs hstep).mp hcounts
  . rfl

namespace Plain

def shiftRelease : ButtonEvent :=
  { press := false, button := .button1, state := { noModifiers with shift := true }, x := 0, y := 0 }

end Plain

-- The release is counted as two clicks, and the second one selects a word.
theorem not_actedOnce_shiftRelease
    : ¬ActedOnce Plain.env Plain.shiftRelease (machine Plain.env Plain.start).init
        ∧ (windowHandleButtonEvent Plain.env Plain.shiftRelease
            (machine Plain.env Plain.start).init).term.w.multiClicks = 2 := by
  have honce := actedOnce_iff Plain.env Plain.shiftRelease (machine Plain.env Plain.start).init
  have hpointer := windowHandleButtonEvent_pointer Plain.env Plain.shiftRelease
    (machine Plain.env Plain.start).init
  have hacts : buttonActs Plain.env Plain.shiftRelease (machine Plain.env Plain.start).init
      = [.builtin, .click, .mouseDown false, .builtin, .click, .mouseDown false] := rfl
  rw [hacts] at hpointer
  constructor
  . rw [honce]
    decide
  . exact congrArg Pointer.multiClicks hpointer

end Term
end Runes
