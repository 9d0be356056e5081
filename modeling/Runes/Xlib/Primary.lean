import Mathlib.Data.Fintype.Pi
import Mathlib.Logic.Function.Basic
import Runes.Exec.Machine
import Runes.Term.Flush

/-!
This module contains terminals in different processes that acquire the primary selection from each
other. Every request to the X server is a step of its own, so that the requests of the terminals
interleave. A terminal without a window to send its `SelectionClear` to sends it to no terminal.
-/

namespace Runes
namespace Xlib
namespace Primary

-- How far a terminal is in `runes_window_acquire_selection`, with the owner that it has asked for.
inductive Phase (ι : Type) where
  | idle
  | asked (oldOwner : Option ι)
  | claimed (oldOwner : Option ι)
  | confirmed (oldOwner : Option ι)
  deriving DecidableEq

def Phase.isClaimed {ι : Type} (phase : Phase ι) : Bool :=
  match phase with
  | .claimed _ => true
  | _ => false

structure Client (ι : Type) where
  ownsSelection : Bool
  phase : Phase ι
  deriving DecidableEq

-- A `SelectionClear`, from the X server or from the terminal that has acquired the selection.
inductive Clear (ι : Type) where
  | server
  | client (sender : ι)
  deriving DecidableEq

structure Net (ι : Type) where
  clients : ι → Client ι
  owner : Option ι
  -- The events that are on their way to a terminal, in the order in which they were sent.
  inbox : ι → List (Clear ι)

inductive Input (ι : Type) where
  | getOwner (i : ι)
  | setOwner (i : ι)
  | checkOwner (i : ι)
  | sendClear (i : ι)
  -- The terminal handles the next event that has reached it.
  | deliver (i : ι)

variable {ι : Type} [DecidableEq ι]

def Client.check (i : ι) (oldOwner newOwner : Option ι) (c : Client ι) : Client ι :=
  if newOwner = some i then
    if oldOwner = some i then
      { ownsSelection := true, phase := .idle }
    else
      { ownsSelection := true, phase := .confirmed oldOwner }
  else
    { c with phase := .idle }

def Net.setClient (i : ι) (c : Client ι) (s : Net ι) : Net ι :=
  { s with clients := Function.update s.clients i c }

def Net.send (clear : Clear ι) (target : Option ι) (s : Net ι) : Net ι :=
  match target with
  | some j => { s with inbox := Function.update s.inbox j (s.inbox j ++ [clear]) }
  | none => s

-- The X server tells the previous owner when it belongs to another client.
def Net.setOwner (i : ι) (s : Net ι) : Net ι :=
  let s' := if s.owner = some i then s else s.send .server s.owner
  { s' with owner := some i }

def step (s : Net ι) (input : Input ι) : Option (Net ι) :=
  match input with
  | .getOwner i =>
    let c := s.clients i
    if c.phase = .idle ∧ c.ownsSelection = false then
      some (s.setClient i { c with phase := .asked s.owner })
    else
      none
  | .setOwner i =>
    let c := s.clients i
    match c.phase with
    | .asked oldOwner => some ((s.setClient i { c with phase := .claimed oldOwner }).setOwner i)
    | _ => none
  | .checkOwner i =>
    let c := s.clients i
    match c.phase with
    | .claimed oldOwner => some (s.setClient i (c.check i oldOwner s.owner))
    | _ => none
  | .sendClear i =>
    let c := s.clients i
    match c.phase with
    | .confirmed oldOwner => some ((s.setClient i { c with phase := .idle }).send (.client i) oldOwner)
    | _ => none
  | .deliver i =>
    let c := s.clients i
    match s.inbox i with
    | _ :: clears =>
      if c.phase = .idle then
        some
          { s.setClient i { c with ownsSelection := false } with
            inbox := Function.update s.inbox i clears }
      else
        none
    | [] => none

def machine (ι : Type) [DecidableEq ι] : Exec.Machine (Net ι) (Input ι) where
  init :=
    { clients := fun _ => { ownsSelection := false, phase := .idle }, owner := none,
      inbox := fun _ => [] }
  step := step

/--
When no `SelectionClear` is on its way, every terminal takes itself for the owner of the selection exactly
if it is, but for one that has asked for it and has not seen yet whether it has got it.
-/
def Agree (s : Net ι) : Prop :=
  (∀ i, s.inbox i = []) →
    ∀ i, (s.clients i).phase.isClaimed = false →
      ((s.clients i).ownsSelection = true ↔ s.owner = some i)

/--
No `SelectionClear` reaches the owner of the selection: a terminal that acquires it has none on its
way, and none is sent to a terminal that has acquired it again in the meantime.
-/
def ClearsLosers (s : Net ι) (input : Input ι) : Prop :=
  match input with
  | .setOwner i => s.inbox i = []
  | .sendClear i =>
    ∀ j, (s.clients i).phase = .confirmed (some j) → s.owner ≠ some j
  | _ => True

structure Inv (s : Net ι) : Prop where
  inbox : ∀ i, s.owner = some i → s.inbox i = []
  owns : ∀ i, s.owner = some i →
    (s.clients i).ownsSelection = true ∨ ∃ oldOwner, (s.clients i).phase = .claimed oldOwner
  loses : ∀ i, (s.clients i).ownsSelection = true → s.owner = some i ∨ s.inbox i ≠ []

-- The `SelectionClear` that a terminal sends when it has acquired the selection.
def Phase.clears (phase : Phase Nat) : List Term.Action :=
  match phase with
  | .confirmed (some oldOwner) => [.sendSelectionClear oldOwner]
  | _ => []

section

variable {ρ : Type}

/--
`runes_window_acquire_selection` takes the steps of a client that gets the answers of the X server.
-/
theorem windowAcquireSelection_check (env : Term.Env ρ) {s : Term.World ρ}
    (howns : s.term.w.ownsSelection = false)
    : let oldOwner := some (env.selectionOwner s.queries)
      let newOwner := some (env.selectionOwner (s.queries + 1))
      let c := Client.check env.window oldOwner newOwner ⟨s.term.w.ownsSelection, .claimed oldOwner⟩
      (Term.windowAcquireSelection env s).term.w.ownsSelection = c.ownsSelection
        ∧ (Term.windowAcquireSelection env s).log = s.log ++ .setSelectionOwner :: c.phase.clears := by
  intro oldOwner newOwner c
  unfold Term.windowAcquireSelection
  rw [if_neg (by simp [howns])]
  extract_lets old s₁ gotSelection s₂ s₃
  by_cases hgot : gotSelection
  . have hnew : newOwner = some env.window := congrArg some hgot
    by_cases hold : old = env.window
    . have hc : c = ⟨true, .idle⟩ := (if_pos hnew).trans (if_pos (congrArg some hold))
      rw [if_pos hgot, if_neg (not_not.mpr hold), hc]
      exact ⟨rfl, rfl⟩
    . have hc : c = ⟨true, .confirmed oldOwner⟩ :=
        (if_pos hnew).trans (if_neg (fun heq => hold (Option.some.inj heq)))
      rw [if_pos hgot, if_pos hold, hc]
      exact ⟨rfl, by simp [s₃, s₂, s₁, Term.act, Term.modifyWindow, Phase.clears, oldOwner, old]⟩
  . have hc : c = ⟨s.term.w.ownsSelection, .idle⟩ :=
      if_neg (fun heq => hgot (Option.some.inj heq))
    rw [if_neg hgot, hc]
    exact ⟨rfl, rfl⟩

-- A terminal that gets a `SelectionClear` gives the selection up, whoever the owner is.
theorem windowHandleSelectionClearEvent_ownsSelection (env : Term.Env ρ) (s : Term.World ρ)
    : (Term.windowHandleSelectionClearEvent env s).term.w.ownsSelection = false := by
  unfold Term.windowHandleSelectionClearEvent
  extract_lets s₁ s₂
  exact congrArg (·.w.ownsSelection) (Term.windowFlush_flushes env _).left.term

end

variable {s s' : Net ι} {i : ι} {clear : Clear ι} {target : Option ι} {c : Client ι}

@[simp]
theorem setClient_owner : (s.setClient i c).owner = s.owner := rfl

@[simp]
theorem setClient_inbox : (s.setClient i c).inbox = s.inbox := rfl

@[simp]
theorem setClient_clients (j : ι)
    : (s.setClient i c).clients j = if j = i then c else s.clients j :=
  Function.update_apply s.clients i c j

@[simp]
theorem send_owner : (s.send clear target).owner = s.owner := by
  unfold Net.send
  split <;> rfl

@[simp]
theorem send_clients : (s.send clear target).clients = s.clients := by
  unfold Net.send
  split <;> rfl

theorem send_inbox (j : ι)
    : (s.send clear target).inbox j
        = if target = some j then s.inbox j ++ [clear] else s.inbox j := by
  unfold Net.send
  split
  . next k =>
    by_cases hj : j = k
    . subst hj
      simp
    . simp [Function.update_of_ne hj, Ne.symm hj]
  . simp

@[simp]
theorem setOwner_owner : (s.setOwner i).owner = some i := rfl

@[simp]
theorem setOwner_clients : (s.setOwner i).clients = s.clients := by
  unfold Net.setOwner
  dsimp only
  split
  . rfl
  . exact send_clients

theorem setOwner_inbox (j : ι)
    : (s.setOwner i).inbox j
        = if s.owner = some j ∧ j ≠ i then s.inbox j ++ [.server] else s.inbox j := by
  unfold Net.setOwner
  dsimp only
  split
  . next heq =>
    have hself : ¬(s.owner = some j ∧ j ≠ i) := by
      rw [heq, Option.some.injEq]
      intro ⟨hij, hne⟩
      exact hne hij.symm
    rw [if_neg hself]
  . next hne =>
    rw [send_inbox]
    have hiff : s.owner = some j ↔ s.owner = some j ∧ j ≠ i := by
      constructor
      . intro heq
        refine ⟨heq, ?_⟩
        intro hij
        exact hne (hij ▸ heq)
      . exact And.left
    rw [if_congr hiff rfl rfl]

section

variable (hs : Inv s)
include hs

theorem Inv.getOwner (hphase : (s.clients i).phase = .idle) (howns : (s.clients i).ownsSelection = false)
    (oldOwner : Option ι)
    : Inv (s.setClient i { s.clients i with phase := .asked oldOwner }) where
  inbox := hs.inbox
  owns := by
    intro j howner
    have hj := hs.owns j howner
    by_cases heq : j = i
    . subst heq
      simp [howns, hphase] at hj
    . simpa [heq] using hj
  loses := by
    intro j hj
    apply hs.loses j
    by_cases heq : j = i
    . subst heq
      simp [howns] at hj
    . simpa [heq] using hj

theorem Inv.setOwner (oldOwner : Option ι) (hinbox : s.inbox i = [])
    : Inv ((s.setClient i { s.clients i with phase := .claimed oldOwner }).setOwner i) where
  inbox := by
    intro j howner
    cases howner
    simp [setOwner_inbox, hinbox]
  owns := by
    intro j howner
    cases howner
    apply Or.inr
    simp
  loses := by
    intro j hj
    have hj : (s.clients j).ownsSelection = true := by
      by_cases heq : j = i
      . subst heq
        simpa using hj
      . simpa [heq] using hj
    by_cases heq : j = i
    . subst heq
      exact Or.inl rfl
    . apply Or.inr
      rw [setOwner_inbox]
      rcases hs.loses j hj with howner | hinbox
      . simp [howner, heq]
      . split
        . simp
        . exact hinbox

theorem Inv.checkOwner {oldOwner : Option ι}
    : Inv (s.setClient i ((s.clients i).check i oldOwner s.owner)) where
  inbox := hs.inbox
  owns := by
    intro j howner
    by_cases heq : j = i
    . subst heq
      have howner : s.owner = some j := howner
      apply Or.inl
      simp only [setClient_clients, if_true, Client.check, howner]
      split <;> rfl
    . have hj := hs.owns j howner
      simpa [heq] using hj
  loses := by
    intro j hj
    by_cases howner : s.owner = some j
    . exact Or.inl howner
    . apply hs.loses j
      by_cases heq : j = i
      . subst heq
        simpa [Client.check, howner] using hj
      . simpa [heq] using hj

theorem Inv.sendClear {oldOwner : Option ι} (hphase : (s.clients i).phase = .confirmed oldOwner)
    (hold : ∀ j, oldOwner = some j → s.owner ≠ some j)
    : Inv ((s.setClient i { s.clients i with phase := .idle }).send (.client i) oldOwner) where
  inbox := by
    intro j howner
    rw [send_owner] at howner
    have hne : oldOwner ≠ some j := fun heq => hold j heq howner
    rw [send_inbox, if_neg hne]
    apply hs.inbox j howner
  owns := by
    intro j howner
    rw [send_owner] at howner
    have hj := hs.owns j howner
    by_cases heq : j = i
    . subst heq
      simpa [hphase] using hj
    . simpa [heq] using hj
  loses := by
    intro j hj
    have hj : (s.clients j).ownsSelection = true := by
      by_cases heq : j = i
      . subst heq
        simpa using hj
      . simpa [heq] using hj
    rw [send_owner, send_inbox]
    rcases hs.loses j hj with howner | hinbox
    . exact Or.inl howner
    . apply Or.inr
      split
      . simp
      . exact hinbox

theorem Inv.deliver {clears : List (Clear ι)} (hinbox : s.inbox i = clear :: clears)
    : Inv
        { s.setClient i { s.clients i with ownsSelection := false } with
          inbox := Function.update s.inbox i clears } := by
  have hne : s.owner ≠ some i := by
    intro howner
    have := hs.inbox i howner
    simp [hinbox] at this
  constructor
  . intro j howner
    have hj : j ≠ i := by
      intro heq
      exact hne (heq ▸ howner)
    dsimp only
    rw [Function.update_of_ne hj]
    apply hs.inbox j howner
  . intro j howner
    have hj : j ≠ i := by
      intro heq
      exact hne (heq ▸ howner)
    simpa [hj] using hs.owns j howner
  . intro j hj
    have heq : j ≠ i := by
      intro heq
      simp [heq] at hj
    dsimp only
    rw [Function.update_of_ne heq]
    apply hs.loses j
    simpa [heq] using hj

end

theorem inv_init : Inv (machine ι).init := by
  constructor
  . intro i howner
    cases howner
  . intro i howner
    cases howner
  . intro i howns
    cases howns

theorem Inv.step {input : Input ι} (hs : Inv s) (hok : ClearsLosers s input)
    (hstep : Primary.step s input = some s')
    : Inv s' := by
  unfold Primary.step at hstep
  cases input with
  | getOwner i =>
    dsimp only at hstep
    split at hstep
    . next hcond =>
      cases hstep
      apply hs.getOwner hcond.left hcond.right
    . cases hstep
  | setOwner i =>
    dsimp only at hstep
    split at hstep
    . next oldOwner _ =>
      cases hstep
      apply hs.setOwner oldOwner hok
    . cases hstep
  | checkOwner i =>
    dsimp only at hstep
    split at hstep
    . cases hstep
      apply hs.checkOwner
    . cases hstep
  | sendClear i =>
    dsimp only at hstep
    split at hstep
    . next oldOwner hphase =>
      cases hstep
      apply hs.sendClear hphase
      intro j hold
      apply hok j
      rw [hphase, hold]
    . cases hstep
  | deliver i =>
    dsimp only at hstep
    split at hstep
    . next hinbox =>
      split at hstep
      . cases hstep
        apply hs.deliver hinbox
      . cases hstep
    . cases hstep

omit [DecidableEq ι] in
theorem Inv.agree (hs : Inv s) : Agree s := by
  intro hinbox i hphase
  constructor
  . intro howns
    rcases hs.loses i howns with howner | hne
    . exact howner
    . exact absurd (hinbox i) hne
  . intro howner
    rcases hs.owns i howner with howns | ⟨oldOwner, hclaimed⟩
    . exact howns
    . rw [hclaimed] at hphase
      cases hphase

/--
In every run in which no `SelectionClear` reaches the owner of the selection, all terminals agree on
who owns it whenever none is on its way.
-/
theorem agree_of_clearsLosers (h : (machine ι).Reaches ClearsLosers s) : Agree s := by
  have hinv : Inv s := h.invariant inv_init (fun _ _ _ hs hok hstep => hs.step hok hstep)
  exact hinv.agree

def acquire (i : ι) : List (Input ι) := [.getOwner i, .setOwner i, .checkOwner i, .sendClear i]

instance (s : Net Bool) (input : Input Bool) : Decidable (ClearsLosers s input) := by
  unfold ClearsLosers
  cases input <;> infer_instance

theorem agree_of_clearsLosers_handover
    : ∃ s,
        (machine Bool).run (machine Bool).init
            (acquire false ++ acquire true ++ [.deliver false, .deliver false]) = some s
          ∧
        s.owner = some true
          ∧
        (s.clients true).ownsSelection = true
          ∧
        (s.clients false).ownsSelection = false := by
  let M := machine Bool
  let inputs := acquire false ++ acquire true ++ [.deliver false, .deliver false]
  have hok : M.RunOk ClearsLosers M.init inputs := by
    decide +kernel
  have ⟨s, hrun, howner, hinbox, hfalse, htrue⟩ : ∃ s, M.run M.init inputs = some s
      ∧ s.owner = some true ∧ s.inbox = (fun _ => []) ∧ (s.clients false).phase.isClaimed = false
      ∧ (s.clients true).phase.isClaimed = false :=
    Exec.Machine.exists_run (by decide +kernel)
  have hagree := agree_of_clearsLosers (Exec.Machine.Reaches.init.run hok hrun) (congrFun hinbox)
  refine ⟨s, hrun, howner, (hagree true htrue).mpr howner, ?_⟩
  have hlost := hagree false hfalse
  rw [howner] at hlost
  simpa using hlost

-- The terminal that has lost the selection acquires it again between the two events.
def staleClear : List (Input Bool) :=
  acquire false ++ acquire true ++ [.deliver false] ++ acquire false
    ++ [.deliver false, .deliver true, .deliver true]

theorem not_agree_staleClear
    : ∃ s, (machine Bool).Reachable s ∧ (∀ i, s.inbox i = []) ∧ (∀ i, (s.clients i).phase = .idle)
        ∧ s.owner = some false ∧ (s.clients false).ownsSelection = false ∧ ¬Agree s := by
  let M := machine Bool
  have ⟨s, hrun, howner, hinbox, hclients⟩ : ∃ s, M.run M.init staleClear = some s
      ∧ s.owner = some false ∧ s.inbox = (fun _ => [])
      ∧ s.clients = (fun _ => { ownsSelection := false, phase := .idle }) :=
    Exec.Machine.exists_run (by decide +kernel)
  have hreach := Exec.Machine.Reaches.init.run (Exec.Machine.runOk_true _ _) hrun
  refine ⟨s, hreach, congrFun hinbox, ?_, howner, ?_, ?_⟩
  . simp [hclients]
  . simp [hclients]
  . intro hagree
    have hfalse := hagree (congrFun hinbox) false (by simp [hclients, Phase.isClaimed])
    simp [hclients, howner] at hfalse

end Primary
end Xlib
end Runes
