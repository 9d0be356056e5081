import Runes.Term.Timers

/-!
This module contains how a terminal is closed. It begins with its window or with its pty, each of which
asks the other one to close as well, and then the timers that are pending are waited for.
-/

namespace Runes
namespace Term

variable {ρ : Type} {env : Env ρ} {s s' : World ρ}

/-- The callback of the window neither runs nor waits for events. -/
def WindowGone (s : World ρ) : Prop := s.busy = none ∧ ∀ e ∈ s.pending, e.kind ≠ .windowEvent

def PtyGone (s : World ρ) : Prop := ∀ e ∈ s.pending, e.kind ≠ .ptyInput

def Gone (s : World ρ) : Prop := WindowGone s ∧ PtyGone s

/--
The last time that the clock was read before the timer of the delay expires is when the timer was set.
It does not expire before its time.
-/
def Timely (env : Env ρ) (s : World ρ) (input : Input) : Prop :=
  match input with
  | .timerExpired id => ⟨id, .delay⟩ ∈ s.pending →
      s.term.config.redrawRate * 1000000
        ≤ (env.clock s.ticks).nanos - (env.clock (s.ticks - 1)).nanos
  | _ => True

instance (env : Env ρ) (s : World ρ) (input : Input) : Decidable (Timely env s input) :=
  match input with
  | .windowReady _ => isTrue trivial
  | .event _ _ => isTrue trivial
  | .drained => isTrue trivial
  | .ptyReady _ _ => isTrue trivial
  | .timerExpired id => inferInstanceAs (Decidable (⟨id, .delay⟩ ∈ s.pending →
      s.term.config.redrawRate * 1000000
        ≤ (env.clock s.ticks).nanos - (env.clock (s.ticks - 1)).nanos))

section Work

theorem Held.inj {running : List (Entry Callback)} (h : Held (core s).toLifetime running)
    {a e : Entry Callback} (ha : a ∈ s.pending) (he : e ∈ s.pending) (hid : e.id = a.id)
    : e = a := by
  have hnodup : (s.pending.map (·.id)).Nodup := h.sound.nodup_pending
  exact List.inj_on_of_nodup_map hnodup he ha hid

theorem restartMultiClickTimer_mem {running : List (Entry Callback)}
    (h : Held (core s).toLifetime running) {e : Entry Callback} (he : e ∈ s.pending)
    (hkind : e.kind ≠ .multiClick)
    : e ∈ (restartMultiClickTimer s).pending := by
  unfold restartMultiClickTimer
  cases htimer : s.term.w.multiClickTimerEvent with
  | none => exact List.mem_append_left _ he
  | some id =>
    apply List.mem_append_left
    change e ∈ (delEvent id s).pending
    rw [mem_delEvent]
    refine ⟨he, fun heq => hkind ?_⟩
    have hclick : ⟨id, .multiClick⟩ ∈ s.pending := h.mem_pending_of_multiClickTimerEvent htimer
    rw [h.inj hclick he heq]

theorem windowAcquireSelection_pending (env : Env ρ) (s : World ρ)
    : (windowAcquireSelection env s).pending = s.pending := by
  unfold windowAcquireSelection
  extract_lets oldOwner s₁ gotSelection s₂ s₃
  split
  . rfl
  . split
    . split
      . rfl
      . rfl
    . rfl

/-- The handlers of the window take no callback of the pty away. -/
theorem Does.mem {sel : Loc → Prop} {acts : List PointerAct} (h : Does env sel acts s s')
    {a : Entry Callback} {running : List (Entry Callback)}
    (hheld : Held (core s).toLifetime (a :: running)) {e : Entry Callback} (he : e ∈ s.pending)
    (hkind : e.kind ≠ .multiClick)
    : e ∈ s'.pending := by
  induction h with
  | trans h h' ih ih' => exact ih' (h.reacts.held a running hheld) (ih hheld he)
  | flush s => exact (windowFlush_registers env s).mem he
  | acquire s =>
    rw [windowAcquireSelection_pending]
    exact he
  | timer s => exact restartMultiClickTimer_mem hheld he hkind
  | _ => exact he

theorem windowHandleEvent_mem (filtered : Bool) (e : Event) {a : Entry Callback}
    {running : List (Entry Callback)} (hheld : Held (core s).toLifetime (a :: running))
    {b : Entry Callback} (hb : b ∈ s.pending) (hkind : b.kind ≠ .multiClick)
    : b ∈ (windowHandleEvent env filtered e s).snd.pending := by
  by_cases he : e.IsConfigure
  . obtain ⟨hsame, _⟩ | ⟨width, height, hresize, _⟩ := windowHandleEvent_configure env filtered he s
    . rw [hsame]
      exact hb
    . rw [hresize]
      unfold windowResizeWindow
      extract_lets width height s₁ s₂
      split
      . obtain ⟨new, hpending, _⟩ := displayMaybeClearSelection_registersOther env s₂
        rw [hpending]
        exact List.mem_append_left _ hb
      . exact hb
  . have hdoes : Does env (fun _ => True) _ s (windowHandleEvent env filtered e s).snd :=
      windowHandleEvent_does filtered s he (fun _ _ _ _ => trivial)
    exact hdoes.mem hheld hb hkind

theorem Stepped.logs {input : Input} (h : Stepped env s input s') : Logs (fun _ => True) s s' := by
  have hflush (s : World ρ) : Logs (fun _ => True) s (windowFlush env s) := (Keeps.windowFlush env s).log
  have hhandle (filtered : Bool) (e : Event)
      : Logs (fun _ => True) s (windowHandleEvent env filtered e s).snd :=
    (windowHandleEvent_keeps env filtered e s).log
  cases h with
  | opens _ _ => exact .of_eq rfl
  | handles _ _ => exact hhandle _ _
  | closes _ _ => exact (hhandle _ _).trans ⟨[.hangup], rfl, fun _ _ => trivial⟩
  | drains _ => exact .of_eq rfl
  | @reads id bytes _ _ _ =>
    have hread : Logs (fun _ => True) s (ptyProcess env bytes (delEvent id s)) := .of_eq rfl
    exact hread.trans ((hflush _).trans (.of_eq rfl))
  | ends _ _ _ => exact ⟨[.requestClose], rfl, fun _ _ => trivial⟩
  | @delay id _ _ =>
    have hfree : Logs (fun _ => True) s (modifyWindow ({ · with delaying := false }) (delEvent id s)) :=
      .of_eq rfl
    exact hfree.trans ((hflush _).trans (.of_eq rfl))
  | @resetVisualBell id _ _ =>
    have hfree : Logs (fun _ => True) s (act .paintBackground
        (modifyWindow ({ · with visualBellIsRinging := false }) (delEvent id s))) :=
      ⟨[.paintBackground], rfl, fun _ _ => trivial⟩
    exact hfree.trans ((hflush _).trans (.of_eq rfl))
  | multiClick _ _ => exact .of_eq rfl

/-- A callback stays registered while another one runs, unless it is the timer of the clicks. -/
theorem Stepped.mem {input : Input} (h : Stepped env s input s') (hs : Alive s) {e : Entry Callback}
    (he : e ∈ s.pending) (hkind : e.kind ≠ .multiClick) (hinput : input.entry ≠ some e.id)
    : e ∈ s'.pending := by
  have hrest {id : Nat} (hid : some id ≠ some e.id) : e ∈ (delEvent id s).pending :=
    mem_delEvent.mpr ⟨he, fun heq => hid (congrArg some heq.symm)⟩
  have hflush {s₁ : World ρ} (h₁ : e ∈ s₁.pending) : e ∈ (windowFlush env s₁).pending :=
    (windowFlush_registers env s₁).mem h₁
  have hhandle {id : Nat} (hbusy : s.busy = some id) (filtered : Bool) (ev : Event)
      : e ∈ (windowHandleEvent env filtered ev s).snd.pending := by
    unfold Alive at hs
    rw [running_of_some hbusy] at hs
    exact windowHandleEvent_mem filtered ev hs he hkind
  cases h with
  | opens _ _ => exact hrest hinput
  | handles hbusy _ => exact hhandle hbusy _ _
  | closes hbusy _ => exact hhandle hbusy _ _
  | drains _ => exact List.mem_append_left _ he
  | @reads id bytes _ _ _ =>
    have hread : e ∈ (ptyProcess env bytes (delEvent id s)).pending := hrest hinput
    exact List.mem_append_left _ (hflush hread)
  | ends _ _ _ => exact hrest hinput
  | @delay id _ _ =>
    have hfree : e ∈ (modifyWindow ({ · with delaying := false }) (delEvent id s)).pending :=
      hrest hinput
    exact hflush hfree
  | @resetVisualBell id _ _ =>
    have hfree : e ∈ (act .paintBackground
        (modifyWindow ({ · with visualBellIsRinging := false }) (delEvent id s))).pending :=
      hrest hinput
    exact hflush hfree
  | multiClick _ _ => exact hrest hinput

end Work

section Handshake

-- Each half asks the other one to close when it is gone.
structure Told (s : World ρ) : Prop where
  hangup : WindowGone s → .hangup ∈ s.log
  requestClose : PtyGone s → .requestClose ∈ s.log

theorem Stepped.windowGone {input : Input} (h : Stepped env s input s') (hs : Alive s)
    (hgone : WindowGone s')
    : WindowGone s ∨ .hangup ∈ s'.log := by
  have hkeeps (hidle : s.busy = none)
      (hinput : ∀ e ∈ s.pending, e.kind = .windowEvent → input.entry ≠ some e.id) : WindowGone s := by
    refine ⟨hidle, fun e he hkind => ?_⟩
    exact hgone.right e (h.mem hs he (by rw [hkind]; simp) (hinput e he hkind)) hkind
  have hother {a : Entry Callback} (ha : a ∈ s.pending) (hkind : a.kind ≠ .windowEvent)
      : ∀ e ∈ s.pending, e.kind = .windowEvent → some a.id ≠ some e.id := by
    intro e he hwindow heq
    rw [← Held.inj hs ha he (Option.some.inj heq).symm] at hkind
    exact hkind hwindow
  cases h with
  | opens _ _ => cases hgone.left
  | @handles id filtered e hbusy _ =>
    have hbusy' := (windowHandleEvent_changes env filtered e s).busy
    rw [hbusy, hgone.left] at hbusy'
    cases hbusy'
  | closes _ _ => exact Or.inr (List.mem_append_right _ (List.mem_singleton_self _))
  | drains _ => exact absurd rfl (hgone.right _ (List.mem_append_right _ (List.mem_singleton_self _)))
  | reads hidle hmem _ => exact Or.inl (hkeeps hidle (hother hmem (by simp)))
  | ends hidle hmem _ => exact Or.inl (hkeeps hidle (hother hmem (by simp)))
  | delay hidle hmem => exact Or.inl (hkeeps hidle (hother hmem (by simp)))
  | resetVisualBell hidle hmem => exact Or.inl (hkeeps hidle (hother hmem (by simp)))
  | multiClick hidle hmem => exact Or.inl (hkeeps hidle (hother hmem (by simp)))

theorem Stepped.ptyGone {input : Input} (h : Stepped env s input s') (hs : Alive s)
    (hgone : PtyGone s')
    : PtyGone s ∨ .requestClose ∈ s'.log := by
  have hkeeps (hinput : ∀ e ∈ s.pending, e.kind = .ptyInput → input.entry ≠ some e.id) : PtyGone s := by
    intro e he hkind
    exact hgone e (h.mem hs he (by rw [hkind]; simp) (hinput e he hkind)) hkind
  have hother {a : Entry Callback} (ha : a ∈ s.pending) (hkind : a.kind ≠ .ptyInput)
      : ∀ e ∈ s.pending, e.kind = .ptyInput → some a.id ≠ some e.id := by
    intro e he hpty heq
    rw [← Held.inj hs ha he (Option.some.inj heq).symm] at hkind
    exact hkind hpty
  cases h with
  | opens _ hmem => exact Or.inl (hkeeps (hother hmem (by simp)))
  | handles _ _ => exact Or.inl (hkeeps (fun _ _ _ heq => by cases heq))
  | closes _ _ => exact Or.inl (hkeeps (fun _ _ _ heq => by cases heq))
  | drains _ => exact Or.inl (hkeeps (fun _ _ _ heq => by cases heq))
  | reads _ _ _ => exact absurd rfl (hgone _ (List.mem_append_right _ (List.mem_singleton_self _)))
  | ends _ _ _ => exact Or.inr (List.mem_append_right _ (List.mem_singleton_self _))
  | delay _ hmem => exact Or.inl (hkeeps (hother hmem (by simp)))
  | resetVisualBell _ hmem => exact Or.inl (hkeeps (hother hmem (by simp)))
  | multiClick _ hmem => exact Or.inl (hkeeps (hother hmem (by simp)))

theorem Stepped.told {input : Input} (h : Stepped env s input s') (hs : Alive s) (ht : Told s)
    : Told s' := by
  obtain ⟨new, heq, _⟩ := h.logs
  have hlog {a : Action} (ha : a ∈ s.log) : a ∈ s'.log := by
    rw [heq]
    exact List.mem_append_left _ ha
  constructor
  . intro hgone
    rcases h.windowGone hs hgone with hgone | htold
    . exact hlog (ht.hangup hgone)
    . exact htold
  . intro hgone
    rcases h.ptyGone hs hgone with hgone | htold
    . exact hlog (ht.requestClose hgone)
    . exact htold

theorem Reachable.told {start : Start} (h : (machine env start).Reachable s) : Told s := by
  have htold : Alive s ∧ Told s := by
    apply h.invariant (P := fun s => Alive s ∧ Told s)
    . have hpending : (machine env start).init.pending = [⟨0, .windowEvent⟩, ⟨1, .ptyInput⟩] := rfl
      refine ⟨alive_init env start, ?_, ?_⟩
      . intro hgone
        exact absurd rfl (hgone.right ⟨0, .windowEvent⟩ (by rw [hpending]; simp))
      . intro hgone
        exact absurd rfl (hgone ⟨1, .ptyInput⟩ (by rw [hpending]; simp))
    . rintro s input s' ⟨hs, ht⟩ _ hstep
      exact ⟨(step_cases hstep).alive hs, (stepped hstep).told hs ht⟩
  exact htold.right

end Handshake

section Timers

/-- What is known of the time of the last draw. -/
structure Dated (env : Env ρ) (rate : Int) (s : World ρ) : Prop where
  rate : s.term.config.redrawRate = rate
  last : s.term.w.lastRedraw = ⟨0, 0⟩ ∨ ∃ n < s.ticks, s.term.w.lastRedraw = env.clock n

theorem Dated.flush {rate : Int} (hs : Dated env rate s) : Dated env rate (windowFlush env s) := by
  have hflush := windowFlush_drawn env s
  cases hdrawn : drawn env s with
  | none =>
    rw [hdrawn] at hflush
    obtain ⟨hpace, hticks, _⟩ := hflush
    refine ⟨(congrArg (·.config.redrawRate) hpace).trans hs.rate, ?_⟩
    rw [show (windowFlush env s).term.w.lastRedraw = s.term.w.lastRedraw from
      congrArg Pace.lastRedraw hpace]
    exact hs.last.imp_right fun ⟨n, hn, hlast⟩ => ⟨n, by omega, hlast⟩
  | some draw =>
    rw [hdrawn] at hflush
    obtain ⟨hpace, _, _⟩ := hflush
    refine ⟨(congrArg (·.config.redrawRate) hpace).trans hs.rate, Or.inr ⟨draw.stop, ?_, ?_⟩⟩
    . have hticks : (windowFlush env s).ticks = draw.stop + 1 := congrArg Pace.ticks hpace
      omega
    . exact congrArg Pace.lastRedraw hpace

theorem Reachable.dated {start : Start} (h : (machine env start).Reachable s)
    : Dated env start.config.redrawRate s := by
  obtain ⟨states, hstates⟩ := Reachable.flushed h
  refine (hstates.invariant (P := Dated env start.config.redrawRate) ?_ ?_ ⟨rfl, Or.inl rfl⟩).left
  . intro s s' hidles hs
    have hticks : s'.ticks = s.ticks := congrArg Pace.ticks hidles.pace
    have hlast : s'.term.w.lastRedraw = s.term.w.lastRedraw := congrArg Pace.lastRedraw hidles.pace
    refine ⟨(congrArg (·.config.redrawRate) hidles.pace).trans hs.rate, ?_⟩
    rw [hticks, hlast]
    exact hs.last
  . exact fun s hs => hs.flush

theorem Dated.windowCheckRecent {rate : Int} (hs : Dated env rate s) (hrate : 0 ≤ rate)
    (hclock : env.ClockRuns) (hepoch : 0 ≤ (env.clock 0).nanos) (hdelaying : s.term.w.delaying = false)
    (hlate : rate * 1000000 ≤ (env.clock s.ticks).nanos - (env.clock (s.ticks - 1)).nanos)
    : (Term.windowCheckRecent env s).fst = false := by
  have heq := hs.rate
  have hlast : s.term.w.lastRedraw.Normal ∧
      s.term.w.lastRedraw.nanos ≤ (env.clock (s.ticks - 1)).nanos := by
    rcases hs.last with hnever | ⟨n, hn, hlast⟩
    . rw [hnever]
      refine ⟨⟨Int.le_refl 0, by decide⟩, ?_⟩
      exact Int.le_trans hepoch (hclock.mono _ _ (Nat.zero_le _))
    . rw [hlast]
      exact ⟨hclock.normal n, hclock.mono _ _ (by omega)⟩
  by_cases hzero : s.term.config.redrawRate = 0
  . rw [windowCheckRecent_unlimited env s hzero]
  . have hlimited := windowCheckRecent_limited env s (by omega) hdelaying (hclock.normal _) hlast.left
    rw [if_pos] at hlimited
    . rw [hlimited]
    . have hle := hlast.right
      unfold sinceRedraw
      rw [heq]
      omega

theorem Alive.delaying (h : Alive s) {id : Nat} (hmem : ⟨id, .delay⟩ ∈ s.pending)
    : s.term.w.delaying = true := by
  obtain ⟨p, hp⟩ := h.named
  rw [← hp.slots.isSome_iff.mpr ⟨_, hmem, rfl⟩]
  exact hp.delay.symm

theorem Alive.ringing (h : Alive s) {id : Nat} (hmem : ⟨id, .resetVisualBell⟩ ∈ s.pending)
    : s.term.w.visualBellIsRinging = true := by
  obtain ⟨p, hp⟩ := h.named
  rw [← hp.slots.isSome_iff.mpr ⟨_, hmem, rfl⟩]
  exact hp.resetVisualBell.symm

theorem Gone.of_mem (h : Gone s) (hbusy : s'.busy = none)
    (hmem : ∀ e ∈ s'.pending, e ∈ s.pending ∨ ¬e.kind.IsWork)
    : Gone s' := by
  refine ⟨⟨hbusy, fun e he hkind => ?_⟩, fun e he hkind => ?_⟩
  . rcases hmem e he with hold | hnew
    . exact h.left.right e hold hkind
    . exact hnew (Or.inl hkind)
  . rcases hmem e he with hold | hnew
    . exact h.right e hold hkind
    . exact hnew (Or.inr hkind)

theorem Gone.flush (h : Gone s) (s₁ : World ρ) (hbusy : s₁.busy = s.busy)
    (hpending : ∀ e ∈ s₁.pending, e ∈ s.pending)
    : Gone (termRefcntDec (windowFlush env s₁)) := by
  apply h.of_mem
  . exact (windowFlush_redraws env s₁).busy.trans (hbusy.trans h.left.left)
  . intro e he
    exact ((windowFlush_registers env s₁).mem_or he).imp_left (hpending e)

/-- When both halves are gone, every step is the expiry of a timer, of which there are only a few. -/
theorem Gone.expires {rate : Int} {input : Input} (hgone : Gone s) (hs : Alive s)
    (hdated : Dated env rate s) (hrate : 0 ≤ rate) (hclock : env.ClockRuns)
    (hepoch : 0 ≤ (env.clock 0).nanos) (htimely : Timely env s input) (h : Stepped env s input s')
    : Gone s' ∧ expiries s' < expiries s := by
  have hidle {id : Nat} (hbusy : s.busy = some id) : False := by
    rw [hgone.left.left] at hbusy
    cases hbusy
  have hdel (id : Nat) : ∀ e ∈ (delEvent id s).pending, e ∈ s.pending :=
    fun e he => (mem_delEvent.mp he).left
  cases h with
  | opens _ hmem => exact absurd rfl (hgone.left.right _ hmem)
  | handles hbusy _ => exact (hidle hbusy).elim
  | closes hbusy _ => exact (hidle hbusy).elim
  | drains hbusy => exact (hidle hbusy).elim
  | reads _ hmem _ => exact absurd rfl (hgone.right _ hmem)
  | ends _ hmem _ => exact absurd rfl (hgone.right _ hmem)
  | @delay id _ hmem =>
    let s₁ := modifyWindow ({ · with delaying := false }) (delEvent id s)
    refine ⟨hgone.flush s₁ rfl (hdel id), ?_⟩
    have hdated₁ : Dated env rate (act .flush s₁) := ⟨hdated.rate, hdated.last⟩
    have hlate := htimely hmem
    rw [hdated.rate] at hlate
    have hle := (expiries_windowFlush env s₁).right
      (hdated₁.windowCheckRecent hrate hclock hepoch rfl hlate)
    have hless : expiries s₁ + 1 = expiries s := by
      unfold expiries
      rw [hs.delaying hmem, Bool.toNat_true]
      change 2 * (bellDue s).toNat + 2 * s.term.w.visualBellIsRinging.toNat + 0
        + s.term.w.multiClickTimerEvent.isSome.toNat + 1 = _
      omega
    change expiries (windowFlush env s₁) < expiries s
    omega
  | @resetVisualBell id _ hmem =>
    let s₁ := act .paintBackground (modifyWindow ({ · with visualBellIsRinging := false }) (delEvent id s))
    refine ⟨hgone.flush s₁ rfl (hdel id), ?_⟩
    have hle := (expiries_windowFlush env s₁).left
    have hless : expiries s₁ + 2 = expiries s := by
      unfold expiries
      rw [hs.ringing hmem, Bool.toNat_true]
      change 2 * (bellDue s).toNat + 2 * 0 + s.term.w.delaying.toNat
        + s.term.w.multiClickTimerEvent.isSome.toNat + 2 = _
      omega
    change expiries (windowFlush env s₁) < expiries s
    omega
  | @multiClick id hidle hmem =>
    refine ⟨hgone.of_mem hidle fun e he => Or.inl (hdel id e he), ?_⟩
    have hclick : s.term.w.multiClickTimerEvent.isSome = true :=
      hs.multiClickTimerEvent.mpr ⟨_, hmem, rfl⟩
    unfold expiries
    rw [hclick, Bool.toNat_true]
    exact Nat.lt_succ_self _

end Timers

section Answers

theorem Alive.unique (h : Alive s) {a e : Entry Callback} (ha : a ∈ s.pending) (he : e ∈ s.pending)
    (hkind : e.kind = a.kind)
    : e = a := by
  obtain ⟨p, hp⟩ := h.named
  exact hp.slots.inj he ha hkind

theorem WindowGone.ends (hgone : WindowGone s) (hs : Alive s) {id : Nat}
    (hmem : ⟨id, .ptyInput⟩ ∈ s.pending) {answer : Option (List UInt8)} (hanswer : answer.getD [] = [])
    : ∃ s', step env s (.ptyReady id answer) = some s' ∧ Gone s' := by
  have hready : ready id s = some ⟨id, .ptyInput⟩ := hs.ready hgone.left hmem
  obtain ⟨pty, hcb⟩ := ptyInputCb_none env hanswer (delEvent id s)
  refine ⟨termRefcntDec (act .requestClose (modifyTerm ({ · with pty }) (delEvent id s))), ?_, ?_⟩
  . change stepPtyReady env id answer s = _
    unfold stepPtyReady
    rw [hready]
    dsimp only
    rw [if_pos (by simp [hanswer]), hcb]
  . refine ⟨⟨hgone.left, fun e he => hgone.right e (mem_delEvent.mp he).left⟩, fun e he hkind => ?_⟩
    obtain ⟨he, hid⟩ := mem_delEvent.mp he
    exact hid (congrArg Entry.id (hs.unique hmem he hkind))

-- What `runes_window_request_close` sends to the window.
def deleteWindow : Input := .event false (.clientMessage .deleteWindow)

theorem PtyGone.closes (hgone : PtyGone s) (env : Env ρ) (hs : Alive s) {id : Nat}
    (hbusy : s.busy = some id)
    : ∃ s', step env s deleteWindow = some s' ∧ Gone s' := by
  refine ⟨{ windowClose s with busy := none }, ?_, ?_⟩
  . change stepEvent env false (.clientMessage .deleteWindow) s = _
    unfold stepEvent
    rw [hbusy]
    rfl
  . have hcloses : Stepped env s deleteWindow { windowClose s with busy := none } :=
      .closes hbusy rfl
    exact ⟨⟨rfl, fun e he => hcloses.not_registered hs rfl he⟩, hgone⟩

theorem PtyGone.opens (hgone : PtyGone s) (env : Env ρ) (hs : Alive s) (hidle : s.busy = none) {id : Nat}
    (hmem : ⟨id, .windowEvent⟩ ∈ s.pending)
    : ∃ s', step env s (.windowReady id) = some s' ∧ PtyGone s' ∧ s'.busy = some id := by
  have hready : ready id s = some ⟨id, .windowEvent⟩ := hs.ready hidle hmem
  refine ⟨{ delEvent id s with busy := some id }, ?_, ?_, rfl⟩
  . change stepWindowReady id s = _
    unfold stepWindowReady
    rw [hready]
  . exact fun e he => hgone e (mem_delEvent.mp he).left

theorem Gone.deleted_or (hgone : Gone s) (hs : Alive s)
    : s.deletes = 1 ∨ ∃ id s', step env s (.timerExpired id) = some s' := by
  cases hpending : s.pending with
  | nil =>
    left
    rw [hs.deletes, if_pos ⟨hgone.left.left, hpending⟩]
  | cons e rest =>
    right
    have hmem : e ∈ s.pending := by
      rw [hpending]
      exact List.mem_cons_self
    have hready := hs.ready hgone.left.left hmem
    refine ⟨e.id, ?_⟩
    obtain ⟨id, kind⟩ := e
    change ∃ s', stepTimerExpired env id s = some s'
    unfold stepTimerExpired
    rw [hready]
    cases kind with
    | windowEvent => exact absurd rfl (hgone.left.right _ hmem)
    | ptyInput => exact absurd rfl (hgone.right _ hmem)
    | delay => exact ⟨_, rfl⟩
    | resetVisualBell => exact ⟨_, rfl⟩
    | multiClick => exact ⟨_, rfl⟩

end Answers

/--
As soon as the window is closed, the program is hung up, and the next end of the pty's output is the end
of both. As soon as the pty is at its end, the window is asked to close, and when it gets that event both
are gone. From then on at most six timers expire until the terminal is deleted, if none does so too soon
and the clock does not go backwards, and there is always one to wait for.
-/
theorem closed_is_deleted {env : Env ρ} {start : Start} {s : World ρ}
    (hrate : 0 ≤ start.config.redrawRate) (hclock : env.ClockRuns)
    (hepoch : 0 ≤ (env.clock 0).nanos) (h : (machine env start).Reachable s)
    : (WindowGone s → .hangup ∈ s.log ∧
        (PtyGone s ∨ ∃ id, ∀ answer, answer.getD [] = [] →
          ∃ s', step env s (.ptyReady id answer) = some s' ∧ Gone s'))
        ∧
      (PtyGone s → .requestClose ∈ s.log ∧
        (WindowGone s ∨ ∃ ready s', (ready = [] ∨ ∃ id, ready = [.windowReady id]) ∧
          (machine env start).run s (ready ++ [deleteWindow]) = some s' ∧ Gone s'))
        ∧
      (Gone s → ∀ inputs s', (machine env start).RunOk (Timely env) s inputs →
        (machine env start).run s inputs = some s' →
          inputs.length ≤ 6 ∧ Gone s' ∧
            (s'.deletes = 1 ∨ ∃ id s'', step env s' (.timerExpired id) = some s'')) := by
  have hs := Reachable.alive h
  have htold := Reachable.told h
  refine ⟨fun hgone => ⟨htold.hangup hgone, ?_⟩, fun hgone => ⟨htold.requestClose hgone, ?_⟩, ?_⟩
  . by_cases hpty : PtyGone s
    . exact Or.inl hpty
    . unfold PtyGone at hpty
      push Not at hpty
      obtain ⟨⟨id, kind⟩, hmem, rfl⟩ := hpty
      exact Or.inr ⟨id, fun answer hanswer => hgone.ends hs hmem hanswer⟩
  . cases hbusy : s.busy with
    | some id =>
      obtain ⟨s', hstep, hgone'⟩ := hgone.closes env hs hbusy
      refine Or.inr ⟨[], s', Or.inl rfl, ?_, hgone'⟩
      exact Exec.Machine.run_cons hstep
    | none =>
      by_cases hwindow : WindowGone s
      . exact Or.inl hwindow
      . have hpending : ∃ e ∈ s.pending, e.kind = .windowEvent := by
          by_contra hnone
          push Not at hnone
          exact hwindow ⟨hbusy, hnone⟩
        obtain ⟨⟨id, kind⟩, hmem, rfl⟩ := hpending
        obtain ⟨s₁, hopen, hgone₁, hbusy₁⟩ := hgone.opens env hs hbusy hmem
        have hs₁ : Alive s₁ := (step_cases hopen).alive hs
        obtain ⟨s', hstep, hgone'⟩ := hgone₁.closes env hs₁ hbusy₁
        refine Or.inr ⟨[.windowReady id], s', Or.inr ⟨id, rfl⟩, ?_, hgone'⟩
        exact (Exec.Machine.run_cons hopen).trans (Exec.Machine.run_cons hstep)
  . intro hgone inputs s' hok hrun
    let P (s : World ρ) : Prop := (machine env start).Reachable s ∧ Gone s
    have hstep : ∀ s input s', P s → Timely env s input → (machine env start).step s input = some s' →
        P s' ∧ expiries s' < expiries s := by
      rintro s input s' ⟨h, hgone⟩ htimely hstep
      obtain ⟨hgone', hless⟩ := hgone.expires (Reachable.alive h) (Reachable.dated h) hrate hclock hepoch
        htimely (stepped hstep)
      exact ⟨⟨h.step trivial hstep, hgone'⟩, hless⟩
    have hlength := Exec.Machine.run_length_le hstep ⟨h, hgone⟩ hok hrun
    obtain ⟨h', hgone'⟩ := Exec.Machine.run_invariant (fun s input s' hP htimely hnext =>
      (hstep s input s' hP htimely hnext).left) ⟨h, hgone⟩ hok hrun
    have hle := expiries_le s
    exact ⟨by omega, hgone', hgone'.deleted_or (Reachable.alive h')⟩

namespace Plain

-- The clock goes on with the third draw.
def pausedClock (n : Nat) : Timespec := if n < 3 then ⟨100, 0⟩ else ⟨200 + n, 0⟩

def pausedEnv : Env Unit := { Plain.env with clock := pausedClock }

theorem pausedEnv_clockRuns : pausedEnv.ClockRuns := by
  have hclock : ∀ n, pausedEnv.clock n = pausedClock n := fun _ => rfl
  constructor
  . intro n
    rw [hclock]
    have hnsec : (pausedClock n).nsec = 0 := by
      unfold pausedClock
      split <;> rfl
    exact ⟨by omega, by omega⟩
  . intro m n hle
    rw [hclock, hclock]
    unfold pausedClock Timespec.nanos
    split <;> split <;> dsimp only <;> omega

-- A click, and output that is drawn later, before the window is closed.
def drawsAndCloses : List Input :=
  [.windowReady 0, .event false .expose, .event false release, .drained, .ptyReady 1 (some [0x0a]),
    .windowReady 0, deleteWindow, .ptyReady 1 none]

-- The timers of the click and of the delay.
def timers : List Input := [.timerExpired 2, .timerExpired 3]

end Plain

theorem closed_is_deleted_later
    : ∃ s s', (machine Plain.pausedEnv Plain.slowStart).run
          (machine Plain.pausedEnv Plain.slowStart).init Plain.drawsAndCloses = some s
        ∧ .hangup ∈ s.log ∧ .requestClose ∈ s.log
        ∧ (machine Plain.pausedEnv Plain.slowStart).run s Plain.timers = some s'
        ∧ Plain.timers.length ≤ 6 ∧ Gone s'
        ∧ (s'.deletes = 1 ∨ ∃ id s'', step Plain.pausedEnv s' (.timerExpired id) = some s'') := by
  obtain ⟨s, hrun, hbusy, hpending, htimely, hsome⟩ : ∃ s,
      (machine Plain.pausedEnv Plain.slowStart).run (machine Plain.pausedEnv Plain.slowStart).init
          Plain.drawsAndCloses = some s ∧
        s.busy = none ∧ s.pending.map (·.kind) = [.multiClick, .delay] ∧
          (machine Plain.pausedEnv Plain.slowStart).RunOk (Timely Plain.pausedEnv) s Plain.timers ∧
            ((machine Plain.pausedEnv Plain.slowStart).run s Plain.timers).isSome = true :=
    Exec.Machine.exists_run (by decide +kernel)
  obtain ⟨s', hrest⟩ := Option.isSome_iff_exists.mp hsome
  have hreach := Exec.Machine.Reaches.init.run (Exec.Machine.runOk_true _ _) hrun
  have hkinds : ∀ e ∈ s.pending, e.kind = .multiClick ∨ e.kind = .delay := by
    intro e he
    have hmem : e.kind ∈ s.pending.map (·.kind) := List.mem_map_of_mem he
    rw [hpending] at hmem
    simpa using hmem
  have hgone : Gone s := by
    refine ⟨⟨hbusy, fun e he hkind => ?_⟩, fun e he hkind => ?_⟩
    . rcases hkinds e he with h | h <;> cases h.symm.trans hkind
    . rcases hkinds e he with h | h <;> cases h.symm.trans hkind
  obtain ⟨hwindow, hpty, hend⟩ := closed_is_deleted (by decide) Plain.pausedEnv_clockRuns (by decide)
    hreach
  exact ⟨s, s', hrun, (hwindow hgone.left).left, (hpty hgone.right).left, hrest,
    hend hgone _ s' htimely hrest⟩

end Term
end Runes
