import Runes.Term.Lifetime
import Runes.Term.Stepped

/-!
This module contains that no draw is lost: as long as one is owed, one of the timers is pending whose
callbacks flush the window again, and the flags of the screen stay set until a flush acts on them.
-/

namespace Runes
namespace Term

variable {ρ : Type} {s s' s'' : World ρ}

def screenFlags (scr : Screen ρ) : Bool × Bool × Bool × Bool :=
  (scr.audibleBell, scr.visualBell, scr.updateTitle, scr.updateIconName)

/-- What everything that runs between two changes of the screen by libvt100 does. -/
structure Keeps (s s' : World ρ) : Prop where
  config : s'.term.config = s.term.config
  title : s'.term.scr.title = s.term.scr.title
  iconName : s'.term.scr.iconName = s.term.scr.iconName
  ringing : s.term.w.visualBellIsRinging = true → s'.term.w.visualBellIsRinging = true
  log : Logs (fun _ => True) s s'
  flags : FlagsKept s s'
  flush : screenFlags s'.term.scr = screenFlags s.term.scr ∨ Happens .flush s s'
  fresh : Fresh s → Fresh s'

def Action.IsNeutral (a : Action) : Prop := a ≠ .flush ∧ a ≠ .redrawn

theorem isOwed_neutral {a : Action} (ha : a.IsNeutral) (owed : Bool) : isOwed owed a = owed := by
  cases a with
  | flush => exact absurd rfl ha.left
  | redrawn => exact absurd rfl ha.right
  | _ => rfl

theorem foldl_isOwed {new : List Action} (hnew : ∀ a ∈ new, a.IsNeutral) (owed : Bool)
    : new.foldl isOwed owed = owed := by
  induction new with
  | nil => rfl
  | cons a new ih =>
    rw [List.foldl_cons, isOwed_neutral (hnew a List.mem_cons_self)]
    apply ih
    exact fun b hb => hnew b (List.mem_cons_of_mem a hb)

theorem Logs.drawOwed (h : Logs Action.IsNeutral s s') : drawOwed s'.log = drawOwed s.log := by
  have ⟨new, heq, hnew⟩ := h
  rw [heq, drawOwed_append, foldl_isOwed hnew]

theorem isNeutral_of_not_isDraw {a : Action} (ha : a.isDraw = false) : a.IsNeutral := by
  constructor
  . intro heq
    subst heq
    cases ha
  . intro heq
    subst heq
    cases ha

namespace Keeps

theorem trans (h : Keeps s s') (h' : Keeps s' s'') : Keeps s s'' where
  config := h'.config.trans h.config
  title := h'.title.trans h.title
  iconName := h'.iconName.trans h.iconName
  ringing hringing := h'.ringing (h.ringing hringing)
  log := h.log.trans h'.log
  flags := h.flags.trans h'.flags h.log h'.log h.config h.title h.iconName h'.ringing
  flush := by
    rcases h'.flush with hsame | hflush
    . rcases h.flush with hsame' | hflush'
      . exact Or.inl (hsame.trans hsame')
      . exact Or.inr (h'.log.happens_left hflush')
    . exact Or.inr (h.log.happens_right hflush)
  fresh hfresh := h'.fresh (h.fresh hfresh)

theorem quiet (hscr : s'.term.scr = s.term.scr) (hconfig : s'.term.config = s.term.config)
    (hdelaying : s'.term.w.delaying = s.term.w.delaying)
    (hringing : s'.term.w.visualBellIsRinging = s.term.w.visualBellIsRinging)
    (hlog : Logs Action.IsNeutral s s')
    : Keeps s s' where
  config := hconfig
  title := by rw [hscr]
  iconName := by rw [hscr]
  ringing h := hringing.trans h
  log := hlog.mono (fun _ _ => trivial)
  flags := .of_scr hscr
  flush := Or.inl (by rw [hscr])
  fresh h := by
    unfold Fresh
    rw [hlog.drawOwed, hdelaying, hringing]
    exact h

theorem windowFlush (env : Env ρ) (s : World ρ) : Keeps s (windowFlush env s) := by
  have ⟨hflushes, hflush, hfresh⟩ := windowFlush_flushes env s
  exact {
    config := hflushes.config
    title := congrArg (·.scr.title) hflushes.term
    iconName := congrArg (·.scr.iconName) hflushes.term
    ringing := hflushes.ringing
    log := hflushes.log.mono (fun _ _ => trivial)
    flags := hflushes.flags
    flush := Or.inr hflush
    fresh := fun _ => hfresh
  }

end Keeps

theorem Does.keeps {env : Env ρ} {sel : Loc → Prop} {acts : List PointerAct}
    (h : Does env sel acts s s')
    : Keeps s s' := by
  have hquiet : ∀ {s s' : World ρ}, Logs Action.IsQuiet s s' → Logs Action.IsNeutral s s' :=
    fun hlog => hlog.mono (fun _ ha => isNeutral_of_not_isDraw ha.left)
  induction h with
  | trans h h' ih ih' => exact ih.trans ih'
  | flush s => exact .windowFlush env s
  | act s hdraw hmouse => exact .quiet rfl rfl rfl rfl (.act (isNeutral_of_not_isDraw hdraw))
  | builtin s => exact .quiet rfl rfl rfl rfl (.act ⟨by simp, by simp⟩)
  | report type button s => exact .quiet rfl rfl rfl rfl (.act ⟨by simp, by simp⟩)
  | acquire s =>
    have ⟨owns, hterm⟩ := windowAcquireSelection_term env s
    apply Keeps.quiet ?_ ?_ ?_ ?_ (hquiet (windowAcquireSelection_logs env s))
    all_goals
      rw [hterm]
      rfl
  | window hf s =>
    have ⟨_, hdelaying, hringing⟩ := hf.timers s.term.w
    exact .quiet rfl rfl hdelaying hringing (.refl s)
  | timer s =>
    have ⟨event, refcnt, hterm⟩ := restartMultiClickTimer_term s
    apply Keeps.quiet ?_ ?_ ?_ ?_ (hquiet (restartMultiClickTimer_logs s))
    all_goals rw [hterm]
  | _ => exact .quiet rfl rfl rfl rfl (.refl _)

def resizedScreen (env : Env ρ) (width height : Int) (s : World ρ) : Screen ρ :=
  let width := windowDimension width
  let height := windowDimension height
  let display := s.term.display
  if width ≠ display.xpixel ∨ height ≠ display.ypixel then
    let row := (height - 4).tdiv display.fonty
    let col := (width - 4).tdiv display.fontx
    env.vt100.setWindowSize s.term.scr row col
  else
    s.term.scr

-- The screen that libvt100 makes in a step, before anything is done about its flags.
def nextScreen (env : Env ρ) (s : World ρ) (input : Input) : Screen ρ :=
  match input with
  | .event false (.configure e later) =>
    if e.border then
      resizedScreen env (later.getLastD e).width (later.getLastD e).height s
    else
      s.term.scr
  | .ptyReady _ (some (byte :: bytes)) =>
    (env.vt100.processString s.term.scr (s.term.pty.readbuf ++ byte :: bytes)).fst
  | _ => s.term.scr

def handed (env : Env ρ) (s : World ρ) (input : Input) : World ρ :=
  modifyScreen (fun _ => nextScreen env s input) s

theorem displayMaybeClearSelection_keeps (env : Env ρ) (s : World ρ)
    : Keeps s (displayMaybeClearSelection env s) := by
  unfold displayMaybeClearSelection
  extract_lets display grid s₁ contents
  have h₁ : Keeps s s₁ := .quiet rfl rfl rfl rfl (.act ⟨by simp, by simp⟩)
  split
  . split
    . exact h₁.trans (.quiet rfl rfl rfl rfl (.refl _))
    . exact h₁
  . exact .quiet rfl rfl rfl rfl (.refl s)

theorem windowResizeWindow_keeps (env : Env ρ) (width height : Int) (s : World ρ)
    : Keeps (modifyScreen (fun _ => resizedScreen env width height s) s)
        (windowResizeWindow env width height s) := by
  unfold windowResizeWindow resizedScreen
  extract_lets width height display row col s₁ s₂
  split
  . have h₁ : Logs Action.IsNeutral s s₁ := .act ⟨by simp, by simp⟩
    have h₂ : Logs Action.IsNeutral s₁ s₂ := ⟨[_], rfl, by simp [Action.IsNeutral]⟩
    have h₃ : Keeps (modifyScreen (fun _ => env.vt100.setWindowSize s.term.scr row col) s) s₂ :=
      .quiet rfl rfl rfl rfl (h₁.trans h₂)
    exact h₃.trans (displayMaybeClearSelection_keeps env s₂)
  . exact .quiet rfl rfl rfl rfl (.refl s)

theorem windowHandleEvent_keeps (env : Env ρ) (filtered : Bool) (e : Event) (s : World ρ)
    : Keeps (handed env s (.event filtered e)) (windowHandleEvent env filtered e s).snd := by
  by_cases he : e.IsConfigure
  . cases e with
    | configure e later =>
      unfold handed nextScreen
      cases filtered with
      | true => exact .quiet rfl rfl rfl rfl (.refl _)
      | false =>
        simp only [windowHandleEvent, windowHandleConfigureEvent, Bool.false_eq_true, if_false]
        split
        . apply windowResizeWindow_keeps
        . exact .quiet rfl rfl rfl rfl (.refl _)
    | _ => cases he
  . have hscreen : nextScreen env s (.event filtered e) = s.term.scr := by
      unfold nextScreen
      split
      . next heq =>
        cases heq
        exact absurd trivial he
      . next heq => cases heq
      . rfl
    have hdoes : Does env (fun _ => True) _ s (windowHandleEvent env filtered e s).snd :=
      windowHandleEvent_does filtered s he (fun _ _ _ _ => trivial)
    unfold handed
    rw [hscreen]
    exact hdoes.keeps

structure Refreshes (s s' : World ρ) : Prop where
  flags : FlagsKept s s'
  flush : screenFlags s'.term.scr = screenFlags s.term.scr ∨ Happens .flush s s'
  fresh : Fresh s → Fresh s'

theorem Keeps.refreshes (h : Keeps s s') : Refreshes s s' := ⟨h.flags, h.flush, h.fresh⟩

theorem happens_windowFlush (env : Env ρ) {s₁ : World ρ} {P : Action → Prop} (hlog : Logs P s s₁)
    : Happens .flush s (termRefcntDec (windowFlush env s₁)) :=
  hlog.happens_right (windowFlush_flushes env s₁).right.left

-- The timers clear the flag that says that they are pending, but then they flush the window.
theorem refreshes_windowFlush (env : Env ρ) {s₁ : World ρ} (hscr : s₁.term.scr = s.term.scr)
    (hlog : Logs Action.IsNeutral s s₁) (hconfig : s₁.term.config = s.term.config)
    : Refreshes s (termRefcntDec (windowFlush env s₁)) where
  flags := by
    have h : Keeps s₁ (termRefcntDec (windowFlush env s₁)) :=
      (Keeps.windowFlush env s₁).trans (.quiet rfl rfl rfl rfl (.refl _))
    exact (FlagsKept.of_scr hscr).trans h.flags hlog h.log hconfig (by rw [hscr]) (by rw [hscr])
      h.ringing
  flush := Or.inr (happens_windowFlush env hlog)
  fresh _ := (windowFlush_flushes env s₁).right.right

theorem Stepped.refreshes {env : Env ρ} {input : Input} (h : Stepped env s input s')
    : Refreshes (handed env s input) s' := by
  cases h with
  | opens _ _ =>
    apply Keeps.refreshes
    exact .quiet rfl rfl rfl rfl (.of_eq rfl)
  | handles _ _ => exact (windowHandleEvent_keeps env _ _ s).refreshes
  | closes _ _ =>
    apply Keeps.refreshes
    apply (windowHandleEvent_keeps env _ _ s).trans
    exact .quiet rfl rfl rfl rfl (.act (a := .hangup) ⟨by simp, by simp⟩)
  | drains _ =>
    apply Keeps.refreshes
    exact .quiet rfl rfl rfl rfl (.of_eq rfl)
  | @reads id bytes _ _ hne =>
    have hscreen : nextScreen env s (.ptyReady id (some bytes))
        = (env.vt100.processString s.term.scr (s.term.pty.readbuf ++ bytes)).fst := by
      cases bytes with
      | nil => exact absurd rfl hne
      | cons byte bytes => rfl
    have h₁ : Keeps (handed env s (.ptyReady id (some bytes)))
        (ptyProcess env bytes (delEvent id s)) := by
      unfold handed
      rw [hscreen]
      exact .quiet rfl rfl rfl rfl (.refl _)
    apply Keeps.refreshes
    exact h₁.trans ((Keeps.windowFlush env _).trans (.quiet rfl rfl rfl rfl (.refl _)))
  | @ends id answer pty _ _ hanswer =>
    have hscreen : nextScreen env s (.ptyReady id answer) = s.term.scr := by
      unfold nextScreen
      split
      . next heq => cases heq
      . next heq =>
        cases heq
        cases hanswer
      . rfl
    apply Keeps.refreshes
    unfold handed
    rw [hscreen]
    exact .quiet rfl rfl rfl rfl (.act (a := .requestClose) ⟨by simp, by simp⟩)
  | delay _ _ => exact refreshes_windowFlush env rfl (.refl _) rfl
  | resetVisualBell _ _ =>
    exact refreshes_windowFlush env rfl (.act (a := .paintBackground) ⟨by simp, by simp⟩) rfl
  | multiClick _ _ =>
    apply Keeps.refreshes
    exact .quiet rfl rfl rfl rfl (.of_eq rfl)

theorem fresh_init (env : Env ρ) (start : Start) : Fresh (machine env start).init := by
  intro howed
  have hlog : (machine env start).init.log = [.setWindowSize _ _ _ _] := rfl
  rw [hlog] at howed
  cases howed

theorem Reachable.fresh {env : Env ρ} {start : Start} (h : (machine env start).Reachable s)
    : Fresh s :=
  h.invariant (fresh_init env start) (fun _ _ _ hs _ hstep => (stepped hstep).refreshes.fresh hs)

theorem Alive.count_delay (h : Alive s)
    : (s.pending.map (·.kind)).count .delay = if s.term.w.delaying then 1 else 0 := by
  have ⟨p, hp⟩ := h.named
  have hcount := hp.slots.count_kind h.sound .delay
  rwa [hp.delay] at hcount

theorem Alive.count_resetVisualBell (h : Alive s)
    : (s.pending.map (·.kind)).count .resetVisualBell
        = if s.term.w.visualBellIsRinging then 1 else 0 := by
  have ⟨p, hp⟩ := h.named
  have hcount := hp.slots.count_kind h.sound .resetVisualBell
  rwa [hp.resetVisualBell] at hcount

theorem Alive.ready (h : Alive s) {e : Entry Callback} (hidle : s.busy = none)
    (hmem : e ∈ s.pending)
    : ready e.id s = some e := by
  have hnodup : (s.pending.map (·.id)).Nodup := h.sound.nodup_pending
  unfold Term.ready
  rw [hidle]
  dsimp only
  cases hfind : s.pending.find? (fun a => a.id = e.id) with
  | none =>
    rw [List.find?_eq_none] at hfind
    exact absurd (decide_eq_true rfl) (hfind e hmem)
  | some a =>
    have hid := List.find?_some hfind
    rw [List.inj_on_of_nodup_map hnodup (List.mem_of_find?_eq_some hfind) hmem (by simpa using hid)]

def Callback.IsFlush (cb : Callback) : Prop := cb = .delay ∨ cb = .resetVisualBell

theorem Alive.flushes (h : Alive s) (env : Env ρ) {e : Entry Callback} (hidle : s.busy = none)
    (hmem : e ∈ s.pending) (hkind : e.kind.IsFlush)
    : ∃ s', step env s (.timerExpired e.id) = some s' ∧ Happens .flush s s' := by
  have hready := h.ready hidle hmem
  cases e with
  | mk id kind =>
    rcases hkind with hkind | hkind
    . dsimp only at hkind
      subst hkind
      refine ⟨windowDelayCb env (delEvent id s), ?_, ?_⟩
      . simp [step, stepTimerExpired, hready]
      . exact happens_windowFlush env (Logs.refl (P := Action.IsNeutral) s)
    . dsimp only at hkind
      subst hkind
      refine ⟨windowResetVisualBell env (delEvent id s), ?_, ?_⟩
      . simp [step, stepTimerExpired, hready]
      . have hpaint : Logs Action.IsNeutral s (act .paintBackground s) := .act ⟨by simp, by simp⟩
        exact happens_windowFlush env hpaint

theorem Alive.flush_pending (h : Alive s) (hfresh : Fresh s) (howed : drawOwed s.log = true)
    : ∃ e ∈ s.pending, e.kind.IsFlush := by
  have hmem : ∀ cb, 0 < (s.pending.map (·.kind)).count cb → ∃ e ∈ s.pending, e.kind = cb := by
    intro cb hcount
    exact List.mem_map.mp (List.count_pos_iff.mp hcount)
  rcases hfresh howed with hdelaying | hringing
  . have ⟨e, he, hkind⟩ := hmem .delay (by rw [h.count_delay, if_pos hdelaying]; exact Nat.one_pos)
    exact ⟨e, he, Or.inl hkind⟩
  . have ⟨e, he, hkind⟩ := hmem .resetVisualBell
      (by rw [h.count_resetVisualBell, if_pos hringing]; exact Nat.one_pos)
    exact ⟨e, he, Or.inr hkind⟩

/--
In every state of every run: the window says that it delays a draw while one timer for this is
pending, and that its bell is ringing while one timer for that is. If it was flushed after it was
drawn the last time, one of these timers is pending, and its callback is going to flush it again. In
every step, the flags of the screen that libvt100 hands over are cleared only in a flush, which acts
on them.
-/
theorem refresh_pending {env : Env ρ} {start : Start} (h : (machine env start).Reachable s)
    : (s.pending.map (·.kind)).count .delay = (if s.term.w.delaying then 1 else 0)
        ∧ (s.pending.map (·.kind)).count .resetVisualBell
          = (if s.term.w.visualBellIsRinging then 1 else 0)
        ∧ (drawOwed s.log = true →
          ∃ e ∈ s.pending, e.kind.IsFlush
            ∧ (s.busy = none →
              ∃ s', step env s (.timerExpired e.id) = some s' ∧ Happens .flush s s'))
        ∧ ∀ input s', step env s input = some s' →
          FlagsKept (handed env s input) s'
            ∧ (screenFlags s'.term.scr = screenFlags (nextScreen env s input)
              ∨ Happens .flush s s') := by
  have halive := Reachable.alive h
  refine ⟨halive.count_delay, halive.count_resetVisualBell, ?_, ?_⟩
  . intro howed
    have ⟨e, hmem, hkind⟩ := halive.flush_pending (Reachable.fresh h) howed
    exact ⟨e, hmem, hkind, fun hidle => halive.flushes env hidle hmem hkind⟩
  . intro input s' hstep
    have hrefreshes := (stepped hstep).refreshes
    exact ⟨hrefreshes.flags, hrefreshes.flush⟩

namespace Plain

def slowStart : Start := { start with config := { start.config with redrawRate := 5000 } }

def output : List Input := [.ptyReady 1 (some [0x0a])]

end Plain

theorem refresh_pending_output
    : ∃ s, (machine Plain.env Plain.slowStart).run (machine Plain.env Plain.slowStart).init
          Plain.output = some s
        ∧ s.term.w.delaying = true
        ∧ ∃ e ∈ s.pending, e.kind.IsFlush
          ∧ ∃ s', step Plain.env s (.timerExpired e.id) = some s' ∧ Happens .flush s s' := by
  let M := machine Plain.env Plain.slowStart
  have ⟨s, hrun, hidle, hdelaying, howed⟩ : ∃ s, M.run M.init Plain.output = some s
      ∧ s.busy = none ∧ s.term.w.delaying = true ∧ drawOwed s.log = true :=
    Exec.Machine.exists_run (by decide +kernel)
  have hreach := Exec.Machine.Reaches.init.run (Exec.Machine.runOk_true _ _) hrun
  have ⟨_, _, hpending, _⟩ := refresh_pending hreach
  have ⟨e, hmem, hkind, hflush⟩ := hpending howed
  exact ⟨s, hrun, hdelaying, e, hmem, hkind, hflush hidle⟩

end Term
end Runes
