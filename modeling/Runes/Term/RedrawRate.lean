import Runes.Term.Handles

/-!
This module contains how often the window is drawn. The milliseconds of the limit are subtracted from
the seconds and nanoseconds of the clock in one function, and are turned into seconds and microseconds
in another one.
-/

namespace Runes
namespace Term

namespace Timespec

def nanos (t : Timespec) : Int := t.sec * 1000000000 + t.nsec

structure Normal (t : Timespec) : Prop where
  nonneg : 0 ≤ t.nsec
  lt : t.nsec < 1000000000

def Before (t t' : Timespec) : Prop := t.sec < t'.sec ∨ (t.sec = t'.sec ∧ t.nsec < t'.nsec)

theorem before_iff {t t' : Timespec} (ht : t.Normal) (ht' : t'.Normal)
    : t.Before t' ↔ t.nanos < t'.nanos := by
  have ⟨hnonneg, hlt⟩ := ht
  have ⟨hnonneg', hlt'⟩ := ht'
  unfold Before nanos
  omega

end Timespec

namespace Timeval

def micros (t : Timeval) : Int := t.sec * 1000000 + t.usec

structure Normal (t : Timeval) : Prop where
  nonneg : 0 ≤ t.usec
  lt : t.usec < 1000000

end Timeval

theorem borrow_spec (now : Timespec) (hlt : now.nsec < 1000000000)
    : (subtractRate.borrow now).Normal ∧ (subtractRate.borrow now).nanos = now.nanos := by
  fun_induction subtractRate.borrow now with
  | case1 now hneg ih =>
    have ⟨hnormal, hnanos⟩ := ih (by dsimp only; omega)
    refine ⟨hnormal, hnanos.trans ?_⟩
    unfold Timespec.nanos
    dsimp only
    omega
  | case2 now hnonneg => exact ⟨⟨by omega, hlt⟩, rfl⟩

theorem subtractRate_spec (now : Timespec) (rate : Int) (hnow : now.Normal) (hrate : 0 ≤ rate)
    : (subtractRate now rate).Normal
        ∧ (subtractRate now rate).nanos = now.nanos - rate * 1000000 := by
  fun_induction subtractRate now rate with
  | case1 now rate hsecond ih =>
    have ⟨hnormal, hnanos⟩ := ih ⟨hnow.nonneg, hnow.lt⟩ (by omega)
    refine ⟨hnormal, hnanos.trans ?_⟩
    unfold Timespec.nanos
    dsimp only
    omega
  | case2 now rate hless =>
    have hlt := hnow.lt
    have ⟨hnormal, hnanos⟩ := borrow_spec { now with nsec := now.nsec - rate * 1000000 }
      (by dsimp only; omega)
    refine ⟨hnormal, hnanos.trans ?_⟩
    unfold Timespec.nanos
    dsimp only
    omega

theorem timerTimeout_go_spec (sec timeout : Int) (h : 0 ≤ timeout)
    : (timerTimeout.go sec timeout).Normal
        ∧ (timerTimeout.go sec timeout).micros = sec * 1000000 + timeout * 1000 := by
  fun_induction timerTimeout.go sec timeout with
  | case1 sec timeout hsecond ih =>
    have ⟨hnormal, hmicros⟩ := ih (by omega)
    exact ⟨hnormal, hmicros.trans (by omega)⟩
  | case2 sec timeout hless => exact ⟨⟨by dsimp only; omega, by dsimp only; omega⟩, rfl⟩

theorem timerTimeout_spec {timeout : Int} (h : 0 ≤ timeout)
    : (timerTimeout timeout).Normal ∧ (timerTimeout timeout).micros = timeout * 1000 := by
  have ⟨hnormal, hmicros⟩ := timerTimeout_go_spec 0 timeout h
  exact ⟨hnormal, hmicros.trans (by omega)⟩

variable {ρ : Type} {env : Env ρ} {s s' : World ρ}

/-- A timer is armed that expires after so many milliseconds, exactly. -/
def ArmsDelay (rate : Int) (s s' : World ρ) : Prop :=
  ∃ timeout : Timeval, timeout.Normal ∧ timeout.micros = rate * 1000
    ∧ s'.log = s.log ++ [.addTimer s.next timeout]
    ∧ s'.pending = s.pending ++ [⟨s.next, .delay⟩]
    ∧ s'.term.w.delaying = true

-- The time that has gone by since the last draw, in nanoseconds.
def sinceRedraw (env : Env ρ) (s : World ρ) : Int :=
  (env.clock s.ticks).nanos - s.term.w.lastRedraw.nanos

theorem windowCheckRecent_unlimited (env : Env ρ) (s : World ρ) (hrate : s.term.config.redrawRate = 0)
    : windowCheckRecent env s = (false, s) := by
  unfold windowCheckRecent
  exact if_pos hrate

theorem windowCheckRecent_limited (env : Env ρ) (s : World ρ) (hrate : 0 < s.term.config.redrawRate)
    (hdelaying : s.term.w.delaying = false) (hnow : (env.clock s.ticks).Normal)
    (hlast : s.term.w.lastRedraw.Normal)
    : if s.term.config.redrawRate * 1000000 ≤ sinceRedraw env s then
        windowCheckRecent env s = (false, { s with ticks := s.ticks + 1 })
      else
        (windowCheckRecent env s).fst = true
          ∧ ArmsDelay s.term.config.redrawRate s (windowCheckRecent env s).snd := by
  have hnonneg : 0 ≤ s.term.config.redrawRate := by omega
  have hzero : ¬s.term.config.redrawRate = 0 := by omega
  have hfree : ¬s.term.w.delaying = true := by simp [hdelaying]
  have ⟨hnormal, hnanos⟩ := subtractRate_spec (env.clock s.ticks) _ hnow hnonneg
  have hbefore := Timespec.before_iff hnormal hlast
  rw [hnanos] at hbefore
  unfold Timespec.Before at hbefore
  have ⟨htimeout, hmicros⟩ := timerTimeout_spec hnonneg
  by_cases hlate : s.term.config.redrawRate * 1000000 ≤ sinceRedraw env s
  . have hnot : ¬(_ ∨ _) := fun h => absurd (hbefore.mp h) (by unfold sinceRedraw at hlate; omega)
    rw [if_pos hlate]
    unfold windowCheckRecent
    dsimp only
    rw [if_neg hzero, if_neg hfree, if_neg hnot]
  . have hearly := hbefore.mpr (by unfold sinceRedraw at hlate; omega)
    rw [if_neg hlate]
    unfold windowCheckRecent
    dsimp only
    rw [if_neg hzero, if_neg hfree, if_pos hearly]
    exact ⟨rfl, _, htimeout, hmicros, rfl, rfl, rfl⟩

theorem windowCheckRecent_pace (env : Env ρ) (s : World ρ)
    : pace (windowCheckRecent env s).snd
          = { pace s with ticks := (windowCheckRecent env s).snd.ticks }
        ∧ s.ticks ≤ (windowCheckRecent env s).snd.ticks := by
  unfold windowCheckRecent
  extract_lets rate now last s₁ s₂
  split
  . exact ⟨rfl, Nat.le_refl _⟩
  . split
    . exact ⟨rfl, Nat.le_refl _⟩
    . split
      . exact ⟨rfl, Nat.le_succ _⟩
      . exact ⟨rfl, Nat.le_succ _⟩

/-- A draw, by the last reading of the clock before it and the one at its end. -/
structure Draw where
  start : Nat
  stop : Nat

-- The draw that a flush in this state makes, if it makes one.
def drawn (env : Env ρ) (t : World ρ) : Option Draw :=
  match windowCheckRecent env (act .flush t) with
  | (true, _) => none
  | (false, s) =>
    if (flushScreenFlags s).term.w.visualBellIsRinging then
      none
    else
      some { start := s.ticks - 1, stop := s.ticks }

def redraws (s : World ρ) : Nat := s.log.count .redrawn

theorem Logs.redraws (h : Logs Action.IsNeutral s s') : redraws s' = redraws s := by
  have ⟨new, heq, hnew⟩ := h
  have hzero : new.count .redrawn = 0 := by
    rw [List.count_eq_zero]
    intro hmem
    exact (hnew _ hmem).right rfl
  unfold Term.redraws
  rw [heq, List.count_append, hzero, Nat.add_zero]

theorem redraws_act_flush (t : World ρ) : redraws (act .flush t) = redraws t := by
  simp [redraws, act]

theorem redraws_of_paints (h : Paints s s') : redraws s' = redraws s :=
  (h.log.mono (fun _ ha => ha.right)).redraws

-- What a flush keeps of a draw, when everything has been painted.
theorem redrawn_of_paints (env : Env ρ) (h : Paints s s') (t : World ρ)
    (ht : t = modifyWindow ({ · with lastRedraw := env.clock s'.ticks }) (act .redrawn s'))
    : pace { t with ticks := t.ticks + 1 }
          = { pace s with lastRedraw := env.clock s.ticks, ticks := s.ticks + 1 }
        ∧ redraws { t with ticks := t.ticks + 1 } = redraws s + 1 := by
  have hticks : s'.ticks = s.ticks := congrArg Pace.ticks h.pace
  have hconfig : s'.term.config = s.term.config := congrArg Pace.config h.pace
  subst ht
  constructor
  . change Pace.mk s'.term.config (env.clock s'.ticks) (s'.ticks + 1) = _
    rw [hticks, hconfig]
    rfl
  . rw [← redraws_of_paints h]
    simp [redraws, act, modifyWindow]

theorem windowFlush_drawn (env : Env ρ) (t : World ρ)
    : match drawn env t with
      | some draw =>
        pace (windowFlush env t)
            = { pace t with lastRedraw := env.clock draw.stop, ticks := draw.stop + 1 }
          ∧ t.ticks ≤ draw.stop
          ∧ redraws (windowFlush env t) = redraws t + 1
      | none =>
        pace (windowFlush env t) = { pace t with ticks := (windowFlush env t).ticks }
          ∧ t.ticks ≤ (windowFlush env t).ticks
          ∧ redraws (windowFlush env t) = redraws t := by
  have ⟨hpace, hticks⟩ := windowCheckRecent_pace env (act .flush t)
  have hredraws := ((windowCheckRecent_logs env (act .flush t)).mono (fun _ ha => ha.right)).redraws
  rw [redraws_act_flush] at hredraws
  unfold drawn windowFlush
  cases hrecent : windowCheckRecent env (act .flush t) with
  | mk recent s₁ =>
    rw [hrecent] at hpace hticks hredraws
    cases recent with
    | true => exact ⟨hpace, hticks, hredraws⟩
    | false =>
      have hflags := flushScreenFlags_paints s₁
      have hticks' : (flushScreenFlags s₁).ticks = s₁.ticks := congrArg Pace.ticks hflags.pace
      by_cases hringing : (flushScreenFlags s₁).term.w.visualBellIsRinging = true
      . dsimp only
        rw [if_pos hringing, if_pos hringing]
        dsimp only
        rw [hticks']
        exact ⟨hflags.pace.trans hpace, hticks, (redraws_of_paints hflags).trans hredraws⟩
      . have hdraw := hflags.trans (displayDrawScreen_paints env (flushScreenFlags s₁))
        have ⟨hpace', hredraws'⟩ := redrawn_of_paints env hdraw _ rfl
        dsimp only
        rw [if_neg hringing, if_neg hringing, ← hredraws]
        refine ⟨hpace'.trans ?_, hticks, hredraws'⟩
        rw [hpace]
        rfl

theorem drawn_late {t : World ρ} {draw : Draw} (h : drawn env t = some draw)
    (hclock : ∀ n, (env.clock n).Normal) (hrate : 0 < t.term.config.redrawRate)
    (hlast : t.term.w.lastRedraw.Normal)
    : t.term.config.redrawRate * 1000000
        ≤ (env.clock draw.start).nanos - t.term.w.lastRedraw.nanos := by
  have hfree : t.term.w.delaying = false := by
    cases hdelaying : t.term.w.delaying with
    | false => rfl
    | true =>
      have hzero : ¬t.term.config.redrawRate = 0 := by omega
      have hrecent : windowCheckRecent env (act .flush t) = (true, act .flush t) := by
        unfold windowCheckRecent
        exact (if_neg hzero).trans (if_pos hdelaying)
      unfold drawn at h
      rw [hrecent] at h
      cases h
  have hlimited := windowCheckRecent_limited env (act .flush t) hrate hfree (hclock _) hlast
  unfold drawn at h
  split at hlimited
  . next hlate =>
    rw [hlimited] at h
    dsimp only at h
    split at h
    . cases h
    . cases h
      exact hlate
  . have hrecent := hlimited.left
    split at h
    . cases h
    . next heq =>
      rw [heq] at hrecent
      cases hrecent

theorem start_of_drawn {t : World ρ} {draw : Draw} (h : drawn env t = some draw)
    : draw.start = draw.stop - 1 := by
  unfold drawn at h
  split at h
  . cases h
  . split at h
    . cases h
    . cases h
      rfl

structure Env.ClockRuns (env : Env ρ) : Prop where
  normal : ∀ n, (env.clock n).Normal
  mono : ∀ m n, m ≤ n → (env.clock m).nanos ≤ (env.clock n).nanos

def draws (env : Env ρ) (states : List (World ρ)) : List Draw := states.filterMap (drawn env)

-- The later draw starts this many milliseconds after the other one has ended.
def Spaced (env : Env ρ) (rate : Int) (draw later : Draw) : Prop :=
  rate * 1000000 ≤ (env.clock later.start).nanos - (env.clock draw.stop).nanos

/-- The draws so far, and the time of the last one. -/
structure Paced (env : Env ρ) (rate : Int) (prior : List Draw) (s : World ρ) : Prop where
  config : s.term.config.redrawRate = rate
  last : s.term.w.lastRedraw.Normal
  past : ∀ draw ∈ prior, draw.stop < s.ticks
    ∧ (env.clock draw.stop).nanos ≤ s.term.w.lastRedraw.nanos
  spaced : prior.Pairwise (Spaced env rate)

section

variable {rate : Int} {prior : List Draw} {states : List (World ρ)}

theorem Paced.of_pace (hs : Paced env rate prior s)
    (hpace : pace s' = { pace s with ticks := s'.ticks }) (hticks : s.ticks ≤ s'.ticks)
    : Paced env rate prior s' := by
  have hconfig : s'.term.config = s.term.config := congrArg Pace.config hpace
  have hlast : s'.term.w.lastRedraw = s.term.w.lastRedraw := congrArg Pace.lastRedraw hpace
  refine ⟨?_, ?_, ?_, hs.spaced⟩
  . rw [hconfig]
    exact hs.config
  . rw [hlast]
    exact hs.last
  . intro draw hdraw
    have ⟨hstop, hbefore⟩ := hs.past draw hdraw
    rw [hlast]
    exact ⟨by omega, hbefore⟩

-- A draw is spaced from all earlier ones, of which the last one has set the time.
theorem Paced.spaced_drawn (hs : Paced env rate prior s) (hclock : env.ClockRuns) (hrate : 0 ≤ rate)
    {draw : Draw} (hdrawn : drawn env s = some draw) (hticks : s.ticks ≤ draw.stop)
    : ∀ earlier ∈ prior, Spaced env rate earlier draw := by
  intro earlier hearlier
  have ⟨hstop, hbefore⟩ := hs.past earlier hearlier
  unfold Spaced
  by_cases hzero : rate = 0
  . have hstart := start_of_drawn hdrawn
    have hmono := hclock.mono earlier.stop draw.start (by omega)
    omega
  . have hconfig := hs.config
    have hlate := drawn_late hdrawn hclock.normal (by omega) hs.last
    omega

theorem Paced.flush (hs : Paced env rate prior s) (hclock : env.ClockRuns) (hrate : 0 ≤ rate)
    : Paced env rate (prior ++ (drawn env s).toList) (windowFlush env s) := by
  have hflush := windowFlush_drawn env s
  cases hdrawn : drawn env s with
  | none =>
    rw [hdrawn] at hflush
    have ⟨hpace, hticks, _⟩ := hflush
    rw [Option.toList_none, List.append_nil]
    exact hs.of_pace hpace hticks
  | some draw =>
    rw [hdrawn] at hflush
    have ⟨hpace, hticks, _⟩ := hflush
    have hconfig : (windowFlush env s).term.config = s.term.config := congrArg Pace.config hpace
    have hlast : (windowFlush env s).term.w.lastRedraw = env.clock draw.stop :=
      congrArg Pace.lastRedraw hpace
    have hticks' : (windowFlush env s).ticks = draw.stop + 1 := congrArg Pace.ticks hpace
    have hspaced := hs.spaced_drawn hclock hrate hdrawn hticks
    refine ⟨?_, ?_, ?_, ?_⟩
    . rw [hconfig]
      exact hs.config
    . rw [hlast]
      exact hclock.normal _
    . intro earlier hearlier
      rw [hlast, hticks']
      rcases List.mem_append.mp hearlier with hearlier | hearlier
      . have ⟨hstop, _⟩ := hs.past earlier hearlier
        exact ⟨by omega, hclock.mono _ _ (by omega)⟩
      . rw [List.mem_singleton.mp hearlier]
        exact ⟨by omega, Int.le_refl _⟩
    . rw [List.pairwise_append]
      refine ⟨hs.spaced, List.pairwise_singleton _ _, ?_⟩
      intro earlier hearlier later hlater
      rw [List.mem_singleton.mp hlater]
      exact hspaced earlier hearlier

theorem draws_singleton (t : World ρ) : draws env [t] = (drawn env t).toList := by
  unfold draws
  cases hdrawn : drawn env t <;> simp [hdrawn]

theorem draws_append (states states' : List (World ρ))
    : draws env (states ++ states') = draws env states ++ draws env states' := by
  unfold draws
  exact List.filterMap_append

theorem Paced.flushed (hs : Paced env rate prior s) (hclock : env.ClockRuns) (hrate : 0 ≤ rate)
    (h : Flushed env Idles states s s')
    : Paced env rate (prior ++ draws env states) s' := by
  induction h generalizing prior with
  | @rest s s' h =>
    have hticks : s'.ticks = s.ticks := congrArg Pace.ticks h.pace
    have hpace : pace s' = { pace s with ticks := s'.ticks } := by
      rw [hticks]
      exact h.pace
    have hnone : prior ++ draws env ([] : List (World ρ)) = prior := List.append_nil prior
    rw [hnone]
    exact hs.of_pace hpace (by omega)
  | flush s =>
    rw [draws_singleton]
    exact hs.flush hclock hrate
  | trans _ _ ih ih' =>
    rw [draws_append, ← List.append_assoc]
    exact ih' (ih hs)

theorem Flushed.redraws (h : Flushed env Idles states s s')
    : redraws s' = redraws s + (draws env states).length := by
  induction h with
  | rest h => exact h.log.redraws
  | flush s =>
    have hflush := windowFlush_drawn env s
    rw [draws_singleton]
    cases hdrawn : drawn env s with
    | none =>
      rw [hdrawn] at hflush
      exact hflush.right.right
    | some draw =>
      rw [hdrawn] at hflush
      exact hflush.right.right
  | trans _ _ ih ih' =>
    rw [ih', ih, draws_append, List.length_append]
    omega

end

theorem resized_idles (env : Env ρ) (s : World ρ) (input : Input) : Idles s (resized env s input) := by
  unfold resized
  split
  . split
    . unfold windowResizeWindow
      extract_lets width height s₁ s₂
      split
      . have h₁ : Idles s s₁ := ⟨rfl, .act ⟨by simp, by simp⟩⟩
        have h₂ : Idles s₁ s₂ := ⟨rfl, [_], rfl, by simp [Action.IsNeutral]⟩
        have hclear := displayMaybeClearSelection_paints env s₂
        exact h₁.trans (h₂.trans ⟨hclear.pace, hclear.log.mono (fun _ ha => ha.right)⟩)
      . exact .refl s
    . exact .refl s
  . exact ⟨rfl, .of_eq rfl⟩
  . exact .refl s

theorem Reachable.flushed {start : Start} (h : (machine env start).Reachable s)
    : ∃ states, Flushed env Idles states (machine env start).init s := by
  induction h with
  | init => exact ⟨[], .rest (.refl _)⟩
  | @step s s' input _ _ hstep ih =>
    have ⟨states, hstates⟩ := ih
    have ⟨states', hstates'⟩ := handles_of_stepped (stepped hstep)
    have hresized : Flushed env Idles [] s (resized env s input) := .rest (resized_idles env s input)
    exact ⟨_, hstates.trans (hresized.trans (hstates'.mono (fun _ _ h => h.idles)))⟩

theorem paced_init (env : Env ρ) (start : Start)
    : Paced env start.config.redrawRate [] (machine env start).init where
  config := rfl
  last := (⟨Int.le_refl 0, by decide⟩ : Timespec.Normal ⟨0, 0⟩)
  past := by simp
  spaced := .nil

/--
A flush of the window goes on exactly if there is no limit or the time of it has gone by since the
last draw, to the nanosecond. Otherwise a timer is armed for exactly this time. In every run in which
the clock does not go backwards, a draw starts so many milliseconds after every earlier one has ended.
-/
theorem redraws_limited (env : Env ρ)
    : (∀ s : World ρ, 0 ≤ s.term.config.redrawRate → s.term.w.delaying = false →
        (env.clock s.ticks).Normal → s.term.w.lastRedraw.Normal →
          ((windowCheckRecent env s).fst = false
            ↔ s.term.config.redrawRate = 0
              ∨ s.term.config.redrawRate * 1000000 ≤ sinceRedraw env s)
            ∧ ((windowCheckRecent env s).fst = true →
              ArmsDelay s.term.config.redrawRate s (windowCheckRecent env s).snd))
        ∧ ∀ start, 0 ≤ start.config.redrawRate → env.ClockRuns →
          ∀ s, (machine env start).Reachable s →
            (∃ states, Flushed env Idles states (machine env start).init s)
              ∧ ∀ states, Flushed env Idles states (machine env start).init s →
                (draws env states).length = redraws s
                  ∧ (draws env states).Pairwise (Spaced env start.config.redrawRate) := by
  constructor
  . intro s hrate hdelaying hnow hlast
    by_cases hzero : s.term.config.redrawRate = 0
    . rw [windowCheckRecent_unlimited env s hzero]
      exact ⟨iff_of_true rfl (Or.inl hzero), fun h => by cases h⟩
    . have hlimited := windowCheckRecent_limited env s (by omega) hdelaying hnow hlast
      split at hlimited
      . next hlate =>
        rw [hlimited]
        exact ⟨iff_of_true rfl (Or.inr hlate), fun h => by cases h⟩
      . next hearly =>
        have ⟨hrecent, harms⟩ := hlimited
        rw [hrecent]
        exact ⟨iff_of_false (by simp) (by simp [hzero, hearly]), fun _ => harms⟩
  . intro start hrate hclock s hs
    refine ⟨Reachable.flushed hs, fun states hstates => ⟨?_, ?_⟩⟩
    . have hredraws := hstates.redraws
      have hinit : redraws (machine env start).init = 0 := rfl
      omega
    . exact ((paced_init env start).flushed hclock hrate hstates).spaced

namespace Plain

theorem env_clockRuns : Plain.env.ClockRuns where
  normal n := ⟨Int.le_refl 0, by simp [Plain.env]⟩
  mono m n hle := by
    simp only [Plain.env, Timespec.nanos]
    omega

def halfSecondStart : Start := { start with config := { start.config with redrawRate := 500 } }

-- The first output is too early, the second one comes a second later.
def twoDraws : List Input :=
  [.ptyReady 1 (some [0x0a]), .timerExpired 2, .ptyReady 1 (some [0x0a])]

end Plain

theorem redraws_limited_twoDraws
    : ArmsDelay 500 (machine Plain.env Plain.halfSecondStart).init
          (windowCheckRecent Plain.env (machine Plain.env Plain.halfSecondStart).init).snd
        ∧ ∃ s states,
          (machine Plain.env Plain.halfSecondStart).run
              (machine Plain.env Plain.halfSecondStart).init Plain.twoDraws = some s
            ∧ Flushed Plain.env Idles states (machine Plain.env Plain.halfSecondStart).init s
            ∧ (draws Plain.env states).length = 2
            ∧ (draws Plain.env states).Pairwise (Spaced Plain.env 500) := by
  let M := machine Plain.env Plain.halfSecondStart
  have ⟨hcheck, hrun⟩ := redraws_limited Plain.env
  have ⟨_, harms⟩ := hcheck M.init (by decide) rfl (Plain.env_clockRuns.normal _)
    (⟨Int.le_refl 0, by decide⟩ : Timespec.Normal ⟨0, 0⟩)
  refine ⟨harms (by decide +kernel), ?_⟩
  have ⟨s, hinputs, htwo⟩ : ∃ s, M.run M.init Plain.twoDraws = some s ∧ redraws s = 2 :=
    Exec.Machine.exists_run (by decide +kernel)
  have hreach := Exec.Machine.Reaches.init.run (Exec.Machine.runOk_true _ _) hinputs
  have ⟨⟨states, hstates⟩, hall⟩ :=
    hrun Plain.halfSecondStart (by decide) Plain.env_clockRuns s hreach
  have ⟨hlength, hspaced⟩ := hall states hstates
  exact ⟨s, states, hinputs, hstates, hlength.trans htwo, hspaced⟩

-- Without a limit, a clock that has been set back does not keep the window from being drawn.
theorem not_sinceRedraw_setBack
    : ∃ s : World Unit, s.term.config.redrawRate = 0
        ∧ s.term.w.delaying = false
        ∧ (Plain.env.clock s.ticks).Normal
        ∧ s.term.w.lastRedraw.Normal
        ∧ (windowCheckRecent Plain.env s).fst = false
        ∧ ¬s.term.config.redrawRate * 1000000 ≤ sinceRedraw Plain.env s := by
  let s := modifyWindow ({ · with lastRedraw := ⟨1, 0⟩ }) (machine Plain.env Plain.start).init
  have hlast : Timespec.Normal ⟨1, 0⟩ := ⟨Int.le_refl 0, by decide⟩
  exact ⟨s, rfl, rfl, Plain.env_clockRuns.normal _, hlast, by decide +kernel, by decide +kernel⟩

end Term
end Runes
