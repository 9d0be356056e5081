import Runes.Term.WindowLemmas

/-!
This module contains what a flush of the window may change, what becomes of the flags of the screen in
it, and that the window is drawn by it or a timer is pending that flushes it again.
-/

namespace Runes
namespace Term

variable {ρ : Type} {s s' s'' : World ρ}

/-- A terminal without what a flush may change. -/
def settled (t : RunesTerm ρ) : RunesTerm ρ :=
  {
    t with
    display := { t.display with hasSelection := false, dirty := false }
    w :=
      { t.w with lastRedraw := ⟨0, 0⟩, delaying := false, visualBellIsRinging := false }
    scr :=
      { t.scr with
        updateTitle := false
        updateIconName := false
        audibleBell := false
        visualBell := false
        dirty := false }
    refcnt := 0
  }

def Happens (a : Action) (s s' : World ρ) : Prop := s.log.count a < s'.log.count a

/--
A flag of the screen that is cleared has been acted on.
-/
structure FlagsKept (s s' : World ρ) : Prop where
  audibleBell : s.term.scr.audibleBell = true →
    s'.term.scr.audibleBell = true
      ∨ if s.term.config.audibleBell then Happens .bell s s' else s'.term.w.visualBellIsRinging = true
  visualBell : s.term.scr.visualBell = true →
    s'.term.scr.visualBell = true ∨ s'.term.w.visualBellIsRinging = true
  title : s.term.scr.updateTitle = true →
    s'.term.scr.updateTitle = true ∨ Happens (.setTitle s.term.scr.title) s s'
  iconName : s.term.scr.updateIconName = true →
    s'.term.scr.updateIconName = true ∨ Happens (.setIconName s.term.scr.iconName) s s'

def Action.isDraw (a : Action) : Bool :=
  match a with
  | .drawRows _ _ => true
  | .flush => true
  | .redrawn => true
  | .selectionText _ _ _ _ => true
  | _ => false

def Action.isMouse (a : Action) : Bool :=
  match a with
  | .mouseReport _ _ => true
  | .builtinButton => true
  | _ => false

-- libvt100 is only asked for the text of the selection that there is, and with the grid of now.
def Action.TextOf (a : Action) (s : World ρ) : Prop :=
  match a with
  | .selectionText start stop rowCount maxCol =>
    s.term.display.hasSelection = true
      ∧ start = s.term.display.selectionStart
      ∧ stop = s.term.display.selectionEnd
      ∧ rowCount = s.term.scr.grid.rowCount
      ∧ maxCol = s.term.scr.grid.max.col
  | _ => True

def Logs (P : Action → Prop) (s s' : World ρ) : Prop :=
  ∃ new, s'.log = s.log ++ new ∧ ∀ a ∈ new, P a

structure Flushes (s s' : World ρ) : Prop where
  term : settled s'.term = settled s.term
  hasSelection : s'.term.display.hasSelection = true → s.term.display.hasSelection = true
  delaying : s.term.w.delaying = true → s'.term.w.delaying = true
  ringing : s.term.w.visualBellIsRinging = true → s'.term.w.visualBellIsRinging = true
  flags : FlagsKept s s'
  log : Logs (fun a => a.TextOf s ∧ a.isMouse = false) s s'

namespace Logs

variable {P Q : Action → Prop}

theorem of_eq (h : s'.log = s.log) : Logs P s s' := ⟨[], by simpa using h, by simp⟩

theorem refl (s : World ρ) : Logs P s s := .of_eq rfl

theorem trans (h : Logs P s s') (h' : Logs P s' s'') : Logs P s s'' := by
  have ⟨new, heq, hnew⟩ := h
  have ⟨new', heq', hnew'⟩ := h'
  refine ⟨new ++ new', by rw [heq', heq, List.append_assoc], ?_⟩
  intro a ha
  exact (List.mem_append.mp ha).elim (hnew a) (hnew' a)

theorem mono (h : Logs P s s') (hPQ : ∀ a, P a → Q a) : Logs Q s s' := by
  have ⟨new, heq, hnew⟩ := h
  exact ⟨new, heq, fun a ha => hPQ a (hnew a ha)⟩

theorem act {a : Action} (ha : P a) : Logs P s (Term.act a s) :=
  ⟨[a], rfl, by simpa using ha⟩

theorem count_le (h : Logs P s s') (a : Action) : s.log.count a ≤ s'.log.count a := by
  have ⟨new, heq, _⟩ := h
  rw [heq, List.count_append]
  omega

theorem happens_left (h : Logs P s' s'') {a : Action} (ha : Happens a s s') : Happens a s s'' := by
  have := h.count_le a
  unfold Happens at ha ⊢
  omega

theorem happens_right (h : Logs P s s') {a : Action} (ha : Happens a s' s'') : Happens a s s'' := by
  have := h.count_le a
  unfold Happens at ha ⊢
  omega

end Logs

theorem happens_act (a : Action) (s : World ρ) : Happens a s (act a s) := by
  simp [Happens, act]

namespace FlagsKept

theorem of_scr (h : s'.term.scr = s.term.scr) : FlagsKept s s' where
  audibleBell hflag := Or.inl (by rw [h]; exact hflag)
  visualBell hflag := Or.inl (by rw [h]; exact hflag)
  title hflag := Or.inl (by rw [h]; exact hflag)
  iconName hflag := Or.inl (by rw [h]; exact hflag)

theorem trans {P Q : Action → Prop} (h : FlagsKept s s') (h' : FlagsKept s' s'')
    (hlog : Logs P s s') (hlog' : Logs Q s' s'') (hconfig : s'.term.config = s.term.config)
    (htitle : s'.term.scr.title = s.term.scr.title)
    (hicon : s'.term.scr.iconName = s.term.scr.iconName)
    (hringing : s'.term.w.visualBellIsRinging = true → s''.term.w.visualBellIsRinging = true)
    : FlagsKept s s'' where
  audibleBell hflag := by
    rcases h.audibleBell hflag with hflag | hacted
    . rcases h'.audibleBell hflag with hflag | hacted
      . exact Or.inl hflag
      . right
        rw [hconfig] at hacted
        split
        . next hbell => exact hlog.happens_right (by simpa [hbell] using hacted)
        . next hbell => simpa [hbell] using hacted
    . right
      split
      . next hbell => exact hlog'.happens_left (by simpa [hbell] using hacted)
      . next hbell => exact hringing (by simpa [hbell] using hacted)
  visualBell hflag := by
    rcases h.visualBell hflag with hflag | hacted
    . exact h'.visualBell hflag
    . exact Or.inr (hringing hacted)
  title hflag := by
    rcases h.title hflag with hflag | hacted
    . rw [← htitle]
      exact (h'.title hflag).imp_right hlog.happens_right
    . exact Or.inr (hlog'.happens_left hacted)
  iconName hflag := by
    rcases h.iconName hflag with hflag | hacted
    . rw [← hicon]
      exact (h'.iconName hflag).imp_right hlog.happens_right
    . exact Or.inr (hlog'.happens_left hacted)

end FlagsKept

namespace Flushes

theorem refl (s : World ρ) : Flushes s s where
  term := rfl
  hasSelection h := h
  delaying h := h
  ringing h := h
  flags := .of_scr rfl
  log := .refl s

section

variable (h : Flushes s s')

include h

theorem grid : s'.term.scr.grid = s.term.scr.grid := congrArg (·.scr.grid) h.term

theorem config : s'.term.config = s.term.config := congrArg (·.config) h.term

theorem selectionStart : s'.term.display.selectionStart = s.term.display.selectionStart :=
  congrArg (·.display.selectionStart) h.term

theorem selectionEnd : s'.term.display.selectionEnd = s.term.display.selectionEnd :=
  congrArg (·.display.selectionEnd) h.term

theorem textOf {a : Action} (ha : a.TextOf s') : a.TextOf s := by
  cases a with
  | selectionText start stop rowCount maxCol =>
    have ⟨hselection, hstart, hstop, hrow, hcol⟩ := ha
    rw [h.selectionStart] at hstart
    rw [h.selectionEnd] at hstop
    rw [h.grid] at hrow hcol
    exact ⟨h.hasSelection hselection, hstart, hstop, hrow, hcol⟩
  | _ => trivial

theorem trans (h' : Flushes s' s'') : Flushes s s'' where
  term := h'.term.trans h.term
  hasSelection hselection := h.hasSelection (h'.hasSelection hselection)
  delaying hdelaying := h'.delaying (h.delaying hdelaying)
  ringing hringing := h'.ringing (h.ringing hringing)
  flags :=
    h.flags.trans h'.flags h.log h'.log h.config (congrArg (·.scr.title) h.term)
      (congrArg (·.scr.iconName) h.term) h'.ringing
  log := h.log.trans (h'.log.mono (fun _ ha => ⟨h.textOf ha.left, ha.right⟩))

end

theorem ite {c : Prop} [Decidable c] (h : c → Flushes s s') : Flushes s (if c then s' else s) := by
  split
  . next hc => exact h hc
  . exact refl s

theorem act {a : Action} (htext : a.TextOf s) (hmouse : a.isMouse = false)
    : Flushes s (Term.act a s) where
  term := rfl
  hasSelection h := h
  delaying h := h
  ringing h := h
  flags := .of_scr rfl
  log := .act ⟨htext, hmouse⟩

theorem of_term (hterm : settled s'.term = settled s.term) (hflags : FlagsKept s s')
    (hselection : s'.term.display.hasSelection = true → s.term.display.hasSelection = true)
    (hdelaying : s.term.w.delaying = true → s'.term.w.delaying = true)
    (hringing : s.term.w.visualBellIsRinging = true → s'.term.w.visualBellIsRinging = true)
    (hlog : s'.log = s.log)
    : Flushes s s' where
  term := hterm
  hasSelection := hselection
  delaying := hdelaying
  ringing := hringing
  flags := hflags
  log := .of_eq hlog

end Flushes

theorem displayMaybeClearSelection_flushes (env : Env ρ) (s : World ρ)
    : Flushes s (displayMaybeClearSelection env s) := by
  unfold displayMaybeClearSelection
  extract_lets display grid s₁ contents
  refine .ite fun hselection => ?_
  have h₁ : Flushes s s₁ := .act ⟨hselection, rfl, rfl, rfl, rfl⟩ rfl
  refine h₁.trans (.ite fun _ => ?_)
  exact .of_term rfl (.of_scr rfl) (fun h => by cases h) id id rfl

theorem displayDrawScreen_flushes (env : Env ρ) (s : World ρ)
    : Flushes s (displayDrawScreen env s) := by
  unfold displayDrawScreen
  extract_lets s₁ grid s₂ s₃
  have h₁ : Flushes s s₁ := .ite fun _ => displayMaybeClearSelection_flushes env s
  have h₂ : Flushes s s₂ := .ite fun _ => h₁.trans (.act trivial rfl)
  have h₃ : Flushes s₂ s₃ := .of_term rfl ⟨Or.inl, Or.inl, Or.inl, Or.inl⟩ id id id rfl
  exact h₂.trans (h₃.trans (.of_term rfl (.of_scr rfl) id id id rfl))

theorem loopTimerSet_flushes (timeout : Int) (cb : Callback) (s : World ρ)
    : Flushes s (loopTimerSet timeout cb (termRefcntInc s)) := by
  have h₁ : Flushes s (termRefcntInc s) := .of_term rfl (.of_scr rfl) id id id rfl
  let s₂ := act (.addTimer s.next (timerTimeout timeout)) (termRefcntInc s)
  have h₂ : Flushes (termRefcntInc s) s₂ := .act trivial rfl
  exact h₁.trans (h₂.trans (.of_term rfl (.of_scr rfl) id id id rfl))

theorem windowCheckRecent_flushes (env : Env ρ) (s : World ρ)
    : Flushes s (windowCheckRecent env s).snd
        ∧ ((windowCheckRecent env s).fst = true →
          (windowCheckRecent env s).snd.term.w.delaying = true) := by
  unfold windowCheckRecent
  extract_lets rate now last s₁ s₂
  split
  . exact ⟨.refl s, fun h => by cases h⟩
  . split
    . next hdelaying => exact ⟨.refl s, fun _ => hdelaying⟩
    . have h₁ : Flushes s s₁ := .of_term rfl (.of_scr rfl) id id id rfl
      split
      . refine ⟨h₁.trans ((loopTimerSet_flushes rate .delay s₁).trans ?_), fun _ => rfl⟩
        exact .of_term rfl (.of_scr rfl) id (fun _ => rfl) id rfl
      . exact ⟨h₁, fun h => by cases h⟩

theorem windowVisualBell_flushes (s : World ρ)
    : Flushes s (windowVisualBell s) ∧ (windowVisualBell s).term.w.visualBellIsRinging = true := by
  unfold windowVisualBell
  extract_lets s₁ s₂ s₃
  have h₁ : Flushes s s₁ := .ite fun _ => .act trivial rfl
  split
  . next hringing => exact ⟨h₁, hringing⟩
  . have h₂ : Flushes s₁ s₂ := .of_term rfl (.of_scr rfl) id id (fun _ => rfl) rfl
    have h₃ : Flushes s₂ s₃ := .act trivial rfl
    exact ⟨h₁.trans (h₂.trans (h₃.trans (loopTimerSet_flushes 20 .resetVisualBell s₃))), rfl⟩

theorem windowAudibleBell_flushes (s : World ρ)
    : Flushes s (windowAudibleBell s)
        ∧ if s.term.config.audibleBell then
            Happens .bell s (windowAudibleBell s)
          else
            (windowAudibleBell s).term.w.visualBellIsRinging = true := by
  unfold windowAudibleBell
  extract_lets s₁
  have h₁ : Flushes s s₁ := .ite fun _ => .act trivial rfl
  split
  . have h₂ : Flushes s₁ (act .bell s₁) := .act trivial rfl
    exact ⟨h₁.trans h₂, h₁.log.happens_right (happens_act .bell s₁)⟩
  . apply windowVisualBell_flushes s

theorem flushScreenFlags_flushes (s : World ρ)
    : Flushes s (flushScreenFlags s) := by
  unfold flushScreenFlags
  extract_lets s₁ s₂ s₃
  have h₁ : Flushes s s₁ := by
    refine .ite fun _ => ?_
    have ⟨hbell, hacted⟩ := windowAudibleBell_flushes s
    refine ⟨hbell.term, hbell.hasSelection, hbell.delaying, hbell.ringing, ?_, hbell.log⟩
    have hflags := hbell.flags
    exact ⟨fun _ => Or.inr hacted, hflags.visualBell, hflags.title, hflags.iconName⟩
  have h₂ : Flushes s₁ s₂ := by
    refine .ite fun _ => ?_
    have ⟨hbell, hringing⟩ := windowVisualBell_flushes s₁
    refine ⟨hbell.term, hbell.hasSelection, hbell.delaying, hbell.ringing, ?_, hbell.log⟩
    have hflags := hbell.flags
    exact ⟨hflags.audibleBell, fun _ => Or.inr hringing, hflags.title, hflags.iconName⟩
  have h₃ : Flushes s₂ s₃ := by
    refine .ite fun _ => ⟨rfl, id, id, id, ?_, .act ⟨trivial, rfl⟩⟩
    exact ⟨Or.inl, Or.inl, fun _ => Or.inr (happens_act _ s₂), Or.inl⟩
  refine h₁.trans (h₂.trans (h₃.trans (.ite fun _ => ⟨rfl, id, id, id, ?_, .act ⟨trivial, rfl⟩⟩)))
  exact ⟨Or.inl, Or.inl, Or.inl, fun _ => Or.inr (happens_act _ s₃)⟩

-- Whether a flush has not led to a draw yet.
def isOwed (owed : Bool) (a : Action) : Bool :=
  match a with
  | .flush => true
  | .redrawn => false
  | _ => owed

def drawOwed (log : List Action) : Bool := log.foldl isOwed false

theorem drawOwed_append (log new : List Action)
    : drawOwed (log ++ new) = new.foldl isOwed (drawOwed log) := by
  unfold drawOwed
  rw [List.foldl_append]

/-- A draw that is owed is going to be made when one of the timers expires. -/
def Fresh (s : World ρ) : Prop :=
  drawOwed s.log = true → s.term.w.delaying = true ∨ s.term.w.visualBellIsRinging = true

theorem windowFlush_flushes (env : Env ρ) (s : World ρ)
    : Flushes s (windowFlush env s) ∧ Happens .flush s (windowFlush env s)
        ∧ Fresh (windowFlush env s) := by
  have hflush : Flushes s (act .flush s) := .act trivial rfl
  have ⟨hrecent, hdelaying⟩ := windowCheckRecent_flushes env (act .flush s)
  have hhappens := hrecent.log.happens_left (happens_act .flush s)
  unfold windowFlush
  split
  . next s₁ heq =>
    rw [heq] at hrecent hdelaying hhappens
    exact ⟨hflush.trans hrecent, hhappens, fun _ => Or.inl (hdelaying rfl)⟩
  . next s₁ heq =>
    rw [heq] at hrecent hhappens
    extract_lets s₂ s₃ s₄
    have hflags : Flushes s₁ s₂ := flushScreenFlags_flushes s₁
    have h₂ : Flushes s s₂ := hflush.trans (hrecent.trans hflags)
    have hhappens₂ : Happens .flush s s₂ := hflags.log.happens_left hhappens
    split
    . next hringing => exact ⟨h₂, hhappens₂, fun _ => Or.inr hringing⟩
    . have hdraw : Flushes s₂ s₃ := (displayDrawScreen_flushes env s₂).trans (.act trivial rfl)
      have hlast : Flushes s₃ { s₄ with ticks := s₄.ticks + 1 } :=
        .of_term rfl (.of_scr rfl) id id id rfl
      refine ⟨h₂.trans (hdraw.trans hlast), ?_, ?_⟩
      . exact (hdraw.trans hlast).log.happens_left hhappens₂
      . intro howed
        have hdrawn : drawOwed s₃.log = false := by
          simp [s₃, act, drawOwed_append, isOwed]
        have howed' : drawOwed s₃.log = true := howed
        rw [hdrawn] at howed'
        cases howed'

end Term
end Runes
