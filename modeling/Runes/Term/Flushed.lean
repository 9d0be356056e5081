import Runes.Term.Refresh

/-!
This module contains in which states the callbacks of a terminal flush the window. Between two flushes
the size of the window stays as it is, nothing is drawn and the clock is not read.
-/

namespace Runes
namespace Term

variable {ρ : Type} {env : Env ρ} {s s' s'' : World ρ}

-- What depends on the size of the window, and the grid.
structure Extent where
  xpixel : Int
  ypixel : Int
  fontx : Int
  fonty : Int
  glyphBuf : Int
  grid : Grid

def extent (s : World ρ) : Extent :=
  let display := s.term.display
  {
    xpixel := display.xpixel
    ypixel := display.ypixel
    fontx := display.fontx
    fonty := display.fonty
    glyphBuf := display.glyphBuf
    grid := s.term.scr.grid
  }

-- What the limit on the rate of redrawing depends on.
structure Pace where
  config : RunesConfig
  lastRedraw : Timespec
  ticks : Nat

def pace (s : World ρ) : Pace :=
  { config := s.term.config, lastRedraw := s.term.w.lastRedraw, ticks := s.ticks }

def Action.isSize (a : Action) : Bool :=
  match a with
  | .setWindowSize _ _ _ _ => true
  | .resize _ _ => true
  | _ => false

def Action.IsStill (a : Action) : Prop := a.isDraw = false ∧ a.isSize = false

/-- A part of a step in which the window is neither flushed nor resized. -/
structure Still (s s' : World ρ) : Prop where
  extent : extent s' = extent s
  pace : pace s' = pace s
  log : Logs Action.IsStill s s'

/-- A part of a step, or some steps, in which nothing is drawn. -/
structure Idles (s s' : World ρ) : Prop where
  pace : pace s' = pace s
  log : Logs Action.IsNeutral s s'

theorem Idles.refl (s : World ρ) : Idles s s where
  pace := rfl
  log := .refl s

theorem Idles.trans (h : Idles s s') (h' : Idles s' s'') : Idles s s'' where
  pace := h'.pace.trans h.pace
  log := h.log.trans h'.log

namespace Still

theorem refl (s : World ρ) : Still s s where
  extent := rfl
  pace := rfl
  log := .refl s

theorem trans (h : Still s s') (h' : Still s' s'') : Still s s'' where
  extent := h'.extent.trans h.extent
  pace := h'.pace.trans h.pace
  log := h.log.trans h'.log

theorem of_eq (hextent : Term.extent s' = Term.extent s) (hpace : Term.pace s' = Term.pace s)
    (hlog : s'.log = s.log)
    : Still s s' where
  extent := hextent
  pace := hpace
  log := .of_eq hlog

theorem act {a : Action} (ha : a.IsStill) : Still s (Term.act a s) where
  extent := rfl
  pace := rfl
  log := .act ha

theorem ite {c : Prop} [Decidable c] (h : c → Still s s') : Still s (if c then s' else s) := by
  split
  . next hc => exact h hc
  . exact refl s

theorem idles (h : Still s s') : Idles s s' where
  pace := h.pace
  log := h.log.mono (fun _ ha => isNeutral_of_not_isDraw ha.left)

end Still

/--
What runs between two states, with the states in which the window is flushed. What happens apart from
that satisfies `Q`.
-/
inductive Flushed (env : Env ρ) (Q : World ρ → World ρ → Prop)
    : List (World ρ) → World ρ → World ρ → Prop where
  | rest {s s' : World ρ} (h : Q s s') : Flushed env Q [] s s'
  | flush (s : World ρ) : Flushed env Q [s] s (windowFlush env s)
  | trans {states states' : List (World ρ)} {s s' s'' : World ρ} (h : Flushed env Q states s s')
      (h' : Flushed env Q states' s' s'')
      : Flushed env Q (states ++ states') s s''

namespace Flushed

variable {Q R : World ρ → World ρ → Prop} {states : List (World ρ)}

theorem mono (h : Flushed env Q states s s') (hQR : ∀ s s', Q s s' → R s s')
    : Flushed env R states s s' := by
  induction h with
  | rest h => exact .rest (hQR _ _ h)
  | flush s => exact .flush s
  | trans _ _ ih ih' => exact ih.trans ih'

/--
What `Q` and a flush preserve holds in the end, and in every state in which the window is flushed.
-/
theorem invariant {P : World ρ → Prop} (h : Flushed env Q states s s')
    (hQ : ∀ s s', Q s s' → P s → P s') (hflush : ∀ s, P s → P (windowFlush env s)) (hs : P s)
    : P s' ∧ ∀ t ∈ states, P t := by
  induction h with
  | rest h => exact ⟨hQ _ _ h hs, by simp⟩
  | flush s => exact ⟨hflush s hs, by simpa using hs⟩
  | trans _ _ ih ih' =>
    have ⟨hmiddle, hstates⟩ := ih hs
    have ⟨hend, hstates'⟩ := ih' hmiddle
    refine ⟨hend, fun t ht => ?_⟩
    exact (List.mem_append.mp ht).elim (hstates t) (hstates' t)

end Flushed

/-- What the handlers do: they flush the window, and are still between that. -/
def Handles (env : Env ρ) (s s' : World ρ) : Prop := ∃ states, Flushed env Still states s s'

namespace Handles

theorem still (h : Still s s') : Handles env s s' := ⟨[], .rest h⟩

theorem refl (s : World ρ) : Handles env s s := still (.refl s)

theorem act {a : Action} (s : World ρ) (ha : a.IsStill) : Handles env s (Term.act a s) :=
  still (.act ha)

theorem flush (h : Still s s') : Handles env s (windowFlush env s') :=
  ⟨[s'], Flushed.trans (.rest h) (.flush s')⟩

theorem trans (h : Handles env s s') (h' : Handles env s' s'') : Handles env s s'' := by
  have ⟨states, hstates⟩ := h
  have ⟨states', hstates'⟩ := h'
  exact ⟨states ++ states', hstates.trans hstates'⟩

theorem ite {c : Prop} [Decidable c] (h : c → Handles env s s')
    : Handles env s (if c then s' else s) := by
  split
  . next hc => exact h hc
  . exact refl s

end Handles

-- What a flush may do.
def Action.ofFlush (a : Action) : Bool :=
  match a with
  | .flush => true
  | .redrawn => true
  | .drawRows _ _ => true
  | .selectionText _ _ _ _ => true
  | .addTimer _ _ => true
  | .bell => true
  | .setUrgent => true
  | .setTitle _ => true
  | .setIconName _ => true
  | .paintForeground => true
  | _ => false

/-- A part of a flush, before the time of the draw is taken. -/
structure Paints (s s' : World ρ) : Prop where
  pace : pace s' = pace s
  log : Logs (fun a => a.ofFlush = true ∧ a.IsNeutral) s s'

namespace Paints

theorem refl (s : World ρ) : Paints s s where
  pace := rfl
  log := .refl s

theorem trans (h : Paints s s') (h' : Paints s' s'') : Paints s s'' where
  pace := h'.pace.trans h.pace
  log := h.log.trans h'.log

theorem of_eq (hpace : Term.pace s' = Term.pace s) (hlog : s'.log = s.log) : Paints s s' where
  pace := hpace
  log := .of_eq hlog

theorem act {a : Action} (ha : a.ofFlush = true) (hneutral : a.IsNeutral)
    : Paints s (Term.act a s) where
  pace := rfl
  log := .act ⟨ha, hneutral⟩

theorem ite {c : Prop} [Decidable c] (h : c → Paints s s') : Paints s (if c then s' else s) := by
  split
  . next hc => exact h hc
  . exact refl s

end Paints

theorem displayMaybeClearSelection_paints (env : Env ρ) (s : World ρ)
    : Paints s (displayMaybeClearSelection env s) := by
  unfold displayMaybeClearSelection
  extract_lets display grid s₁ contents
  have h₁ : Paints s s₁ := .act rfl ⟨by simp, by simp⟩
  exact .ite fun _ => h₁.trans (.ite fun _ => .of_eq rfl rfl)

theorem displayDrawScreen_paints (env : Env ρ) (s : World ρ)
    : Paints s (displayDrawScreen env s) := by
  unfold displayDrawScreen
  extract_lets s₁ grid s₂ s₃
  have h₁ : Paints s s₁ := .ite fun _ => displayMaybeClearSelection_paints env s
  have h₂ : Paints s s₂ := .ite fun _ => h₁.trans (.act rfl ⟨by simp, by simp⟩)
  have h₃ : Paints s₂ s₃ := .of_eq rfl rfl
  exact h₂.trans (h₃.trans (.of_eq rfl rfl))

theorem loopTimerSet_paints (timeout : Int) (cb : Callback) (s : World ρ)
    : Paints s (loopTimerSet timeout cb (termRefcntInc s)) where
  pace := rfl
  log := ⟨[_], rfl, by simp [Action.ofFlush, Action.IsNeutral]⟩

theorem windowVisualBell_paints (s : World ρ)
    : Paints s (windowVisualBell s) := by
  unfold windowVisualBell
  extract_lets s₁ s₂ s₃
  have h₁ : Paints s s₁ := .ite fun _ => .act rfl ⟨by simp, by simp⟩
  split
  . exact h₁
  . have h₂ : Paints s₁ s₂ := .of_eq rfl rfl
    have h₃ : Paints s₂ s₃ := .act rfl ⟨by simp, by simp⟩
    exact h₁.trans (h₂.trans (h₃.trans (loopTimerSet_paints 20 .resetVisualBell s₃)))

theorem windowAudibleBell_paints (s : World ρ)
    : Paints s (windowAudibleBell s) := by
  unfold windowAudibleBell
  extract_lets s₁
  have h₁ : Paints s s₁ := .ite fun _ => .act rfl ⟨by simp, by simp⟩
  split
  . exact h₁.trans (.act rfl ⟨by simp, by simp⟩)
  . exact windowVisualBell_paints s

theorem flushScreenFlags_paints (s : World ρ)
    : Paints s (flushScreenFlags s) := by
  unfold flushScreenFlags
  extract_lets s₁ s₂ s₃
  have h₁ : Paints s s₁ := by
    refine .ite fun _ => ?_
    exact (windowAudibleBell_paints s).trans (.of_eq rfl rfl)
  have h₂ : Paints s₁ s₂ := by
    refine .ite fun _ => ?_
    exact (windowVisualBell_paints s₁).trans (.of_eq rfl rfl)
  have h₃ : Paints s₂ s₃ := by
    refine .ite fun _ => ?_
    exact Paints.trans (.act rfl ⟨by simp, by simp⟩) (.of_eq rfl rfl)
  refine h₁.trans (h₂.trans (h₃.trans (.ite fun _ => ?_)))
  exact Paints.trans (.act rfl ⟨by simp, by simp⟩) (.of_eq rfl rfl)

-- The clock is read, unless there is no limit or the timer is pending.
theorem windowCheckRecent_logs (env : Env ρ) (s : World ρ)
    : Logs (fun a => a.ofFlush = true ∧ a.IsNeutral) s (windowCheckRecent env s).snd := by
  unfold windowCheckRecent
  extract_lets rate now last s₁ s₂
  have h₁ : Logs (fun a => a.ofFlush = true ∧ a.IsNeutral) s s₁ := .of_eq rfl
  split
  . exact .refl s
  . split
    . exact .refl s
    . split
      . exact h₁.trans (loopTimerSet_paints rate .delay s₁).log
      . exact h₁

theorem windowFlush_logs (env : Env ρ) (s : World ρ)
    : Logs (fun a => a.ofFlush = true) s (windowFlush env s) := by
  have hflush : Logs (fun a => a.ofFlush = true) s (act .flush s) := .act rfl
  have hrecent := (windowCheckRecent_logs env (act .flush s)).mono (fun _ ha => ha.left)
  unfold windowFlush
  split
  . next s₁ heq =>
    rw [heq] at hrecent
    exact hflush.trans hrecent
  . next s₁ heq =>
    rw [heq] at hrecent
    extract_lets s₂ s₃ s₄
    have hflags := (flushScreenFlags_paints s₁).log.mono (fun _ ha => ha.left)
    split
    . exact hflush.trans (hrecent.trans hflags)
    . have hdraw := (displayDrawScreen_paints env s₂).log.mono (fun _ ha => ha.left)
      have hredrawn : Logs (fun a => a.ofFlush = true) (displayDrawScreen env s₂) s₃ := .act rfl
      exact hflush.trans (hrecent.trans (hflags.trans (hdraw.trans hredrawn)))

theorem Flushes.extent (h : Flushes s s') : extent s' = extent s := by
  have hdisplay := congrArg (·.display) h.term
  have hgrid := h.grid
  simp only [settled, RunesDisplay.mk.injEq] at hdisplay
  simp [Term.extent, hdisplay, hgrid]

theorem windowFlush_extent (env : Env ρ) (s : World ρ) : extent (windowFlush env s) = extent s :=
  (windowFlush_flushes env s).left.extent

theorem isSize_of_ofFlush {a : Action} (ha : a.ofFlush = true) : a.isSize = false := by
  cases a with
  | setWindowSize row col xpixel ypixel => cases ha
  | resize width height => cases ha
  | _ => rfl

-- The sizes that the window and the pty have been told.
def sizes (s : World ρ) : List Action := s.log.filter Action.isSize

theorem Logs.sizes {P : Action → Prop} (h : Logs P s s') (hP : ∀ a, P a → a.isSize = false)
    : sizes s' = sizes s := by
  have ⟨new, heq, hnew⟩ := h
  have hnil : new.filter Action.isSize = [] := by
    rw [List.filter_eq_nil_iff]
    intro a ha hsize
    rw [hP a (hnew a ha)] at hsize
    cases hsize
  unfold Term.sizes
  rw [heq, List.filter_append, hnil, List.append_nil]

theorem windowFlush_sizes (env : Env ρ) (s : World ρ) : sizes (windowFlush env s) = sizes s :=
  (windowFlush_logs env s).sizes (fun _ ha => isSize_of_ofFlush ha)

/-- The size is the same throughout a handler, also when it flushes the window. -/
theorem Flushed.extent {states : List (World ρ)} (h : Flushed env Still states s s')
    : extent s' = extent s ∧ ∀ t ∈ states, Term.extent t = Term.extent s := by
  apply h.invariant (P := fun t => Term.extent t = Term.extent s)
  . exact fun t t' hstill ht => hstill.extent.trans ht
  . exact fun t ht => (windowFlush_extent env t).trans ht
  . rfl

theorem Handles.extent (h : Handles env s s') : extent s' = extent s := by
  have ⟨states, hstates⟩ := h
  exact hstates.extent.left

theorem Handles.sizes (h : Handles env s s') : sizes s' = sizes s := by
  have ⟨states, hstates⟩ := h
  have hinvariant := hstates.invariant (P := fun t => Term.sizes t = Term.sizes s) ?_ ?_ rfl
  . exact hinvariant.left
  . exact fun t t' hstill ht => (hstill.log.sizes (fun _ ha => ha.right)).trans ht
  . exact fun t ht => (windowFlush_sizes env t).trans ht

end Term
end Runes
