import Mathlib.Logic.Relation
import Runes.Term.Copied

/-!
This module contains what is to be seen in the window. The rows of the screen are drawn into a buffer when
they are marked as changed, and a flush paints the buffer and the cursor over it.
-/

namespace Runes
namespace Term

variable {ρ : Type}

def Grid.shape (g : Grid) : Loc × Int × (Int → Int → Cell) :=
  (g.max, g.rowTop, fun row col => (g.rows row).cells col)

-- What `runes_display_draw_screen` draws, in colours and fonts that stay the same.
structure Look where
  shape : Loc × Int × (Int → Int → Cell)
  rowVisibleOffset : Int
  selection : Option (Loc × Loc)

def look (t : RunesTerm ρ) : Look :=
  let display := t.display
  {
    shape := t.scr.grid.shape
    rowVisibleOffset := display.rowVisibleOffset
    selection :=
      if display.hasSelection then some (display.selectionStart, display.selectionEnd) else none
  }

structure Cursor where
  row : Int
  col : Int
  cell : Cell
  unfocused : Bool
  deriving DecidableEq

/-- What `runes_display_draw_cursor` draws. -/
def displayDrawCursor (t : RunesTerm ρ) : Option Cursor :=
  if t.scr.hideCursor then
    none
  else
    let grid := t.scr.grid
    let row := grid.cur.row
    let col := if grid.cur.col ≥ grid.max.col then grid.max.col - 1 else grid.cur.col
    some
      {
        row := row + t.display.rowVisibleOffset
        col
        cell := (grid.rows (grid.rowTop + row)).cells col
        unfocused := t.display.unfocused
      }

structure Painted where
  buffer : Option Look
  cursor : Option Cursor

/-- A terminal, the buffer of its display, and what the last flush that was not put off has painted. -/
structure Canvas (ρ : Type) where
  world : World ρ
  buffer : Option Look
  painted : Option Painted

def marked (s : World ρ) : Bool := s.term.scr.dirty || s.term.display.dirty

-- The buffer that `runes_display_draw_screen` leaves.
def displayBuffer (env : Env ρ) (s : World ρ) (buffer : Option Look) : Option Look :=
  if s.term.scr.dirty ∨ s.term.display.dirty then
    let s := if s.term.scr.dirty then displayMaybeClearSelection env s else s
    some (look s.term)
  else
    buffer

/-- `runes_window_flush`, with what it paints. -/
def Canvas.flush (env : Env ρ) (c : Canvas ρ) : Canvas ρ :=
  match windowCheckRecent env (act .flush c.world) with
  | (true, _) => { c with world := windowFlush env c.world }
  | (false, s) =>
    let s := flushScreenFlags s
    if s.term.w.visualBellIsRinging then
      { c with world := windowFlush env c.world }
    else
      let buffer := displayBuffer env s c.buffer
      let cursor := displayDrawCursor (displayDrawScreen env s).term
      { world := windowFlush env c.world, buffer, painted := some ⟨buffer, cursor⟩ }

-- Whether the screen has been drawn since the window has got its size.
def isDrawn (drawn : Bool) (a : Action) : Bool :=
  match a with
  | .drawRows _ _ => true
  | .resize _ _ => false
  | _ => drawn

def drawnInSize (log : List Action) : Bool := log.foldl isDrawn false

-- Whether it is the screen that has been painted last.
def isShown (shown : Bool) (a : Action) : Bool :=
  match a with
  | .redrawn => true
  | .paintForeground => false
  | .paintBackground => false
  | _ => shown

def screenShown (log : List Action) : Bool := log.foldl isShown false

def Action.KeepsSize (a : Action) : Prop := ∀ drawn, isDrawn drawn a = drawn

def Action.KeepsPaint (a : Action) : Prop := a.KeepsSize ∧ ∀ shown, isShown shown a = shown

/-- What is assumed of libvt100: it marks the screen if what is on it changes. -/
structure VT100.Marks (vt : VT100 ρ) : Prop where
  processString : ∀ scr buf, (vt.processString scr buf).fst.dirty = false →
    scr.dirty = false ∧ (vt.processString scr buf).fst.grid.shape = scr.grid.shape

section

variable {env : Env ρ} {s s' s'' : World ρ}

theorem drawnInSize_append (log new : List Action)
    : drawnInSize (log ++ new) = new.foldl isDrawn (drawnInSize log) := by
  unfold drawnInSize
  rw [List.foldl_append]

theorem screenShown_append (log new : List Action)
    : screenShown (log ++ new) = new.foldl isShown (screenShown log) := by
  unfold screenShown
  rw [List.foldl_append]

theorem foldl_of_fixed {f : Bool → Action → Bool} {new : List Action} (h : ∀ a ∈ new, ∀ b, f b a = b)
    (b : Bool) : new.foldl f b = b := by
  induction new with
  | nil => rfl
  | cons a new ih =>
    have ⟨ha, hnew⟩ := List.forall_mem_cons.mp h
    rw [List.foldl_cons, ha, ih hnew]

theorem Logs.drawnInSize (h : Logs Action.KeepsSize s s') : drawnInSize s'.log = drawnInSize s.log := by
  obtain ⟨new, heq, hnew⟩ := h
  rw [heq, drawnInSize_append, foldl_of_fixed hnew]

theorem Logs.screenShown (h : Logs Action.KeepsPaint s s') : screenShown s'.log = screenShown s.log := by
  obtain ⟨new, heq, hnew⟩ := h
  rw [heq, screenShown_append, foldl_of_fixed (fun a ha => (hnew a ha).right)]

/-- What does not change what is to be seen, nor whether it is drawn. -/
structure Unseen (s s' : World ρ) : Prop where
  look : look s'.term = look s.term
  cursor : displayDrawCursor s'.term = displayDrawCursor s.term
  marked : marked s' = marked s
  text : KeepsText s.term s'.term
  dirty : s'.term.scr.dirty = s.term.scr.dirty
  log : Logs Action.KeepsSize s s'

namespace Unseen

theorem refl (s : World ρ) : Unseen s s := ⟨rfl, rfl, rfl, .of_display rfl rfl, rfl, .refl s⟩

theorem trans (h : Unseen s s') (h' : Unseen s' s'') : Unseen s s'' where
  look := h'.look.trans h.look
  cursor := h'.cursor.trans h.cursor
  marked := h'.marked.trans h.marked
  text := h.text.trans h'.text
  dirty := h'.dirty.trans h.dirty
  log := h.log.trans h'.log

theorem ite {c : Prop} [Decidable c] (h : c → Unseen s s') : Unseen s (if c then s' else s) := by
  split
  . next hc => exact h hc
  . exact refl s

theorem act {a : Action} (ha : a.KeepsSize) : Unseen s (act a s) :=
  ⟨rfl, rfl, rfl, .of_display rfl rfl, rfl, .act ha⟩

theorem of_term (hdisplay : s'.term.display = s.term.display)
    (hgrid : s'.term.scr.grid = s.term.scr.grid) (hdirty : s'.term.scr.dirty = s.term.scr.dirty)
    (hcursor : s'.term.scr.hideCursor = s.term.scr.hideCursor)
    (hlog : Logs Action.KeepsSize s s')
    : Unseen s s' where
  look := by
    unfold Term.look
    rw [hdisplay, hgrid]
  cursor := by
    unfold displayDrawCursor
    rw [hdisplay, hgrid, hcursor]
  marked := by
    unfold Term.marked
    rw [hdisplay, hdirty]
  text := .of_display hdisplay hgrid
  dirty := hdirty
  log := hlog

theorem upToDate (h : Unseen s s') (htext : env.vt100.MarksText) (hs : UpToDate env s)
    : UpToDate env s' := by
  intro hdirty
  rw [h.dirty] at hdirty
  exact h.text.copied htext (hs hdirty)

end Unseen

section Flush

theorem loopTimerSet_unseen (timeout : Int) (cb : Callback) (s : World ρ)
    : Unseen s (loopTimerSet timeout cb (termRefcntInc s)) :=
  .of_term rfl rfl rfl rfl ⟨_, rfl, List.forall_mem_singleton.mpr (fun _ => rfl)⟩

theorem windowCheckRecent_unseen (env : Env ρ) (s : World ρ) : Unseen s (windowCheckRecent env s).snd := by
  unfold windowCheckRecent
  extract_lets rate now last s₁ s₂
  split
  . exact .refl s
  . split
    . exact .refl s
    . have h₁ : Unseen s s₁ := .of_term rfl rfl rfl rfl (.refl s)
      split
      . have h₂ : Unseen s₁ s₂ := loopTimerSet_unseen rate .delay s₁
        exact h₁.trans (h₂.trans (.of_term rfl rfl rfl rfl (.of_eq rfl)))
      . exact h₁

theorem windowVisualBell_unseen (s : World ρ) : Unseen s (windowVisualBell s) := by
  unfold windowVisualBell
  extract_lets s₁ s₂ s₃
  have h₁ : Unseen s s₁ := .ite fun _ => .act fun _ => rfl
  split
  . exact h₁
  . have h₂ : Unseen s₁ s₂ := .of_term rfl rfl rfl rfl (.of_eq rfl)
    have h₃ : Unseen s₂ s₃ := .act fun _ => rfl
    exact h₁.trans (h₂.trans (h₃.trans (loopTimerSet_unseen 20 .resetVisualBell s₃)))

theorem windowAudibleBell_unseen (s : World ρ) : Unseen s (windowAudibleBell s) := by
  unfold windowAudibleBell
  extract_lets s₁
  have h₁ : Unseen s s₁ := .ite fun _ => .act fun _ => rfl
  split
  . exact h₁.trans (.act fun _ => rfl)
  . exact windowVisualBell_unseen s

theorem flushScreenFlags_unseen (s : World ρ) : Unseen s (flushScreenFlags s) := by
  unfold flushScreenFlags
  extract_lets s₁ s₂ s₃
  have hflag {f : Screen ρ → Screen ρ} (s : World ρ) (hgrid : (f s.term.scr).grid = s.term.scr.grid)
      (hdirty : (f s.term.scr).dirty = s.term.scr.dirty)
      (hcursor : (f s.term.scr).hideCursor = s.term.scr.hideCursor) : Unseen s (modifyScreen f s) :=
    .of_term rfl hgrid hdirty hcursor (.of_eq rfl)
  have h₁ : Unseen s s₁ := .ite fun _ => (windowAudibleBell_unseen s).trans (hflag _ rfl rfl rfl)
  have h₂ : Unseen s₁ s₂ := .ite fun _ => (windowVisualBell_unseen s₁).trans (hflag _ rfl rfl rfl)
  have h₃ : Unseen s₂ s₃ := .ite fun _ => (Unseen.act fun _ => rfl).trans (hflag _ rfl rfl rfl)
  refine h₁.trans (h₂.trans (h₃.trans (.ite fun _ => ?_)))
  exact (Unseen.act fun _ => rfl).trans (hflag _ rfl rfl rfl)

theorem displayMaybeClearSelection_log (env : Env ρ) (s : World ρ)
    : Logs Action.KeepsSize s (displayMaybeClearSelection env s) := by
  unfold displayMaybeClearSelection
  extract_lets display grid s₁ contents
  have h₁ : Logs Action.KeepsSize s s₁ := .act fun _ => rfl
  split
  . split
    . exact h₁.trans (.of_eq rfl)
    . exact h₁
  . exact .refl s

/-- The buffer is a picture of what has been marked, and of what has not been marked it was one before. -/
theorem displayDrawScreen_buffer (env : Env ρ) {s : World ρ} {buffer : Option Look}
    (h : drawnInSize s.log = true → marked s = false → buffer = some (look s.term))
    : marked (displayDrawScreen env s) = false ∧
        (drawnInSize (displayDrawScreen env s).log = true →
          displayBuffer env s buffer = some (look (displayDrawScreen env s).term)) := by
  refine ⟨rfl, ?_⟩
  unfold displayDrawScreen displayBuffer
  by_cases hdirty : s.term.scr.dirty = true ∨ s.term.display.dirty = true
  . rw [if_pos hdirty, if_pos hdirty]
    intro _
    rfl
  . rw [if_neg hdirty, if_neg hdirty]
    intro hdrawn
    apply h hdrawn
    unfold marked
    simpa using hdirty

end Flush

/--
The buffer is a picture of the screen unless something is marked, and if no flush has been put off, the
window shows all of it, but not in a new size in which it has not been drawn.
-/
structure Canvas.Ok (c : Canvas ρ) : Prop where
  buffer : drawnInSize c.world.log = true → marked c.world = false → c.buffer = some (look c.world.term)
  painted : drawnInSize c.world.log = true → c.world.term.w.delaying = false →
    c.world.term.w.visualBellIsRinging = false →
      marked c.world = false ∧ screenShown c.world.log = true ∧
        c.painted = some ⟨c.buffer, displayDrawCursor c.world.term⟩

theorem Canvas.flush_ok (env : Env ρ) {c : Canvas ρ}
    (h : drawnInSize c.world.log = true → marked c.world = false → c.buffer = some (look c.world.term))
    : (c.flush env).Ok := by
  have hflush : Unseen c.world (act .flush c.world) := .act fun _ => rfl
  have hrecent := windowCheckRecent_unseen env (act .flush c.world)
  have hdelaying := (windowCheckRecent_flushes env (act .flush c.world)).right
  have hsame {s : World ρ} (hs : Unseen c.world s) : drawnInSize s.log = true → marked s = false →
      c.buffer = some (look s.term) := by
    rw [hs.log.drawnInSize, hs.marked, hs.look]
    exact h
  unfold Canvas.flush windowFlush
  cases hcheck : windowCheckRecent env (act .flush c.world) with
  | mk recent s₁ =>
    rw [hcheck] at hrecent hdelaying
    have h₁ : Unseen c.world s₁ := hflush.trans hrecent
    cases recent with
    | true => exact ⟨hsame h₁, fun _ hnot => absurd ((hdelaying rfl).symm.trans hnot) (by decide)⟩
    | false =>
      dsimp only
      have h₂ : Unseen c.world (flushScreenFlags s₁) := h₁.trans (flushScreenFlags_unseen s₁)
      cases hringing : (flushScreenFlags s₁).term.w.visualBellIsRinging with
      | true =>
        rw [if_pos rfl, if_pos rfl]
        exact ⟨hsame h₂, fun _ _ hnot => absurd (hringing.symm.trans hnot) (by decide)⟩
      | false =>
        rw [if_neg Bool.false_ne_true, if_neg Bool.false_ne_true]
        obtain ⟨hmarked, hbuffer⟩ := displayDrawScreen_buffer env (hsame h₂)
        have hlog : Logs Action.KeepsSize (displayDrawScreen env (flushScreenFlags s₁))
            (act .redrawn (displayDrawScreen env (flushScreenFlags s₁))) := .act fun _ => rfl
        have hshown : screenShown (act .redrawn (displayDrawScreen env (flushScreenFlags s₁))).log
            = true := by
          unfold act
          rw [screenShown_append]
          rfl
        refine ⟨fun hdrawn _ => hbuffer ?_, fun hdrawn _ _ => ⟨hmarked, hshown, rfl⟩⟩
        rw [← hlog.drawnInSize]
        exact hdrawn

-- What neither is seen nor changes when the window is flushed.
structure Unnoticed (s s' : World ρ) : Prop extends Unseen s s' where
  delaying : s'.term.w.delaying = s.term.w.delaying
  ringing : s'.term.w.visualBellIsRinging = s.term.w.visualBellIsRinging
  paint : Logs Action.KeepsPaint s s'

-- What changes something that is to be seen marks it, unless it is the cursor.
structure Touches (env : Env ρ) (s s' : World ρ) : Prop where
  marked : marked s' = true ∨ (marked s' = marked s ∧ look s'.term = look s.term)
  upToDate : env.vt100.MarksText → UpToDate env s → UpToDate env s'
  log : Logs Action.KeepsSize s s'

/--
What a terminal does with its window: only a flush draws and paints, and what is touched is flushed at
once. A new size is not.
-/
inductive Stroke (env : Env ρ) (c : Canvas ρ) : Canvas ρ → Prop where
  | quiet {s : World ρ} (h : Unnoticed c.world s) : Stroke env c { c with world := s }
  | flush {s : World ρ} (h : Touches env c.world s) : Stroke env c (Canvas.flush env { c with world := s })
  | resize (width height : Int)
      : Stroke env c { c with world := windowResizeWindow env width height c.world }

theorem windowResizeWindow_cases (env : Env ρ) (width height : Int) (s : World ρ)
    : windowResizeWindow env width height s = s
        ∨ drawnInSize (windowResizeWindow env width height s).log = false := by
  unfold windowResizeWindow
  extract_lets width height s₁ s₂
  split
  . right
    have hlog := (displayMaybeClearSelection_log env s₂).drawnInSize
    rw [hlog]
    have h₂ : Logs Action.KeepsSize s₁ s₂ := .act fun _ => rfl
    rw [h₂.drawnInSize]
    unfold s₁ act
    rw [drawnInSize_append]
    rfl
  . exact Or.inl rfl

theorem Stroke.ok {c c' : Canvas ρ} (h : Stroke env c c') (hc : c.Ok) : c'.Ok := by
  cases h with
  | quiet h =>
    have hbuffer := hc.buffer
    have hpainted := hc.painted
    rw [← h.log.drawnInSize, ← h.marked] at hbuffer hpainted
    rw [← h.look] at hbuffer
    rw [← h.delaying, ← h.ringing, ← h.paint.screenShown, ← h.cursor] at hpainted
    exact ⟨hbuffer, hpainted⟩
  | flush h =>
    apply Canvas.flush_ok
    rw [h.log.drawnInSize]
    intro hdrawn hmarked
    rcases h.marked with hmark | ⟨hsame, hlook⟩
    . exact absurd (hmark.symm.trans hmarked) (by decide)
    . dsimp only at hmarked ⊢
      rw [hlook]
      rw [hsame] at hmarked
      exact hc.buffer hdrawn hmarked
  | resize width height =>
    obtain heq | hnot := windowResizeWindow_cases env width height c.world
    . rw [heq]
      exact hc
    . refine ⟨fun hdrawn => ?_, fun hdrawn => ?_⟩
      . exact absurd (hnot.symm.trans hdrawn) (by decide)
      . exact absurd (hnot.symm.trans hdrawn) (by decide)

end

end Term
end Runes
