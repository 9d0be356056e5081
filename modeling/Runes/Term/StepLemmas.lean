import Runes.Term.EventLemmas
import Runes.Term.Stepped

/-!
This module contains what one step of the machine may do. Only libvt100 gives a terminal another grid,
namely when the size of the window changes and when output of the program is processed.
-/

namespace Runes
namespace Term

variable {ρ : Type} {s s' s'' : World ρ}

def resizedGrid (env : Env ρ) (width height : Int) (s : World ρ) : Option Grid :=
  let width := windowDimension width
  let height := windowDimension height
  let display := s.term.display
  if width ≠ display.xpixel ∨ height ≠ display.ypixel then
    let row := (height - 4).tdiv display.fonty
    let col := (width - 4).tdiv display.fontx
    some (env.vt100.setWindowSize s.term.scr row col).grid
  else
    none

def outputGrid (env : Env ρ) (answer : Option (List UInt8)) (s : World ρ) : Option Grid :=
  match answer with
  | some (byte :: bytes) =>
    some (env.vt100.processString s.term.scr (s.term.pty.readbuf ++ byte :: bytes)).fst.grid
  | _ => none

def nextGrid (env : Env ρ) (s : World ρ) (input : Input) : Option Grid :=
  match input with
  | .event false (.configure e later) =>
    if e.border then
      resizedGrid env (later.getLastD e).width (later.getLastD e).height s
    else
      none
  | .ptyReady _ answer => outputGrid env answer s
  | _ => none

structure Frame (s s' : World ρ) : Prop where
  grid : s'.term.scr.grid = s.term.scr.grid
  offset : s'.term.display.rowVisibleOffset = s.term.display.rowVisibleOffset
  log : (∀ a ∈ s.log, a.InGrid) → ∀ a ∈ s'.log, a.InGrid

structure Started (e : Entry Callback) (s s' : World ρ) : Prop extends Frame s s' where
  mem : e ∈ s.pending
  idle : s.busy = none
  lifetime : (core s').toLifetime = (core s).start e

structure Finished (s s' : World ρ) : Prop extends Frame s s' where
  lifetime : (core s').toLifetime = (core s).finish

structure Resumed (e : Entry Callback) (s s' : World ρ) : Prop extends Frame s s' where
  lifetime : (core s').toLifetime = (core s).resume e

-- What libvt100 makes of the grid, before anything is drawn.
structure Regrid (grid : Grid) (s s' : World ρ) : Prop where
  core : core s' = { core s with grid }
  log : (∀ a ∈ s.log, a.InGrid) → ∀ a ∈ s'.log, a.InGrid

/-- What the code of a callback does, with the grid that it gets. -/
inductive Changes (s s' : World ρ) : Option Grid → Prop where
  | reacts (h : Reacts s s') : Changes s s' none
  | regrids {grid : Grid} {s₁ : World ρ} (h : Regrid grid s s₁) (h' : Redraws s₁ s')
      : Changes s s' (some grid)

theorem forall_inGrid_append {log : List Action} {a : Action} (ha : a.InGrid)
    (h : ∀ b ∈ log, b.InGrid)
    : ∀ b ∈ log ++ [a], b.InGrid := by
  intro b hb
  rcases List.mem_append.mp hb with hb | hb
  . exact h b hb
  . rwa [List.mem_singleton.mp hb]

theorem windowResizeWindow_changes (env : Env ρ) (width height : Int) (s : World ρ)
    : Changes s (windowResizeWindow env width height s) (resizedGrid env width height s) := by
  unfold resizedGrid windowResizeWindow
  extract_lets width height s₁ s₂ display row col
  split
  . have hregrid : Regrid s₂.term.scr.grid s s₂ := by
      refine ⟨rfl, ?_⟩
      intro hlog
      exact forall_inGrid_append trivial (forall_inGrid_append trivial hlog)
    exact .regrids hregrid (displayMaybeClearSelection_redraws env s₂)
  . exact .reacts (.refl s)

-- A new size of the window inside is ignored, and so is an event that an input method takes.
theorem windowHandleEvent_configure (env : Env ρ) (filtered : Bool) {e : Event}
    (he : e.IsConfigure) (s : World ρ)
    : ((windowHandleEvent env filtered e s).snd = s ∧ nextGrid env s (.event filtered e) = none)
        ∨ ∃ width height,
          (windowHandleEvent env filtered e s).snd = windowResizeWindow env width height s
            ∧ nextGrid env s (.event filtered e) = resizedGrid env width height s := by
  cases e with
  | configure e later =>
    cases filtered with
    | true => exact Or.inl ⟨rfl, rfl⟩
    | false =>
      simp only [nextGrid, windowHandleEvent, windowHandleConfigureEvent, Bool.false_eq_true,
        if_false]
      split
      . exact Or.inr ⟨_, _, rfl, rfl⟩
      . exact Or.inl ⟨rfl, rfl⟩
  | _ => cases he

theorem windowHandleEvent_changes (env : Env ρ) (filtered : Bool) (e : Event) (s : World ρ)
    : Changes s (windowHandleEvent env filtered e s).snd (nextGrid env s (.event filtered e)) := by
  by_cases he : e.IsConfigure
  . rcases windowHandleEvent_configure env filtered he s with
      ⟨hsame, hgrid⟩ | ⟨width, height, hresize, hgrid⟩
    . rw [hsame, hgrid]
      exact .reacts (.refl s)
    . rw [hresize, hgrid]
      apply windowResizeWindow_changes env width height s
  . have hnone : nextGrid env s (.event filtered e) = none := by
      unfold nextGrid
      split
      . next heq =>
        cases heq
        exact absurd trivial he
      . next heq => cases heq
      . rfl
    rw [hnone]
    exact .reacts (windowHandleEvent_reacts env filtered s he)

theorem outputGrid_some (env : Env ρ) {bytes : List UInt8} (hne : bytes ≠ []) (s : World ρ)
    : outputGrid env (some bytes) s = some (ptyProcess env bytes s).term.scr.grid := by
  cases bytes with
  | nil => exact absurd rfl hne
  | cons byte bytes => rfl

theorem ptyProcess_changes (env : Env ρ) {bytes : List UInt8} (hne : bytes ≠ []) (s : World ρ)
    : Changes s (windowFlush env (ptyProcess env bytes s)) (outputGrid env (some bytes) s) := by
  have hregrid : Regrid (ptyProcess env bytes s).term.scr.grid s (ptyProcess env bytes s) :=
    ⟨rfl, fun hlog => hlog⟩
  rw [outputGrid_some env hne]
  exact .regrids hregrid (windowFlush_redraws env _)

theorem outputGrid_none (env : Env ρ) {answer : Option (List UInt8)} (hanswer : answer.getD [] = [])
    (s : World ρ)
    : outputGrid env answer s = none := by
  unfold outputGrid
  split
  . cases hanswer
  . rfl

/--
What a step may do, with the grid that libvt100 makes in it.
-/
inductive Step (s s' : World ρ) : Option Grid → Prop where
  | opens {id : Nat} (hstart : Started ⟨id, .windowEvent⟩ s s') (hbusy' : s'.busy = some id)
      : Step s s' none
  | handles {id : Nat} {grid : Option Grid} (hbusy : s.busy = some id) (h : Changes s s' grid)
      : Step s s' grid
  | closes {id : Nat} {grid : Option Grid} {s₁ : World ρ} (hbusy : s.busy = some id)
      (h : Changes s s₁ grid) (hfinish : Finished s₁ s') (hbusy' : s'.busy = none)
      : Step s s' grid
  | drains {id : Nat} (hbusy : s.busy = some id) (hresume : Resumed ⟨id, .windowEvent⟩ s s')
      (hbusy' : s'.busy = none)
      : Step s s' none
  | reads {id : Nat} {grid : Option Grid} {s₁ s₂ : World ρ} (hstart : Started ⟨id, .ptyInput⟩ s s₁)
      (h : Changes s₁ s₂ grid) (hresume : Resumed ⟨id, .ptyInput⟩ s₂ s') (hbusy' : s'.busy = none)
      : Step s s' grid
  | ends {e : Entry Callback} {s₁ s₂ : World ρ} (hstart : Started e s s₁) (h : Redraws s₁ s₂)
      (hfinish : Finished s₂ s') (hbusy' : s'.busy = none)
      : Step s s' none

theorem Changes.busy {grid : Option Grid} (h : Changes s s' grid)
    : s'.busy = s.busy := by
  cases h with
  | reacts h => exact h.busy
  | regrids h h' => exact h'.busy.trans (congrArg Core.busy h.core)

theorem finished_termRefcntDec (s : World ρ) : Finished s (termRefcntDec s) :=
  ⟨⟨rfl, rfl, id⟩, rfl⟩

theorem resumed_readdEvent (e : Entry Callback) (s : World ρ)
    : Resumed e s (readdEvent e s) :=
  ⟨⟨rfl, rfl, fun hlog => hlog⟩, rfl⟩

theorem started_delEvent {e : Entry Callback} (hidle : s.busy = none) (hmem : e ∈ s.pending)
    (hwork : e.kind.IsWork)
    : Started e s (delEvent e.id s) := by
  refine ⟨⟨rfl, rfl, fun hlog => hlog⟩, hmem, hidle, ?_⟩
  unfold Lifetime.start
  rcases hwork with hkind | hkind <;> rw [hkind] <;> rfl

-- The callbacks of the timers flush the window before they are finished.
theorem step_windowFlush (env : Env ρ) {e : Entry Callback} {s₁ : World ρ} (hstart : Started e s s₁)
    (hbusy : s₁.busy = none)
    : Step s (termRefcntDec (windowFlush env s₁)) none := by
  have hflush := windowFlush_redraws env s₁
  exact .ends hstart hflush (finished_termRefcntDec _) (hflush.busy.trans hbusy)

theorem step_cases {env : Env ρ} {input : Input} (h : step env s input = some s')
    : Step s s' (nextGrid env s input) := by
  cases stepped h with
  | opens hidle hmem => exact .opens ⟨⟨rfl, rfl, fun hlog => hlog⟩, hmem, hidle, rfl⟩ rfl
  | handles hbusy hopen => exact .handles hbusy (windowHandleEvent_changes env _ _ s)
  | @closes id filtered e hbusy hclose =>
    have hchanges := windowHandleEvent_changes env filtered e s
    exact .closes hbusy hchanges ⟨⟨rfl, rfl, forall_inGrid_append trivial⟩, rfl⟩ rfl
  | drains hbusy => exact .drains hbusy ⟨⟨rfl, rfl, fun hlog => hlog⟩, rfl⟩ rfl
  | @reads id bytes hidle hmem hne =>
    have hstart := started_delEvent hidle hmem (Or.inr rfl)
    have hchanges := ptyProcess_changes env hne (delEvent id s)
    exact .reads hstart hchanges (resumed_readdEvent _ _) (hchanges.busy.trans hidle)
  | @ends id answer pty hidle hmem hanswer =>
    have hstart := started_delEvent hidle hmem (Or.inr rfl)
    have hclose : Redraws (delEvent id s) (modifyTerm ({ · with pty }) (delEvent id s)) :=
      .of_core rfl rfl
    have hgrid : nextGrid env s (.ptyReady id answer) = none := outputGrid_none env hanswer s
    rw [hgrid]
    exact .ends hstart hclose ⟨⟨rfl, rfl, forall_inGrid_append trivial⟩, rfl⟩ hidle
  | delay hidle hmem =>
    exact step_windowFlush env ⟨⟨rfl, rfl, fun hlog => hlog⟩, hmem, hidle, rfl⟩ hidle
  | resetVisualBell hidle hmem =>
    exact step_windowFlush env ⟨⟨rfl, rfl, forall_inGrid_append trivial⟩, hmem, hidle, rfl⟩ hidle
  | @multiClick id hidle hmem =>
    have hstart : Started ⟨id, .multiClick⟩ s (modifyWindow
        ({ · with multiClicks := 0, multiClickTimerEvent := none }) (delEvent id s)) :=
      ⟨⟨rfl, rfl, fun hlog => hlog⟩, hmem, hidle, rfl⟩
    exact .ends hstart (.refl _) (finished_termRefcntDec _) hidle

end Term
end Runes
