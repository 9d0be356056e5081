import Runes.Term.Lifetime
import Runes.Term.Stepped

/-!
This module contains what the buttons of the mouse cause in a step. Whether an event goes to the
program or to the built-in handler is decided for every event on its own.
-/

namespace Runes
namespace Term

variable {ρ : Type} {env : Env ρ} {s s' : World ρ}

-- What the buttons cause in a step. The timer that ends a series of clicks is not among it.
def stepActs (env : Env ρ) (s : World ρ) (input : Input) : List PointerAct :=
  match input with
  | .event filtered e => eventActs env filtered e s
  | _ => []

-- The timer that ends a series of clicks expires.
def EndsClicks (s : World ρ) (input : Input) : Prop :=
  ∃ id, input = .timerExpired id ∧ ⟨id, .multiClick⟩ ∈ s.pending

theorem displayMaybeClearSelection_pointer (env : Env ρ) (s : World ρ)
    : pointer (displayMaybeClearSelection env s) = pointer s := by
  have hflushes := displayMaybeClearSelection_flushes env s
  exact pointer_eq (congrArg (·.w.mouseDown) hflushes.term)
    (congrArg (·.w.multiClicks) hflushes.term) hflushes.log (fun _ ha => ha.right)

theorem windowResizeWindow_pointer (env : Env ρ) (width height : Int) (s : World ρ)
    : pointer (windowResizeWindow env width height s) = pointer s := by
  unfold windowResizeWindow
  extract_lets width height s₁ s₂
  split
  . rw [displayMaybeClearSelection_pointer]
    simp [s₂, s₁, pointer, termSetWindowSize, modifyScreen, modifyDisplay, act, Action.isMouse]
  . rfl

theorem windowHandleEvent_pointer (env : Env ρ) (filtered : Bool) (e : Event) (s : World ρ)
    : pointer (windowHandleEvent env filtered e s).snd
        = (eventActs env filtered e s).foldl Pointer.cause (pointer s) := by
  by_cases he : e.IsConfigure
  . have hacts : eventActs env filtered e s = [] := by
      cases e with
      | configure e later => cases filtered <;> rfl
      | _ => cases he
    rw [hacts]
    rcases windowHandleEvent_configure env filtered he s with
      ⟨hsame, _⟩ | ⟨width, height, hresize, _⟩
    . rw [hsame]
      rfl
    . rw [hresize]
      apply windowResizeWindow_pointer
  . have hdoes : Does env (fun _ => True) _ s (windowHandleEvent env filtered e s).snd :=
      windowHandleEvent_does filtered s he (fun _ _ _ _ => trivial)
    exact hdoes.pointer

theorem pointer_act {a : Action} (ha : a.isMouse = false) (s : World ρ)
    : pointer (act a s) = pointer s :=
  pointer_eq rfl rfl (.act ha) (fun _ h => h)

theorem Stepped.pointer {input : Input} (h : Stepped env s input s')
    : pointer s' = (stepActs env s input).foldl Pointer.cause (pointer s)
        ∨ (EndsClicks s input ∧ pointer s' = { pointer s with multiClicks := 0 }) := by
  cases h with
  | opens _ _ => exact Or.inl rfl
  | handles _ _ => exact Or.inl (windowHandleEvent_pointer env _ _ s)
  | @closes id filtered e _ _ =>
    left
    rw [stepActs, ← windowHandleEvent_pointer env filtered e s]
    exact pointer_act (a := .hangup) rfl (windowHandleEvent env filtered e s).snd
  | drains _ => exact Or.inl rfl
  | reads _ _ _ => exact Or.inl (windowFlush_pointer env _)
  | ends _ _ _ => exact Or.inl (pointer_act (a := .requestClose) rfl _)
  | delay _ _ => exact Or.inl (windowFlush_pointer env _)
  | resetVisualBell _ _ =>
    exact Or.inl ((windowFlush_pointer env _).trans (pointer_act (a := .paintBackground) rfl _))
  | multiClick _ hmem => exact Or.inr ⟨⟨_, rfl, hmem⟩, rfl⟩

end Term
end Runes
