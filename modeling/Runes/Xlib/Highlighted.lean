import Runes.Term.Painted
import Runes.Xlib.Pasted

/-!
This module contains that what is pasted of a selection is what its owner shows as selected, however long
ago it was selected and whatever has been printed since then.
-/

namespace Runes

namespace Term

variable {ρ : Type} {env : Env ρ} {start : Start} {s : World ρ}

theorem windowFlush_upToDate (htext : env.vt100.MarksText) (hs : UpToDate env s)
    : UpToDate env (windowFlush env s) := by
  have hflush : Unseen s (act .flush s) := .act fun _ => rfl
  have hrecent := windowCheckRecent_unseen env (act .flush s)
  unfold windowFlush
  cases hcheck : windowCheckRecent env (act .flush s) with
  | mk recent s₁ =>
    rw [hcheck] at hrecent
    have h₁ : UpToDate env s₁ := (hflush.trans hrecent).upToDate htext hs
    cases recent with
    | true => exact h₁
    | false =>
      dsimp only
      have h₂ := (flushScreenFlags_unseen s₁).upToDate htext h₁
      split
      . exact h₂
      . have hdrawn := displayDrawScreen_copied htext h₂
        exact fun _ => KeepsText.copied ⟨rfl, rfl, rfl, rfl, rfl⟩ htext hdrawn

theorem Stroke.upToDate {c c' : Canvas ρ} (h : Stroke env c c') (htext : env.vt100.MarksText)
    (hc : UpToDate env c.world)
    : UpToDate env c'.world := by
  cases h with
  | quiet h => exact h.upToDate htext hc
  | flush h =>
    rw [Canvas.flush_world]
    exact windowFlush_upToDate htext (h.upToDate htext hc)
  | resize width height => exact windowResizeWindow_upToDate width height hc

theorem Canvas.Drawn.upToDate {c : Canvas ρ} (h : c.Drawn env start) (htext : env.vt100.MarksText)
    : UpToDate env c.world := by
  induction h with
  | refl => exact fun _ => copied_of_not_hasSelection rfl
  | tail _ hstroke ih => exact hstroke.upToDate htext ih

end Term

namespace Xlib
namespace Exchange

section

variable {ι ρ : Type} [DecidableEq ι] {env : ι → Term.Env ρ} {start : ι → Term.Start} {s s' : Net ι ρ}

theorem told_of_handle {i : ι} {answer : Answer ι} (h : step env s (.handle i) = some s')
    (htold : s'.told = s.told ++ [answer])
    : answer.owner = i ∧ answer.contents = (s.terms i).term.display.selectionContents := by
  cases steps_of_step h with
  | answers _ _ =>
    cases List.append_cancel_left htold
    exact ⟨rfl, rfl⟩
  | refused _ _ =>
    have hlength := congrArg List.length htold
    simp [Net.ran] at hlength
  | pastes _ _ =>
    have hlength := congrArg List.length htold
    simp [Net.ran] at hlength

/--
When a terminal answers with its selection, which it shows and was not made backwards, and it does not wait
for a timer to flush its window, then the answer is the text of the cells that are shown as selected.
-/
theorem answers_what_is_shown {i : ι} {answer : Answer ι} (hmarks : (env i).vt100.Marks)
    (htext : (env i).vt100.MarksText) (h : (machine env start).Reachable s)
    (hstep : step env s (.handle i) = some s') (htold : s'.told = s.told ++ [answer])
    (hpending : ∀ e ∈ (s.terms i).pending, e.kind ≠ .delay ∧ e.kind ≠ .resetVisualBell)
    (hsize : Term.drawnInSize (s.terms i).log = true)
    (hselection : (s.terms i).term.display.hasSelection = true)
    (hforward : Term.AtOrBefore (s.terms i).term.display.selectionStart
      (s.terms i).term.display.selectionEnd)
    : answer.owner = i
        ∧ answer.contents.getD [] = Term.selectedText (env i) (s.terms i).term
        ∧ (∃ c : Term.Canvas ρ, c.Drawn (env i) (start i) ∧ c.world = s.terms i)
        ∧ ∀ c : Term.Canvas ρ, c.Drawn (env i) (start i) → c.world = s.terms i →
            ∃ seen, c.painted = some ⟨some seen, Term.displayDrawCursor (s.terms i).term⟩
              ∧ seen.selection = some ((s.terms i).term.display.selectionStart,
                  (s.terms i).term.display.selectionEnd)
              ∧ seen.shape = (s.terms i).term.scr.grid.shape := by
  have hreach := terms_reachable h i
  obtain ⟨howner, hcontents⟩ := told_of_handle hstep htold
  obtain ⟨c, hdrawn, hworld⟩ := Term.exists_drawn hmarks hreach
  have hupToDate := hdrawn.upToDate htext
  have hmarked := (hdrawn.shows (hworld ▸ hreach) (hworld ▸ hpending) (hworld ▸ hsize)).left
  rw [hworld] at hupToDate hmarked
  have hdirty : (s.terms i).term.scr.dirty = false := (Bool.or_eq_false_iff.mp hmarked).left
  refine ⟨howner, ?_, ⟨c, hdrawn, hworld⟩, ?_⟩
  . rw [hcontents]
    exact hupToDate hdirty hselection hforward
  . intro c hdrawn hworld
    rw [← hworld] at hreach hpending hsize hselection ⊢
    have hpainted := (hdrawn.shows hreach hpending hsize).right.right
    exact ⟨Term.look c.world.term, hpainted, if_pos hselection, rfl⟩

end

namespace Plain

theorem env_marks (i : Bool) : (env i).vt100.Marks := ⟨fun _ _ h => by cases h⟩

theorem env_marksText (i : Bool) : (env i).vt100.MarksText := ⟨fun _ _ _ => rfl, fun _ _ h => by cases h⟩

-- There is output after the selection, and then the other terminal asks for it.
def selectsAndPrints : List (Input Bool) :=
  [.run false (.windowReady 0), .run false (.event false .expose), .run false (button .button1 0),
    .run false (drag 2), .serve false, .run false .drained, .run false (.ptyReady 1 (some [0x0a])),
    .run false (.windowReady 0), .run true (.windowReady 0), .run true (button .button2 0), .serve true]

end Plain

theorem answers_what_is_shown_letters
    : ∃ s s', Plain.net.run Plain.net.init Plain.selectsAndPrints = some s
        ∧ step Plain.env s (.handle false) = some s'
        ∧ s'.told = [⟨true, false, some [0x61, 0x61]⟩]
        ∧ Term.selectedText (Plain.env false) (s.terms false).term = [0x61, 0x61]
        ∧ ∀ c : Term.Canvas Unit, c.Drawn (Plain.env false) Term.Plain.start → c.world = s.terms false →
            ∃ seen, c.painted = some ⟨some seen, Term.displayDrawCursor (s.terms false).term⟩
              ∧ seen.selection = some (⟨0, 0⟩, ⟨0, 2⟩) := by
  obtain ⟨s', hstep', htold⟩ : ∃ s',
      Plain.net.run Plain.net.init (Plain.selectsAndPrints ++ [.handle false]) = some s'
        ∧ s'.told = [⟨true, false, some [0x61, 0x61]⟩] :=
    Exec.Machine.exists_run (by decide +kernel)
  obtain ⟨s, hrun, htold', hpending, hsize, hselection, hstart, hend⟩ : ∃ s,
      Plain.net.run Plain.net.init Plain.selectsAndPrints = some s
        ∧ s.told = []
        ∧ (∀ e ∈ (s.terms false).pending, e.kind ≠ .delay ∧ e.kind ≠ .resetVisualBell)
        ∧ Term.drawnInSize (s.terms false).log = true
        ∧ (s.terms false).term.display.hasSelection = true
        ∧ (s.terms false).term.display.selectionStart = ⟨0, 0⟩
        ∧ (s.terms false).term.display.selectionEnd = ⟨0, 2⟩ :=
    Exec.Machine.exists_run (by decide +kernel)
  have hreach := Exec.Machine.Reaches.init.run (Exec.Machine.runOk_true _ _) hrun
  rw [Exec.Machine.run_append hrun] at hstep'
  have hstep : step Plain.env s (.handle false) = some s' := by
    unfold Exec.Machine.run at hstep'
    split at hstep'
    . next hhandle => exact hhandle.trans hstep'
    . cases hstep'
  have hnew : s'.told = s.told ++ [⟨true, false, some [0x61, 0x61]⟩] := by rw [htold, htold', List.nil_append]
  have hforward : Term.AtOrBefore (s.terms false).term.display.selectionStart
      (s.terms false).term.display.selectionEnd := by
    rw [hstart, hend]
    decide
  obtain ⟨_, hcontents, _, hshown⟩ := answers_what_is_shown (Plain.env_marks false)
    (Plain.env_marksText false) hreach hstep hnew hpending hsize hselection hforward
  refine ⟨s, s', hrun, hstep, htold, hcontents.symm, ?_⟩
  intro c hdrawn hworld
  obtain ⟨seen, hpainted, hseen, _⟩ := hshown c hdrawn hworld
  rw [hstart, hend] at hseen
  exact ⟨seen, hpainted, hseen⟩

end Exchange
end Xlib
end Runes
