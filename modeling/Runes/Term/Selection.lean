import Mathlib.Logic.Function.Iterate
import Runes.Term.Lifetime

/-!
This module contains how long a selection stays while its text does not change. The text is taken when
the selection is made, from one end to the other in reading order, and again when it is checked, from
the end where the selection was begun.
-/

namespace Runes
namespace Term

variable {ρ : Type}

-- In reading order.
def AtOrBefore (a b : Loc) : Prop := a.row < b.row ∨ (a.row = b.row ∧ a.col ≤ b.col)

instance AtOrBefore.decidable (a b : Loc) : Decidable (AtOrBefore a b) :=
  inferInstanceAs (Decidable (_ ∨ _))

abbrev PlainText (ρ : Type) := Screen ρ → Loc → Loc → Option (List UInt8)

/-- What is assumed of `vt100_screen_get_string_plaintext`: there is a text for ends in their order. -/
def PlainText.Ordered (text : PlainText ρ) : Prop :=
  ∀ scr start stop, AtOrBefore start stop → text scr start stop ≠ none

def Env.withText (env : Env ρ) (text : PlainText ρ) : Env ρ :=
  { env with vt100 := { env.vt100 with getStringPlaintext := text } }

def checkSelection (env : Env ρ) (n : Nat) (s : World ρ) : World ρ :=
  (displayMaybeClearSelection env)^[n] s

-- The selection is what it was when it was made, and so is its text.
structure Kept (text : PlainText ρ) (start stop : Loc) (s : World ρ) : Prop where
  hasSelection : s.term.display.hasSelection = true
  selectionStart : s.term.display.selectionStart = start
  selectionEnd : s.term.display.selectionEnd = stop
  contents : text s.term.scr start stop = s.term.display.selectionContents

section

variable {env : Env ρ} {text : PlainText ρ} {start stop : Loc} {s : World ρ}

theorem not_atOrBefore_iff {a b : Loc}
    : ¬AtOrBefore a b ↔ b.row < a.row ∨ (b.row = a.row ∧ b.col < a.col) := by
  unfold AtOrBefore
  omega

theorem kept_displaySetSelection (horder : AtOrBefore start stop)
    : Kept text start stop (displaySetSelection (env.withText text) start stop s) where
  hasSelection := rfl
  selectionStart := rfl
  selectionEnd := rfl
  contents := by
    unfold displaySetSelection
    rw [if_neg (fun h => not_atOrBefore_iff.mpr h horder)]
    rfl

theorem Kept.check (hsome : text s.term.scr start stop ≠ none) (h : Kept text start stop s)
    : displayMaybeClearSelection (env.withText text) s
        = act (.selectionText start stop s.term.scr.grid.rowCount s.term.scr.grid.max.col) s := by
  unfold displayMaybeClearSelection
  dsimp only
  rw [if_pos h.hasSelection, h.selectionStart, h.selectionEnd]
  apply if_neg
  intro hclear
  rcases hclear with hnone | hne
  . exact hsome hnone
  . exact hne (congrArg (·.getD []) h.contents)

theorem kept_checkSelection (hordered : text.Ordered) (horder : AtOrBefore start stop) (n : Nat)
    (h : Kept text start stop s)
    : Kept text start stop (checkSelection (env.withText text) n s) := by
  unfold checkSelection
  induction n generalizing s with
  | zero => exact h
  | succ n ih =>
    rw [Function.iterate_succ_apply]
    apply ih
    rw [h.check (hordered _ _ _ horder)]
    exact ⟨h.hasSelection, h.selectionStart, h.selectionEnd, h.contents⟩

def forwardText : PlainText ρ := fun _ start stop =>
  if AtOrBefore start stop then some [] else none

theorem forwardText_ordered : (forwardText : PlainText ρ).Ordered := by
  intro scr start stop horder
  unfold forwardText
  rw [if_pos horder]
  simp

-- A selection that was made backwards is gone when it is checked for the first time.
theorem cleared_of_backward (env : Env ρ) (hback : ¬AtOrBefore start stop) (s : World ρ)
    : (checkSelection (env.withText forwardText) 1
        (displaySetSelection (env.withText forwardText) start stop s)).term.display.hasSelection
      = false := by
  have hnone : forwardText s.term.scr start stop = none := if_neg hback
  unfold checkSelection displayMaybeClearSelection displaySetSelection
  simp [modifyDisplay, act, Env.withText, hnone]

/--
Whatever text libvt100 gives for ends in their order: a selection stays for any number of checks while
the screen does not change, exactly if it begins at its end or before it.
-/
theorem selection_kept_iff (env : Env ρ) (start stop : Loc) (s : World ρ)
    : (∀ text : PlainText ρ, text.Ordered → ∀ n,
          (checkSelection (env.withText text) n
            (displaySetSelection (env.withText text) start stop s)).term.display.hasSelection = true)
        ↔ AtOrBefore start stop := by
  constructor
  . intro h
    by_contra hback
    have hkept := h forwardText forwardText_ordered 1
    rw [cleared_of_backward env hback s] at hkept
    cases hkept
  . intro horder text hordered n
    have hset : Kept text start stop (displaySetSelection (env.withText text) start stop s) :=
      kept_displaySetSelection horder
    exact (kept_checkSelection hordered horder n hset).hasSelection

end

-- The mouse went to the left.
theorem not_selection_kept_backward
    : (forwardText : PlainText Unit).Ordered
        ∧ (checkSelection (Plain.env.withText forwardText) 1
            (displaySetSelection (Plain.env.withText forwardText) ⟨1, 4⟩ ⟨1, 2⟩
              (machine Plain.env Plain.start).init)).term.display.hasSelection = false :=
  ⟨forwardText_ordered, cleared_of_backward Plain.env (by decide) _⟩

end Term
end Runes
