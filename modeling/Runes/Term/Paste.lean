import Runes.Term.Handles
import Runes.Wire.Delimiter

/-!
This module contains what a program reads of a selection that is pasted while it has bracketed paste
on: the text, unless the text itself contains the marker at the end of the bracket.
-/

namespace Runes
namespace Term

variable {ρ : Type} {env : Env ρ} {s s' : World ρ}

def Action.written (a : Action) : List UInt8 :=
  match a with
  | .write buf => buf
  | _ => []

-- What has been written to the pty.
def written (s : World ρ) : List UInt8 := s.log.flatMap Action.written

def pasteStart : List UInt8 := esc "[200~"

def pasteStop : List UInt8 := esc "[201~"

/--
What a program takes for pasted, and what for typed, that looks for the markers.
-/
def readPaste (bytes : List UInt8) : Option (List UInt8 × List UInt8) :=
  Wire.unframe pasteStart pasteStop bytes

theorem pasteStop_unbordered : Wire.Unbordered pasteStop := Wire.Unbordered.of_head (by decide)

theorem written_act (a : Action) (s : World ρ) : written (act a s) = written s ++ a.written := by
  simp [written, act]

theorem windowFlush_written (env : Env ρ) (s : World ρ)
    : written (windowFlush env s) = written s := by
  have ⟨new, heq, hnew⟩ := windowFlush_logs env s
  have hnil : new.flatMap Action.written = [] := by
    rw [List.flatMap_eq_nil_iff]
    intro a ha
    have hflush := hnew a ha
    cases a with
    | write buf => cases hflush
    | _ => rfl
  unfold written
  rw [heq, List.flatMap_append, hnil, List.append_nil]

theorem windowWriteToPty_written (env : Env ρ) (buf : List UInt8) (s : World ρ)
    : written (windowWriteToPty env buf s) = written s ++ buf := by
  unfold windowWriteToPty
  extract_lets s₁
  have h₁ : written s₁ = written s ++ buf := written_act (.write buf) s
  split
  . rw [windowFlush_written]
    exact h₁
  . exact h₁

theorem windowWriteToPty_bracketedPaste (env : Env ρ) (buf : List UInt8) (s : World ρ)
    : (windowWriteToPty env buf s).term.scr.bracketedPaste = s.term.scr.bracketedPaste := by
  unfold windowWriteToPty
  extract_lets s₁
  split
  . exact congrArg (·.scr.bracketedPaste) (windowFlush_flushes env _).left.term
  . rfl

theorem paste_written (env : Env ρ) (buf : List UInt8) (s : World ρ)
    (hpaste : s.term.scr.bracketedPaste = true)
    : written (windowHandleSelectionNotifyEvent env (.property buf) s)
        = written s ++ (pasteStart ++ (buf ++ (pasteStop ++ []))) := by
  let s₁ := windowWriteToPty env pasteStart s
  let s₂ := windowWriteToPty env buf s₁
  have hpaste₂ : s₂.term.scr.bracketedPaste = true := by
    rw [windowWriteToPty_bracketedPaste, windowWriteToPty_bracketedPaste]
    exact hpaste
  have hhandle : windowHandleSelectionNotifyEvent env (.property buf) s
      = windowWriteToPty env pasteStop s₂ := by
    unfold windowHandleSelectionNotifyEvent
    dsimp only
    rw [if_pos hpaste]
    exact if_pos hpaste₂
  rw [hhandle, windowWriteToPty_written, windowWriteToPty_written, windowWriteToPty_written]
  simp

/--
What a program reads of any selection, with bracketed paste on: the selection is pasted and nothing is
typed exactly if it does not contain the marker at the end. If it does, what stands in front of the
first one is pasted, and the rest is typed.
-/
theorem paste_read (env : Env ρ) (buf : List UInt8) (s : World ρ)
    (hpaste : s.term.scr.bracketedPaste = true)
    : ∃ new, written (windowHandleSelectionNotifyEvent env (.property buf) s) = written s ++ new
        ∧ (readPaste new = some (buf, []) ↔ ¬pasteStop <:+: buf)
        ∧ (pasteStop <:+: buf →
          ∃ before after, buf = before ++ (pasteStop ++ after) ∧ ¬pasteStop <:+: before
            ∧ readPaste new = some (before, after ++ pasteStop)) := by
  have hread := Wire.unframe_frame pasteStart pasteStop_unbordered buf []
  refine ⟨_, paste_written env buf s hpaste, ?_⟩
  unfold readPaste
  rw [hread, ← Wire.splitFirst_eq_none_iff]
  cases hsplit : Wire.splitFirst pasteStop buf with
  | none =>
    have hinfix := Wire.splitFirst_eq_none_iff.mp hsplit
    exact ⟨by simp, fun h => absurd h hinfix⟩
  | some split =>
    have ⟨hbuf, hbefore⟩ := Wire.splitFirst_spec (List.cons_ne_nil _ _) hsplit
    refine ⟨by simp [pasteStop, esc], fun _ => ⟨split.fst, split.snd, hbuf, hbefore, ?_⟩⟩
    rw [List.append_nil]

namespace Plain

def pasting : World Unit :=
  modifyScreen ({ · with bracketedPaste := true }) (termNew Plain.env Plain.start)

-- `hello`
def greeting : List UInt8 := [0x68, 0x65, 0x6c, 0x6c, 0x6f]

-- The marker at the end, and `ls` with a line feed
def command : List UInt8 := pasteStop ++ [0x6c, 0x73, 0x0a]

end Plain

theorem paste_read_greeting
    : Plain.pasting.term.scr.bracketedPaste = true
        ∧ ∃ new,
          written (windowHandleSelectionNotifyEvent Plain.env (.property Plain.greeting) Plain.pasting)
              = written Plain.pasting ++ new
            ∧ readPaste new = some (Plain.greeting, []) := by
  have ⟨new, hwritten, hread, _⟩ := paste_read Plain.env Plain.greeting Plain.pasting rfl
  exact ⟨rfl, new, hwritten, hread.mpr (by decide)⟩

theorem paste_read_command
    : Plain.pasting.term.scr.bracketedPaste = true
        ∧ written
            (windowHandleSelectionNotifyEvent Plain.env (.property Plain.command) Plain.pasting)
          = written Plain.pasting ++ (pasteStart ++ (Plain.command ++ pasteStop))
        ∧ readPaste (pasteStart ++ (Plain.command ++ pasteStop))
          = some ([], [0x6c, 0x73, 0x0a] ++ pasteStop)
        ∧ readPaste (pasteStart ++ (Plain.command ++ pasteStop)) ≠ some (Plain.command, []) := by
  exact ⟨rfl, by decide, by decide, by decide⟩

end Term
end Runes
