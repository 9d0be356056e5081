import Runes.Term.Core

/-!
This module contains what the code of a callback may do to a terminal while the callback runs: it
takes and gives back holds on the terminal only together with the timers that stand for them, and it
shows only rows that exist. The relation is a preorder, so a function is treated by treating what it
is made of.
-/

namespace Runes
namespace Term

variable {ρ : Type} {s s' s'' : World ρ}

/--
What the code of a callback may do.
-/
structure Reacts (s s' : World ρ) : Prop where
  held : ∀ e running, Held (core s).toLifetime (e :: running) → Held (core s').toLifetime (e :: running)
  shown : Shown (core s) s.log → Shown (core s') s'.log
  grid : s'.term.scr.grid = s.term.scr.grid
  busy : s'.busy = s.busy

structure Redraws (s s' : World ρ) : Prop extends Reacts s s' where
  offset : s'.term.display.rowVisibleOffset = s.term.display.rowVisibleOffset

namespace Reacts

theorem trans (h : Reacts s s') (h' : Reacts s' s'') : Reacts s s'' where
  held e running hs := h'.held e running (h.held e running hs)
  shown hs := h'.shown (h.shown hs)
  grid := h'.grid.trans h.grid
  busy := h'.busy.trans h.busy

theorem refl (s : World ρ) : Reacts s s where
  held _ _ h := h
  shown h := h
  grid := rfl
  busy := rfl

theorem of_offset (offset : Int)
    (hcore : core s' = { core s with rowVisibleOffset := offset })
    (hoffset : s.term.scr.grid.Ok → 0 ≤ offset ∧ offset ≤ s.term.scr.grid.rowTop)
    (hlog : s'.log = s.log)
    : Reacts s s' where
  held e running h := by rwa [hcore]
  shown h := by
    have hrange := hoffset h.grid
    rw [hcore, hlog]
    exact ⟨h.grid, hrange.left, (rowsExist_iff h.grid offset).mpr (Or.inr hrange), h.log⟩
  grid := congrArg Core.grid hcore
  busy := congrArg Core.busy hcore

end Reacts

namespace Redraws

theorem refl (s : World ρ) : Redraws s s where
  toReacts := .refl s
  offset := rfl

theorem trans (h : Redraws s s') (h' : Redraws s' s'') : Redraws s s'' where
  toReacts := h.toReacts.trans h'.toReacts
  offset := h'.offset.trans h.offset

theorem of_core (hcore : core s' = core s) (hlog : s'.log = s.log) : Redraws s s' where
  held _ _ h := by rwa [hcore]
  shown h := by rwa [hcore, hlog]
  grid := congrArg Core.grid hcore
  busy := congrArg Core.busy hcore
  offset := congrArg Core.rowVisibleOffset hcore

theorem modifyScreen {f : Screen ρ → Screen ρ} (hf : ∀ scr, (f scr).grid = scr.grid)
    : Redraws s (Term.modifyScreen f s) :=
  of_core (by simp [core, Term.modifyScreen, hf]) rfl

theorem modifyDisplay {f : RunesDisplay → RunesDisplay}
    (hf : ∀ display, (f display).rowVisibleOffset = display.rowVisibleOffset)
    : Redraws s (Term.modifyDisplay f s) :=
  of_core (by simp [core, Term.modifyDisplay, hf]) rfl

theorem modifyWindow {f : RunesWindow → RunesWindow}
    (hf : ∀ w, (f w).multiClickTimerEvent = w.multiClickTimerEvent
      ∧ (f w).delaying = w.delaying
      ∧ (f w).visualBellIsRinging = w.visualBellIsRinging)
    : Redraws s (Term.modifyWindow f s) :=
  of_core (by simp [core, Term.modifyWindow, hf]) rfl

theorem ite {c : Prop} [Decidable c] (h : c → Redraws s s')
    : Redraws s (if c then s' else s) := by
  split
  . next hc => exact h hc
  . exact refl s

theorem act {a : Action} (ha : a.InGrid) : Redraws s (Term.act a s) where
  held _ _ h := h
  shown h := by
    refine ⟨h.grid, h.nonneg, h.rows, ?_⟩
    intro b hb
    rcases List.mem_append.mp hb with hb | hb
    . apply h.log b hb
    . rwa [List.mem_singleton.mp hb]
  grid := rfl
  busy := rfl
  offset := rfl

theorem draw
    : Redraws s (Term.act
        (.drawRows (visibleRows s.term.scr.grid s.term.display.rowVisibleOffset)
          s.term.scr.grid.rowCount)
        s) where
  held _ _ h := h
  shown h := (act (inGrid_drawRows h.rows)).shown h
  grid := rfl
  busy := rfl
  offset := rfl

theorem arm (cb : Callback) {a : Action}
    (hcore : core s' = { core s with toLifetime := (core s).arm cb })
    (hlog : s'.log = s.log ++ [a]) (ha : a.InGrid) (hcb : ¬cb.IsWork)
    (hfree : ∀ running p, Named (core s).toLifetime running p → p cb = none)
    : Redraws s s' where
  held e running h := by
    rw [hcore]
    apply h.arm hcb (hfree (e :: running))
  shown h := by
    have hshown := (act ha).shown h
    rw [hcore, hlog]
    exact ⟨h.grid, h.nonneg, h.rows, hshown.log⟩
  grid := congrArg Core.grid hcore
  busy := congrArg Core.busy hcore
  offset := congrArg Core.rowVisibleOffset hcore

end Redraws

end Term
end Runes
