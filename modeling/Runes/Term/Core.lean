import Runes.Refs.Holders
import Runes.Term.Callbacks

/-!
This module contains what the lifetime of a terminal and the rows that it shows depend on, with the
operations on it that the callbacks are made of.
-/

namespace Runes
namespace Term

structure Lifetime where
  holders : Holders Callback
  multiClickTimerEvent : Option Nat
  delaying : Bool
  visualBellIsRinging : Bool

structure Core extends Lifetime where
  grid : Grid
  rowVisibleOffset : Int
  busy : Option Nat

variable {ρ : Type} {c : Lifetime} {running : List (Entry Callback)} {e : Entry Callback}
variable {cb : Callback} {p : Callback → Option Nat}

def core (s : World ρ) : Core :=
  {
    holders :=
      { count := s.term.refcnt, pending := s.pending, next := s.next, deletes := s.deletes }
    multiClickTimerEvent := s.term.w.multiClickTimerEvent
    delaying := s.term.w.delaying
    visualBellIsRinging := s.term.w.visualBellIsRinging
    grid := s.term.scr.grid
    rowVisibleOffset := s.term.display.rowVisibleOffset
    busy := s.busy
  }

namespace Lifetime

def setTimer (c : Lifetime) (cb : Callback) (event : Option Nat) : Lifetime :=
  match cb with
  | .multiClick => { c with multiClickTimerEvent := event }
  | .delay => { c with delaying := event.isSome }
  | .resetVisualBell => { c with visualBellIsRinging := event.isSome }
  | _ => c

def arm (c : Lifetime) (cb : Callback) : Lifetime :=
  { c.setTimer cb (some c.holders.next) with holders := c.holders.inc.register cb }

def start (c : Lifetime) (e : Entry Callback) : Lifetime :=
  { c.setTimer e.kind none with holders := c.holders.remove e.id }

def finish (c : Lifetime) : Lifetime := { c with holders := c.holders.dec }

def resume (c : Lifetime) (e : Entry Callback) : Lifetime := { c with holders := c.holders.resume e }

end Lifetime

def Callback.IsWork (cb : Callback) : Prop := cb = .windowEvent ∨ cb = .ptyInput

/--
The pending callbacks are those that `p` names, which are the timers that the window knows of and the
work callbacks that are not running.
-/
structure Named (c : Lifetime) (running : List (Entry Callback)) (p : Callback → Option Nat)
    : Prop where
  slots : c.holders.Slots p
  multiClick : p .multiClick = c.multiClickTimerEvent
  delay : (p .delay).isSome = c.delaying
  resetVisualBell : (p .resetVisualBell).isSome = c.visualBellIsRinging
  work : ∀ e ∈ running, e.kind.IsWork → p e.kind = none

structure Held (c : Lifetime) (running : List (Entry Callback)) : Prop where
  sound : c.holders.Sound running
  named : ∃ p, Named c running p

namespace Named

theorem setTimer (hp : Named c running p) (event : Option Nat) {h : Holders Callback}
    (hslots : h.Slots (Function.update p cb event)) {running' : List (Entry Callback)}
    (hwork : ∀ e ∈ running', e.kind.IsWork → Function.update p cb event e.kind = none)
    : Named { c.setTimer cb event with holders := h } running' (Function.update p cb event) where
  slots := hslots
  multiClick := by cases cb <;> simp [Lifetime.setTimer, hp.multiClick]
  delay := by cases cb <;> simp [Lifetime.setTimer, hp.delay]
  resetVisualBell := by cases cb <;> simp [Lifetime.setTimer, hp.resetVisualBell]
  work := hwork

end Named

namespace Held

theorem arm (h : Held c (e :: running)) (hcb : ¬cb.IsWork)
    (hfree : ∀ p, Named c (e :: running) p → p cb = none)
    : Held (c.arm cb) (e :: running) where
  sound := h.sound.register (by simp) cb
  named := by
    have ⟨p, hp⟩ := h.named
    refine ⟨_, hp.setTimer _ (hp.slots.register cb (hfree p hp)) ?_⟩
    intro a ha hkind
    have hne : a.kind ≠ cb := by
      intro heq
      rw [heq] at hkind
      exact hcb hkind
    rw [Function.update_of_ne hne]
    apply hp.work a ha hkind

theorem start (h : Held c running) (he : e ∈ c.holders.pending)
    : Held (c.start e) (e :: running) where
  sound := h.sound.start he
  named := by
    have ⟨p, hp⟩ := h.named
    refine ⟨_, hp.setTimer _ (hp.slots.remove h.sound he) ?_⟩
    intro a ha hkind
    by_cases hsame : a.kind = e.kind
    . rw [hsame, Function.update_self]
    . rw [Function.update_of_ne hsame]
      rcases List.mem_cons.mp ha with rfl | ha
      . exact absurd rfl hsame
      . apply hp.work a ha hkind

theorem finish (h : Held c (e :: running)) : Held c.finish running where
  sound := h.sound.finish
  named := by
    have ⟨p, hp⟩ := h.named
    have hwork := fun a ha => hp.work a (List.mem_cons_of_mem e ha)
    exact ⟨p, hp.slots, hp.multiClick, hp.delay, hp.resetVisualBell, hwork⟩

theorem resume (h : Held c [e]) (hwork : e.kind.IsWork) : Held (c.resume e) [] where
  sound := h.sound.resume
  named := by
    have ⟨p, hp⟩ := h.named
    have hslots := hp.slots.resume (hp.work e (List.mem_singleton_self e) hwork)
    refine ⟨_, hslots, ?_, ?_, ?_, by simp⟩
    . rw [Function.update_of_ne (by rcases hwork with h | h <;> simp [h])]
      apply hp.multiClick
    . rw [Function.update_of_ne (by rcases hwork with h | h <;> simp [h])]
      apply hp.delay
    . rw [Function.update_of_ne (by rcases hwork with h | h <;> simp [h])]
      apply hp.resetVisualBell

theorem mem_pending_of_multiClickTimerEvent (h : Held c running) {id : Nat}
    (hid : c.multiClickTimerEvent = some id)
    : ⟨id, .multiClick⟩ ∈ c.holders.pending := by
  have ⟨p, hp⟩ := h.named
  rw [hp.slots, hp.multiClick, hid]

end Held

/-- Every row that is read to draw the window exists. -/
def RowsExist (grid : Grid) (rowVisibleOffset : Int) : Prop :=
  ∀ r, 0 ≤ r → r < grid.max.row →
    0 ≤ r + grid.rowTop - rowVisibleOffset ∧ r + grid.rowTop - rowVisibleOffset < grid.rowCount

theorem rowsExist_iff {grid : Grid} (hgrid : grid.Ok) (offset : Int)
    : RowsExist grid offset ↔ grid.max.row ≤ 0 ∨ (0 ≤ offset ∧ offset ≤ grid.rowTop) := by
  have htop := hgrid.rowTop
  constructor
  . intro h
    by_cases hrow : grid.max.row ≤ 0
    . apply Or.inl hrow
    . have hfirst := h 0 (by omega) (by omega)
      have hlast := h (grid.max.row - 1) (by omega) (by omega)
      omega
  . intro h r hr hmax
    omega

def Action.InGrid (a : Action) : Prop :=
  match a with
  | .drawRows rows rowCount => ∀ r ∈ rows, 0 ≤ r ∧ r < rowCount
  | _ => True

theorem inGrid_drawRows {grid : Grid} {offset : Int} (h : RowsExist grid offset)
    : (Action.drawRows (visibleRows grid offset) grid.rowCount).InGrid := by
  intro vr hvr
  unfold visibleRows at hvr
  split at hvr
  . rw [List.mem_map] at hvr
    have ⟨r, hr, heq⟩ := hvr
    rw [List.mem_range] at hr
    have := h r (by omega) (by omega)
    omega
  . cases hvr

structure Shown (c : Core) (log : List Action) : Prop where
  grid : c.grid.Ok
  nonneg : 0 ≤ c.rowVisibleOffset
  rows : RowsExist c.grid c.rowVisibleOffset
  log : ∀ a ∈ log, a.InGrid

end Term
end Runes
