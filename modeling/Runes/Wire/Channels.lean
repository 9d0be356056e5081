import Mathlib.Data.List.Basic

/-!
This module contains messages on their way over several channels, in one list with the oldest one first.
Each channel keeps the order of its messages, but the channels do not wait for each other.
-/

namespace Wire

variable {κ α : Type} [DecidableEq κ]

/-- The oldest message of a channel, and the messages that are left. -/
def receive (k : κ) (msgs : List (κ × α)) : Option (α × List (κ × α)) :=
  match msgs with
  | [] => none
  | msg :: msgs =>
    if msg.fst = k then
      some (msg.snd, msgs)
    else
      (receive k msgs).map (fun (a, rest) => (a, msg :: rest))

variable {k : κ} {a : α} {msgs rest : List (κ × α)}

theorem receive_eq_some (h : receive k msgs = some (a, rest))
    : ∃ before after, msgs = before ++ (k, a) :: after ∧ rest = before ++ after ∧
        ∀ msg ∈ before, msg.fst ≠ k := by
  induction msgs generalizing rest with
  | nil => cases h
  | cons msg msgs ih =>
    unfold receive at h
    split at h
    . next heq =>
      cases h
      exact ⟨[], msgs, by rw [← heq]; rfl, rfl, by simp⟩
    . next hne =>
      obtain ⟨⟨b, rest'⟩, hrest, heq⟩ := Option.map_eq_some_iff.mp h
      cases heq
      obtain ⟨before, after, hmsgs, hrest, hbefore⟩ := ih hrest
      refine ⟨msg :: before, after, by rw [hmsgs]; rfl, by rw [hrest]; rfl, ?_⟩
      intro other hother
      rcases List.mem_cons.mp hother with rfl | hother
      . exact hne
      . exact hbefore other hother

/--
Of the messages that are looked at, the one that is received is the first one of its channel, or there is
none of them less.
-/
theorem filter_receive (p : κ × α → Bool) (h : receive k msgs = some (a, rest))
    : if p (k, a) then
        ∃ before after, msgs.filter p = before ++ (k, a) :: after ∧
          rest.filter p = before ++ after ∧ ∀ msg ∈ before, msg.fst ≠ k
      else
        rest.filter p = msgs.filter p := by
  obtain ⟨before, after, hmsgs, hrest, hbefore⟩ := receive_eq_some h
  rw [hmsgs, hrest, List.filter_append, List.filter_append]
  split
  . next hp =>
    refine ⟨before.filter p, after.filter p, by rw [List.filter_cons_of_pos hp], rfl, ?_⟩
    intro msg hmsg
    exact hbefore msg (List.mem_of_mem_filter hmsg)
  . next hp => rw [List.filter_cons_of_neg hp]

end Wire
