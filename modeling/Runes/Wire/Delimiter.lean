import Mathlib.Data.List.Basic

/-!
This module contains the theory of texts that stand between two markers, of which the second one is
looked for in what follows the first one.
-/

namespace Wire

variable {α : Type} {marker text before after : List α}

/-- No marker begins within another one. -/
def Unbordered (marker : List α) : Prop :=
  ∀ border, border <+: marker → border <:+ marker → border = [] ∨ border = marker

theorem Unbordered.of_head {a : α} (h : a ∉ marker) : Unbordered (a :: marker) := by
  intro border hfront hback
  cases border with
  | nil => exact Or.inl rfl
  | cons b border =>
    right
    have hb : b = a := (List.cons_prefix_cons.mp hfront).left
    rcases List.suffix_cons_iff.mp hback with heq | hback
    . exact heq
    . have hmem : b ∈ marker := hback.subset List.mem_cons_self
      rw [hb] at hmem
      exact absurd hmem h

-- A marker that begins in the text and ends behind it would overlap with the one behind it.
theorem not_prefix_of_unbordered (hmarker : Unbordered marker) {a : α}
    (htext : ¬marker <:+: a :: text) (rest : List α)
    : ¬marker <+: a :: text ++ (marker ++ rest) := by
  intro hfront
  rcases List.prefix_or_prefix_of_prefix hfront (List.prefix_append (a :: text) (marker ++ rest))
    with hinside | ⟨border, hborder⟩
  . exact htext hinside.isInfix
  . rw [← hborder, List.prefix_append_right_inj, hborder] at hfront
    have hlength := congrArg List.length hborder
    rw [List.length_append] at hlength
    have hfront' : border <+: marker :=
      List.prefix_of_prefix_length_le hfront (List.prefix_append marker rest) (by omega)
    rcases hmarker border hfront' ⟨a :: text, hborder⟩ with hnil | heq
    . rw [hnil, List.append_nil] at hborder
      rw [hborder] at htext
      exact htext (List.infix_refl marker)
    . rw [heq] at hlength
      simp at hlength

section

variable [DecidableEq α]

/--
What stands in front of the first place with the marker, and what follows the marker there.
-/
def splitFirst (marker text : List α) : Option (List α × List α) :=
  if marker.isPrefixOf text then
    some ([], text.drop marker.length)
  else
    match text with
    | [] => none
    | a :: text => (splitFirst marker text).map (fun split => (a :: split.fst, split.snd))

/-- The text between the markers, and what follows the second one. -/
def unframe (start stop text : List α) : Option (List α × List α) :=
  if start.isPrefixOf text then splitFirst stop (text.drop start.length) else none

theorem splitFirst_of_isPrefix (h : marker <+: text)
    : splitFirst marker text = some ([], text.drop marker.length) := by
  unfold splitFirst
  rw [if_pos (List.isPrefixOf_iff_prefix.mpr h)]

theorem splitFirst_cons {a : α} (h : ¬marker <+: a :: text)
    : splitFirst marker (a :: text)
        = (splitFirst marker text).map (fun split => (a :: split.fst, split.snd)) := by
  rw [splitFirst, if_neg (fun hfront => h (List.isPrefixOf_iff_prefix.mp hfront))]

theorem splitFirst_eq_none_iff : splitFirst marker text = none ↔ ¬marker <:+: text := by
  induction text with
  | nil =>
    rw [List.infix_nil, ← List.prefix_nil]
    unfold splitFirst
    split <;> simp_all [List.isPrefixOf_iff_prefix]
  | cons a text ih =>
    rw [List.infix_cons_iff, not_or]
    by_cases hfront : marker <+: a :: text
    . rw [splitFirst_of_isPrefix hfront]
      simp [hfront]
    . rw [splitFirst_cons hfront, Option.map_eq_none_iff, ih]
      simp [hfront]

-- The marker is at the place where the text is split, and not in front of that.
theorem splitFirst_spec (hmarker : marker ≠ []) (h : splitFirst marker text = some (before, after))
    : text = before ++ (marker ++ after) ∧ ¬marker <:+: before := by
  induction text generalizing before with
  | nil =>
    have hinfix : ¬marker <:+: [] := by
      rw [List.infix_nil]
      exact hmarker
    rw [splitFirst_eq_none_iff.mpr hinfix] at h
    cases h
  | cons a text ih =>
    by_cases hfront : marker <+: a :: text
    . rw [splitFirst_of_isPrefix hfront] at h
      cases h
      have ⟨rest, hrest⟩ := hfront
      rw [← hrest, List.drop_left, List.infix_nil]
      exact ⟨rfl, hmarker⟩
    . rw [splitFirst_cons hfront, Option.map_eq_some_iff] at h
      obtain ⟨split, hsplit, heq⟩ := h
      cases heq
      have ⟨htext, hbefore⟩ := ih hsplit
      refine ⟨congrArg (List.cons a) htext, ?_⟩
      rw [List.infix_cons_iff, not_or]
      refine ⟨fun hlonger => hfront ?_, hbefore⟩
      rw [htext]
      exact hlonger.trans (List.prefix_append (a :: split.fst) (marker ++ split.snd))

theorem splitFirst_append (h : splitFirst marker text = some (before, after)) (rest : List α)
    : splitFirst marker (text ++ rest) = some (before, after ++ rest) := by
  induction text generalizing before with
  | nil =>
    by_cases hfront : marker <+: []
    . rw [splitFirst_of_isPrefix hfront] at h
      cases h
      rw [splitFirst_of_isPrefix (hfront.trans (List.prefix_append _ rest)), List.prefix_nil.mp hfront]
      rfl
    . have hinfix : ¬marker <:+: [] := by
        rw [List.infix_nil, ← List.prefix_nil]
        exact hfront
      rw [splitFirst_eq_none_iff.mpr hinfix] at h
      cases h
  | cons a text ih =>
    by_cases hfront : marker <+: a :: text
    . rw [splitFirst_of_isPrefix hfront] at h
      cases h
      rw [splitFirst_of_isPrefix (hfront.trans (List.prefix_append _ rest)),
        List.drop_append_of_le_length hfront.length_le]
    . rw [splitFirst_cons hfront, Option.map_eq_some_iff] at h
      obtain ⟨split, hsplit, heq⟩ := h
      cases heq
      have hinfix : marker <:+: text := by
        by_contra hnot
        rw [splitFirst_eq_none_iff.mpr hnot] at hsplit
        cases hsplit
      have hfront' : ¬marker <+: a :: text ++ rest := by
        intro hlonger
        have hle := hinfix.length_le
        apply hfront
        exact List.prefix_of_prefix_length_le hlonger (List.prefix_append _ rest)
          (by rw [List.length_cons]; omega)
      rw [List.cons_append] at hfront' ⊢
      rw [splitFirst_cons hfront', ih hsplit]
      rfl

/--
The first marker behind a text that has none is found where it begins.
-/
theorem splitFirst_of_unbordered (hmarker : Unbordered marker) (htext : ¬marker <:+: text)
    (rest : List α)
    : splitFirst marker (text ++ (marker ++ rest)) = some (text, rest) := by
  induction text with
  | nil => rw [List.nil_append, splitFirst_of_isPrefix (List.prefix_append _ _), List.drop_left]
  | cons a text ih =>
    have hinside : ¬marker <:+: text := fun h => htext (List.infix_cons h)
    have hfront := not_prefix_of_unbordered hmarker htext rest
    rw [List.cons_append] at hfront ⊢
    rw [splitFirst_cons hfront, ih hinside]
    rfl

theorem unframe_append (start stop text : List α)
    : unframe start stop (start ++ text) = splitFirst stop text := by
  unfold unframe
  rw [if_pos (List.isPrefixOf_iff_prefix.mpr (List.prefix_append start text)), List.drop_left]

/--
What is framed is found again exactly if it does not contain the marker at its end. Otherwise the
frame ends where that begins for the first time.
-/
theorem unframe_frame (start : List α) {stop : List α} (hstop : Unbordered stop)
    (text rest : List α)
    : unframe start stop (start ++ (text ++ (stop ++ rest)))
        = match splitFirst stop text with
          | some (before, after) => some (before, after ++ (stop ++ rest))
          | none => some (text, rest) := by
  rw [unframe_append]
  cases hsplit : splitFirst stop text with
  | some split => exact splitFirst_append hsplit (stop ++ rest)
  | none => exact splitFirst_of_unbordered hstop (splitFirst_eq_none_iff.mp hsplit) rest

end

end Wire
