import Runes.Refs.Basic

/-!
This module contains what the drawing functions use of cairo: a context that holds references to its
source pattern and to the sources of the states that were saved, and the colours that new patterns are
created with.
-/

namespace Runes
namespace Display

abbrev Pattern := Nat

/--
What is known of the patterns: the references to them, and of those that were created while something was
drawn the red, green and blue, in 255ths.
-/
structure Cairo (δ : Type) where
  refs : Refs
  rgb : Pattern → Option (UInt8 × UInt8 × UInt8)
  source : Option Pattern
  saved : List (Option Pattern)
  drawn : List δ

namespace Cairo

variable {δ : Type}

def createRgb (cr : Cairo δ) (r g b : UInt8) : Pattern × Cairo δ :=
  (cr.refs.next,
    {
      cr with
      refs := cr.refs.create
      rgb := fun p => if p = cr.refs.next then some (r, g, b) else cr.rgb p
    })

def destroy (cr : Cairo δ) (p : Pattern) : Cairo δ :=
  { cr with refs := cr.refs.destroy p }

def referenceSource (r : Refs) (source : Option Pattern) : Refs :=
  match source with
  | some p => r.reference p
  | none => r

def releaseSource (r : Refs) (source : Option Pattern) : Refs :=
  match source with
  | some p => r.release p
  | none => r

def save (cr : Cairo δ) : Cairo δ :=
  { cr with refs := referenceSource cr.refs cr.source, saved := cr.source :: cr.saved }

def setSource (cr : Cairo δ) (p : Pattern) : Cairo δ :=
  { cr with refs := releaseSource (cr.refs.reference p) cr.source, source := some p }

def restore (cr : Cairo δ) : Cairo δ :=
  match cr.saved with
  | source :: saved =>
    { cr with refs := releaseSource cr.refs cr.source, source := source, saved := saved }
  | [] => cr

def draw (cr : Cairo δ) (d : δ) : Cairo δ :=
  { cr with drawn := cr.drawn ++ [d] }

def drawAll (cr : Cairo δ) (ds : List δ) : Cairo δ :=
  { cr with drawn := cr.drawn ++ ds }

@[simp]
theorem drawAll_drawn (cr : Cairo δ) (ds : List δ) : (cr.drawAll ds).drawn = cr.drawn ++ ds := rfl

@[simp]
theorem drawAll_refs (cr : Cairo δ) (ds : List δ) : (cr.drawAll ds).refs = cr.refs := rfl

theorem drawAll_nil (cr : Cairo δ) : cr.drawAll [] = cr := by
  unfold drawAll
  rw [List.append_nil]

theorem drawAll_drawAll (cr : Cairo δ) (ds es : List δ)
    : (cr.drawAll ds).drawAll es = cr.drawAll (ds ++ es) := by
  unfold drawAll
  rw [List.append_assoc]

theorem restore_draw_setSource_save (cr : Cairo δ) (p : Pattern) (d : δ)
    : restore (draw (setSource (save cr) p) d) = draw cr d := by
  have hrefs : (releaseSource ((referenceSource cr.refs cr.source).reference p) cr.source).release p
      = cr.refs := by
    cases cr.source with
    | none => exact Refs.release_reference _ _
    | some q =>
      dsimp only [releaseSource, referenceSource]
      by_cases heq : p = q
      . subst heq
        rw [Refs.release_reference, Refs.release_reference]
      . rw [Refs.release_reference_comm _ heq, Refs.release_reference, Refs.release_reference]
  simp only [restore, draw, setSource, save]
  rw [releaseSource, hrefs]

/-- Patterns are added, but none gets another colour. -/
structure Keeps (cr cr' : Cairo δ) : Prop where
  next_le : cr.refs.next ≤ cr'.refs.next
  rgb : ∀ p, p < cr.refs.next → cr'.rgb p = cr.rgb p

namespace Keeps

variable {cr cr' cr'' : Cairo δ}

theorem of_eq (hnext : cr'.refs.next = cr.refs.next) (hrgb : cr'.rgb = cr.rgb) : Keeps cr cr' where
  next_le := Nat.le_of_eq hnext.symm
  rgb p _ := congrFun hrgb p

theorem refl (cr : Cairo δ) : Keeps cr cr := of_eq rfl rfl

theorem trans (h : Keeps cr cr') (h' : Keeps cr' cr'') : Keeps cr cr'' where
  next_le := Nat.le_trans h.next_le h'.next_le
  rgb p hp := by
    have hnext := h.next_le
    rw [h'.rgb p (by omega), h.rgb p hp]

theorem createRgb (cr : Cairo δ) (r g b : UInt8) : Keeps cr (cr.createRgb r g b).snd where
  next_le := Nat.le_succ _
  rgb _ hp := if_neg (Nat.ne_of_lt hp)

end Keeps

end Cairo

end Display
end Runes
