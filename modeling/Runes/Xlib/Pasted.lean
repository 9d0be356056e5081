import Runes.Term.Lifetime
import Runes.Term.Paste
import Runes.Xlib.Conversation

/-!
This module contains that no paste is made twice and which ones are lost, and what a terminal that waits for
one paste before it asks for the next one pastes: what the owners of the selection have answered, in
the order in which it has asked.
-/

namespace Runes
namespace Xlib
namespace Exchange

variable {ι ρ : Type} {i : ι} {v v' : View ι}

section Count

def Request.isChange (r : Request ι) : Bool :=
  match r with
  | .change _ _ => true
  | _ => false

-- What is under way for a terminal that has asked.
def View.waits (v : View ι) : Nat :=
  v.requests.countP (fun m => !m.snd.isChange) + v.notices.length

def View.Conserved (v : View ι) : Prop := v.asked = v.heard.length + v.waits

theorem length_of_eq {α : Type} {l before after : List α} {a : α} (h : l = before ++ a :: after)
    : l.length = (before ++ after).length + 1 := by
  rw [h, List.length_append, List.length_append, List.length_cons, Nat.add_assoc]

theorem countP_of_eq {α : Type} {l before after : List α} {a : α} (h : l = before ++ a :: after)
    (p : α → Bool)
    : l.countP p = (before ++ after).countP p + if p a then 1 else 0 := by
  rw [h, List.countP_append, List.countP_append, List.countP_cons, Nat.add_assoc]

theorem countP_answer (contents : Option (List UInt8)) (i j : ι) (utf8 : Bool)
    : (contents.toList.map (fun c => (j, Request.change i c))
        ++ [(j, Request.notify i utf8 false)]).countP (fun m => !m.snd.isChange) = 1 := by
  cases contents with
  | none => rfl
  | some text => rfl

theorem Moves.conserved (h : Moves i v v') (hv : v.Conserved) : v'.Conserved := by
  unfold View.Conserved View.waits at hv ⊢
  cases h with
  | stays => exact hv
  | asks =>
    dsimp only
    rw [hv, List.countP_append]
    change _ = _ + (_ + 1 + _)
    omega
  | routes j heq _ =>
    have hcount := countP_of_eq heq (fun m => !m.snd.isChange)
    change _ = _ + 1 at hcount
    dsimp only
    rw [hv, hcount, List.length_append, List.length_singleton]
    omega
  | fails heq _ =>
    have hcount := countP_of_eq heq (fun m => !m.snd.isChange)
    change _ = _ + 1 at hcount
    dsimp only
    rw [hv, hcount, List.length_append, List.length_singleton]
    omega
  | changes heq _ =>
    have hcount := countP_of_eq heq (fun m => !m.snd.isChange)
    change _ = _ + 0 at hcount
    dsimp only
    rw [hv, hcount]
    omega
  | notifies heq _ =>
    have hcount := countP_of_eq heq (fun m => !m.snd.isChange)
    change _ = _ + 1 at hcount
    dsimp only
    rw [hv, hcount, List.length_append, List.length_singleton]
    omega
  | answers contents heq _ =>
    have hlength := length_of_eq heq
    dsimp only
    rw [hv, hlength, List.countP_append, countP_answer]
    omega
  | retries heq _ =>
    have hlength := length_of_eq heq
    dsimp only
    rw [hv, hlength, List.countP_append]
    change _ = _ + (_ + 1 + _)
    omega
  | givesUp heq _ =>
    have hlength := length_of_eq heq
    dsimp only
    rw [hv, hlength]
    simp only [List.length_append, List.length_singleton]
    omega
  | pastes heq _ =>
    have hlength := length_of_eq heq
    dsimp only
    rw [hv, hlength]
    simp only [List.length_append, List.length_singleton]
    omega

end Count

section Texts

-- What is pasted for the answers: a selection without a text leaves the last text where it is.
def texts (last : Option (List UInt8)) (answers : List (Option (List UInt8))) : List (List UInt8) :=
  match answers with
  | [] => []
  | answer :: answers => (answer <|> last).getD [] :: texts (answer <|> last) answers

def lastText (answers : List (Option (List UInt8))) : Option (List UInt8) :=
  answers.foldl (fun last answer => answer <|> last) none

theorem texts_concat (answers : List (Option (List UInt8))) (answer : Option (List UInt8))
    : texts none (answers ++ [answer])
        = texts none answers ++ [(answer <|> lastText answers).getD []] := by
  suffices h : ∀ last, texts last (answers ++ [answer]) = texts last answers
      ++ [(answer <|> answers.foldl (fun last answer => answer <|> last) last).getD []] from h none
  induction answers with
  | nil => intro last; rfl
  | cons first answers ih =>
    intro last
    rw [List.cons_append, texts, texts, ih]
    rfl

theorem lastText_concat (answers : List (Option (List UInt8))) (answer : Option (List UInt8))
    : lastText (answers ++ [answer]) = (answer <|> lastText answers) := by
  unfold lastText
  rw [List.foldl_concat]

end Texts

section Turns

def View.pasted (v : View ι) : List (List UInt8) := v.heard.filterMap id

-- A terminal has pasted the answers up to some place, and where it has asked is who has answered.
structure View.Heard (v : View ι) (told : List (Answer ι)) : Prop where
  pasted : v.pasted = texts none (told.map Answer.contents)
  property : v.property = lastText (told.map Answer.contents)

/--
The turns of a conversation in which the terminal asks one at a time.
-/
inductive Talk (i : ι) (v : View ι) : Prop where
  | idle (hrequests : v.requests = []) (hnotices : v.notices = [])
      (hrouted : v.routed = v.told.map Answer.owner) (hheard : v.Heard v.told)
  | asked {utf8 : Bool} (hrequests : v.requests = [(i, .convert utf8)]) (hnotices : v.notices = [])
      (hrouted : v.routed = v.told.map Answer.owner) (hheard : v.Heard v.told)
  | routed {j : ι} {utf8 : Bool} (hrequests : v.requests = [])
      (hnotices : v.notices = [(j, .request i utf8)])
      (hrouted : v.routed = v.told.map Answer.owner ++ [j]) (hheard : v.Heard v.told)
  | answered {j : ι} {utf8 : Bool} {text : List UInt8} {earlier : List (Answer ι)}
      (hrequests : v.requests = [(j, .change i text), (j, .notify i utf8 false)])
      (hnotices : v.notices = []) (hrouted : v.routed = v.told.map Answer.owner)
      (htold : v.told = earlier ++ [⟨i, j, some text⟩]) (hheard : v.Heard earlier)
  | changed {j : ι} {utf8 : Bool} {earlier : List (Answer ι)} {last : Answer ι}
      (hrequests : v.requests = [(j, .notify i utf8 false)]) (hnotices : v.notices = [])
      (hrouted : v.routed = v.told.map Answer.owner) (htold : v.told = earlier ++ [last])
      (hpasted : v.pasted = texts none (earlier.map Answer.contents))
      (hproperty : v.property = lastText (v.told.map Answer.contents))
  | notified {utf8 : Bool} {earlier : List (Answer ι)} {last : Answer ι}
      (hrequests : v.requests = []) (hnotices : v.notices = [(i, .notify utf8 false)])
      (hrouted : v.routed = v.told.map Answer.owner) (htold : v.told = earlier ++ [last])
      (hpasted : v.pasted = texts none (earlier.map Answer.contents))
      (hproperty : v.property = lastText (v.told.map Answer.contents))
  | refused {utf8 : Bool} (hrequests : v.requests = [])
      (hnotices : v.notices = [(i, .notify utf8 true)])
      (hrouted : v.routed = v.told.map Answer.owner) (hheard : v.Heard v.told)

theorem of_singleton {α : Type} {l before after : List α} {a b : α} (h : l = before ++ b :: after)
    (hl : l = [a])
    : before = [] ∧ b = a ∧ after = [] := by
  rw [hl] at h
  cases before with
  | nil =>
    cases h
    exact ⟨rfl, rfl, rfl⟩
  | cons c before => simp at h

theorem not_nil {α : Type} {l before after : List α} {b : α} (h : l = before ++ b :: after)
    : l ≠ [] := by
  rw [h]
  simp

theorem of_pair {α : Type} {l before after : List α} {a b c : α} (h : l = before ++ c :: after)
    (hl : l = [a, b])
    : (before = [] ∧ c = a ∧ after = [b]) ∨ (before = [a] ∧ c = b ∧ after = []) := by
  rw [hl] at h
  cases before with
  | nil =>
    cases h
    exact .inl ⟨rfl, rfl, rfl⟩
  | cons d before =>
    injection h with hd hrest
    obtain ⟨rfl, hc, rfl⟩ := of_singleton hrest rfl
    exact .inr ⟨by rw [hd], hc, rfl⟩

theorem View.Heard.append {told : List (Answer ι)} {last : Answer ι}
    (hpasted : v.pasted = texts none (told.map Answer.contents))
    (hproperty : v.property = lastText ((told ++ [last]).map Answer.contents))
    (hpasted' : v'.pasted = v.pasted ++ [v.property.getD []]) (hproperty' : v'.property = v.property)
    : v'.Heard (told ++ [last]) where
  pasted := by
    rw [hpasted', hpasted, hproperty, List.map_append, List.map_singleton, texts_concat,
      lastText_concat]
  property := hproperty'.trans hproperty

-- With something under way it is not the turn of the terminal.
theorem Talk.idle_of_waits (h : Talk i v) (hwaits : v.waits = 0)
    : v.requests = [] ∧ v.notices = [] ∧ v.routed = v.told.map Answer.owner ∧ v.Heard v.told := by
  unfold View.waits at hwaits
  cases h with
  | idle hrequests hnotices hrouted hheard => exact ⟨hrequests, hnotices, hrouted, hheard⟩
  | asked hrequests hnotices _ _ =>
    rw [hrequests, hnotices] at hwaits
    cases hwaits
  | routed hrequests hnotices _ _ =>
    rw [hrequests, hnotices] at hwaits
    cases hwaits
  | answered hrequests hnotices _ _ _ =>
    rw [hrequests, hnotices] at hwaits
    cases hwaits
  | changed hrequests hnotices _ _ _ _ =>
    rw [hrequests, hnotices] at hwaits
    cases hwaits
  | notified hrequests hnotices _ _ _ _ =>
    rw [hrequests, hnotices] at hwaits
    cases hwaits
  | refused hrequests hnotices _ _ =>
    rw [hrequests, hnotices] at hwaits
    cases hwaits

section Received

variable {before after : List (ι × Request ι)} {before' after' : List (ι × Notice ι)} {j : ι}

theorem Talk.of_convert {utf8 : Bool} (h : Talk i v)
    (heq : v.requests = before ++ (i, .convert utf8) :: after)
    : before ++ after = [] ∧ v.notices = [] ∧ v.routed = v.told.map Answer.owner ∧ v.Heard v.told := by
  cases h with
  | idle hrequests _ _ _ => exact absurd hrequests (not_nil heq)
  | asked hrequests hnotices hrouted hheard =>
    obtain ⟨rfl, _, rfl⟩ := of_singleton heq hrequests
    exact ⟨rfl, hnotices, hrouted, hheard⟩
  | routed hrequests _ _ _ => exact absurd hrequests (not_nil heq)
  | answered hrequests _ _ _ _ =>
    obtain ⟨_, hm, _⟩ | ⟨_, hm, _⟩ := of_pair heq hrequests
    . cases hm
    . cases hm
  | changed hrequests _ _ _ _ _ =>
    obtain ⟨_, hm, _⟩ := of_singleton heq hrequests
    cases hm
  | notified hrequests _ _ _ _ _ => exact absurd hrequests (not_nil heq)
  | refused hrequests _ _ _ => exact absurd hrequests (not_nil heq)

theorem Talk.of_change {text : List UInt8} (h : Talk i v)
    (heq : v.requests = before ++ (j, .change i text) :: after)
    : v.notices = [] ∧ v.routed = v.told.map Answer.owner ∧
        ∃ utf8 earlier, before ++ after = [(j, .notify i utf8 false)] ∧
          v.told = earlier ++ [⟨i, j, some text⟩] ∧ v.Heard earlier := by
  cases h with
  | idle hrequests _ _ _ => exact absurd hrequests (not_nil heq)
  | asked hrequests _ _ _ =>
    obtain ⟨_, hm, _⟩ := of_singleton heq hrequests
    cases hm
  | routed hrequests _ _ _ => exact absurd hrequests (not_nil heq)
  | answered hrequests hnotices hrouted htold hheard =>
    obtain ⟨rfl, hm, rfl⟩ | ⟨_, hm, _⟩ := of_pair heq hrequests
    . cases hm
      exact ⟨hnotices, hrouted, _, _, rfl, htold, hheard⟩
    . cases hm
  | changed hrequests _ _ _ _ _ =>
    obtain ⟨_, hm, _⟩ := of_singleton heq hrequests
    cases hm
  | notified hrequests _ _ _ _ _ => exact absurd hrequests (not_nil heq)
  | refused hrequests _ _ _ => exact absurd hrequests (not_nil heq)

-- The property has been changed before the terminal is notified, for both are requests of the owner.
theorem Talk.of_notify {utf8 refused : Bool} (h : Talk i v)
    (heq : v.requests = before ++ (j, .notify i utf8 refused) :: after)
    (hfst : ∀ m ∈ before, m.fst ≠ j)
    : before ++ after = [] ∧ refused = false ∧ v.notices = [] ∧
        v.routed = v.told.map Answer.owner ∧ ∃ earlier last, v.told = earlier ++ [last] ∧
          v.pasted = texts none (earlier.map Answer.contents) ∧
          v.property = lastText (v.told.map Answer.contents) := by
  cases h with
  | idle hrequests _ _ _ => exact absurd hrequests (not_nil heq)
  | asked hrequests _ _ _ =>
    obtain ⟨_, hm, _⟩ := of_singleton heq hrequests
    cases hm
  | routed hrequests _ _ _ => exact absurd hrequests (not_nil heq)
  | answered hrequests _ _ _ _ =>
    obtain ⟨_, hm, _⟩ | ⟨rfl, hm, _⟩ := of_pair heq hrequests
    . cases hm
    . cases hm
      exact absurd rfl (hfst _ List.mem_cons_self)
  | changed hrequests hnotices hrouted htold hpasted hproperty =>
    obtain ⟨rfl, hm, rfl⟩ := of_singleton heq hrequests
    cases hm
    exact ⟨rfl, rfl, hnotices, hrouted, _, _, htold, hpasted, hproperty⟩
  | notified hrequests _ _ _ _ _ => exact absurd hrequests (not_nil heq)
  | refused hrequests _ _ _ => exact absurd hrequests (not_nil heq)

theorem Talk.of_request {utf8 : Bool} (h : Talk i v)
    (heq : v.notices = before' ++ (j, .request i utf8) :: after')
    : before' ++ after' = [] ∧ v.requests = [] ∧ v.routed = v.told.map Answer.owner ++ [j] ∧
        v.Heard v.told := by
  cases h with
  | idle _ hnotices _ _ => exact absurd hnotices (not_nil heq)
  | asked _ hnotices _ _ => exact absurd hnotices (not_nil heq)
  | routed hrequests hnotices hrouted hheard =>
    obtain ⟨rfl, hm, rfl⟩ := of_singleton heq hnotices
    cases hm
    exact ⟨rfl, hrequests, hrouted, hheard⟩
  | answered _ hnotices _ _ _ => exact absurd hnotices (not_nil heq)
  | changed _ hnotices _ _ _ _ => exact absurd hnotices (not_nil heq)
  | notified _ hnotices _ _ _ _ =>
    obtain ⟨_, hm, _⟩ := of_singleton heq hnotices
    cases hm
  | refused _ hnotices _ _ =>
    obtain ⟨_, hm, _⟩ := of_singleton heq hnotices
    cases hm

theorem Talk.of_refused {utf8 : Bool} (h : Talk i v)
    (heq : v.notices = before' ++ (i, .notify utf8 true) :: after')
    : before' ++ after' = [] ∧ v.requests = [] ∧ v.routed = v.told.map Answer.owner ∧
        v.Heard v.told := by
  cases h with
  | idle _ hnotices _ _ => exact absurd hnotices (not_nil heq)
  | asked _ hnotices _ _ => exact absurd hnotices (not_nil heq)
  | routed _ hnotices _ _ =>
    obtain ⟨_, hm, _⟩ := of_singleton heq hnotices
    cases hm
  | answered _ hnotices _ _ _ => exact absurd hnotices (not_nil heq)
  | changed _ hnotices _ _ _ _ => exact absurd hnotices (not_nil heq)
  | notified _ hnotices _ _ _ _ =>
    obtain ⟨_, hm, _⟩ := of_singleton heq hnotices
    cases hm
  | refused hrequests hnotices hrouted hheard =>
    obtain ⟨rfl, _, rfl⟩ := of_singleton heq hnotices
    exact ⟨rfl, hrequests, hrouted, hheard⟩

theorem Talk.of_notified {utf8 : Bool} (h : Talk i v)
    (heq : v.notices = before' ++ (i, .notify utf8 false) :: after')
    : before' ++ after' = [] ∧ v.requests = [] ∧ v.routed = v.told.map Answer.owner ∧
        ∃ earlier last, v.told = earlier ++ [last] ∧
          v.pasted = texts none (earlier.map Answer.contents) ∧
          v.property = lastText (v.told.map Answer.contents) := by
  cases h with
  | idle _ hnotices _ _ => exact absurd hnotices (not_nil heq)
  | asked _ hnotices _ _ => exact absurd hnotices (not_nil heq)
  | routed _ hnotices _ _ =>
    obtain ⟨_, hm, _⟩ := of_singleton heq hnotices
    cases hm
  | answered _ hnotices _ _ _ => exact absurd hnotices (not_nil heq)
  | changed _ hnotices _ _ _ _ => exact absurd hnotices (not_nil heq)
  | notified hrequests hnotices hrouted htold hpasted hproperty =>
    obtain ⟨rfl, _, rfl⟩ := of_singleton heq hnotices
    exact ⟨rfl, hrequests, hrouted, _, _, htold, hpasted, hproperty⟩
  | refused _ hnotices _ _ =>
    obtain ⟨_, hm, _⟩ := of_singleton heq hnotices
    cases hm

end Received

theorem Moves.talk (h : Moves i v v') (hv : Talk i v)
    (hpatient : v.asked < v'.asked → v.waits = 0)
    : Talk i v' := by
  cases h with
  | stays => exact hv
  | asks =>
    have hwaits := hpatient (Nat.lt_succ_self v.asked)
    obtain ⟨hrequests, hnotices, hrouted, hheard⟩ := hv.idle_of_waits hwaits
    have hnext : v.requests ++ [(i, Request.convert true)] = [(i, .convert true)] := by
      rw [hrequests, List.nil_append]
    exact .asked hnext hnotices hrouted ⟨hheard.pasted, hheard.property⟩
  | @routes _ _ utf8 j heq _ =>
    obtain ⟨hrest, hnotices, hrouted, hheard⟩ := hv.of_convert heq
    have hnext : v.notices ++ [(j, Notice.request i utf8)] = [(j, .request i utf8)] := by
      rw [hnotices, List.nil_append]
    exact .routed hrest hnext (congrArg (· ++ [j]) hrouted) ⟨hheard.pasted, hheard.property⟩
  | @fails _ _ utf8 heq _ =>
    obtain ⟨hrest, hnotices, hrouted, hheard⟩ := hv.of_convert heq
    have hnext : v.notices ++ [(i, Notice.notify utf8 true)] = [(i, .notify utf8 true)] := by
      rw [hnotices, List.nil_append]
    exact .refused hrest hnext hrouted ⟨hheard.pasted, hheard.property⟩
  | changes heq _ =>
    obtain ⟨hnotices, hrouted, utf8, earlier, hrest, htold, hheard⟩ := hv.of_change heq
    refine .changed hrest hnotices hrouted htold hheard.pasted ?_
    dsimp only
    rw [htold, List.map_append, List.map_singleton, lastText_concat]
    rfl
  | @notifies _ _ _ utf8 _ heq hfst =>
    obtain ⟨hrest, rfl, hnotices, hrouted, earlier, last, htold, hpasted, hproperty⟩ :=
      hv.of_notify heq hfst
    have hnext : v.notices ++ [(i, Notice.notify utf8 false)] = [(i, .notify utf8 false)] := by
      rw [hnotices, List.nil_append]
    exact .notified hrest hnext hrouted htold hpasted hproperty
  | @answers _ _ j utf8 contents heq _ =>
    obtain ⟨hrest, hrequests, hrouted, hheard⟩ := hv.of_request heq
    have hrouted' : v.routed = (v.told ++ [Answer.mk i j contents]).map Answer.owner := by
      rw [hrouted, List.map_append, List.map_singleton]
    cases contents with
    | none =>
      have hnext : v.requests ++ [(j, Request.notify i utf8 false)] = [(j, .notify i utf8 false)] := by
        rw [hrequests, List.nil_append]
      have hproperty : v.property
          = lastText ((v.told ++ [Answer.mk i j none]).map Answer.contents) := by
        rw [hheard.property, List.map_append, List.map_singleton, lastText_concat]
        rfl
      exact .changed hnext hrest hrouted' rfl hheard.pasted hproperty
    | some text =>
      have hnext : v.requests ++ [(j, Request.change i text), (j, .notify i utf8 false)]
          = [(j, .change i text), (j, .notify i utf8 false)] := by
        rw [hrequests, List.nil_append]
      exact .answered hnext hrest hrouted' rfl ⟨hheard.pasted, hheard.property⟩
  | retries heq _ =>
    obtain ⟨hrest, hrequests, hrouted, hheard⟩ := hv.of_refused heq
    have hnext : v.requests ++ [(i, Request.convert false)] = [(i, .convert false)] := by
      rw [hrequests, List.nil_append]
    exact .asked hnext hrest hrouted ⟨hheard.pasted, hheard.property⟩
  | givesUp heq _ =>
    obtain ⟨hrest, hrequests, hrouted, hheard⟩ := hv.of_refused heq
    refine .idle hrequests hrest hrouted ⟨?_, hheard.property⟩
    unfold View.pasted
    dsimp only
    rw [List.filterMap_append, ← hheard.pasted]
    exact List.append_nil _
  | pastes heq _ =>
    obtain ⟨hrest, hrequests, hrouted, earlier, last, htold, hpasted, hproperty⟩ :=
      hv.of_notified heq
    refine .idle hrequests hrest hrouted ?_
    dsimp only
    rw [htold]
    refine .append hpasted (htold ▸ hproperty) ?_ rfl
    unfold View.pasted
    dsimp only
    rw [List.filterMap_append]
    rfl

end Turns

section Lost

variable [DecidableEq ι] {env : ι → Term.Env ρ} {start : ι → Term.Start} {s s' : Net ι ρ}

def Net.deleted (s : Net ι ρ) (j : ι) : Bool := 0 < (s.terms j).deletes

-- The requests that the X server has to handle yet, and the events that somebody will look for.
def underWay (i : ι) (s : Net ι ρ) : Nat :=
  (view i s).requests.countP (fun m => !m.snd.isChange)
    + (view i s).notices.countP (fun m => !s.deleted m.fst)

-- The events that were sent to a terminal that has been deleted before it has looked for them.
def lost (i : ι) (s : Net ι ρ) : Nat := (view i s).notices.countP (fun m => s.deleted m.fst)

theorem underWay_add_lost (i : ι) (s : Net ι ρ) : underWay i s + lost i s = (view i s).waits := by
  have hlength := List.length_eq_countP_add_countP (fun m => s.deleted m.fst) (l := (view i s).notices)
  unfold underWay lost View.waits
  simp only [Bool.not_eq_true, Bool.decide_eq_false] at hlength
  omega

theorem ran_reachable {i : ι} {input : Term.Input} {t : Term.World ρ}
    (hstep : Term.step (env i) (s.terms i) input = some t)
    (hs : ∀ k, (Term.machine (env k) (start k)).Reachable (s.terms k)) (k : ι)
    : (Term.machine (env k) (start k)).Reachable (Function.update s.terms i t k) := by
  by_cases hki : k = i
  . subst hki
    rw [Function.update_self]
    exact (hs k).step trivial hstep
  . rw [Function.update_of_ne hki]
    exact hs k

theorem handle_terms {i : ι} {n : Notice ι} (h : s.handle env i n = some s')
    : ∃ input t, Term.step (env i) (s.terms i) input = some t
        ∧ s'.terms = Function.update s.terms i t ∧ s'.inbox = s.inbox := by
  unfold Net.handle at h
  cases n with
  | request requestor utf8 =>
    obtain ⟨t, ht, rfl⟩ := Option.map_eq_some_iff.mp h
    exact ⟨_, t, ht, rfl, rfl⟩
  | notify utf8 refused =>
    cases refused with
    | true =>
      obtain ⟨t, ht, rfl⟩ := Option.map_eq_some_iff.mp h
      exact ⟨_, t, ht, rfl, rfl⟩
    | false =>
      dsimp only at h
      split at h
      . obtain ⟨t, ht, rfl⟩ := Option.map_eq_some_iff.mp h
        exact ⟨_, t, ht, rfl, rfl⟩
      . cases h

theorem serve_terms (i : ι) (r : Request ι) (s : Net ι ρ)
    : (s.serve i r).terms = s.terms ∧ s.inbox <+: (s.serve i r).inbox := by
  unfold Net.serve
  cases r with
  | convert utf8 =>
    dsimp only
    split <;> exact ⟨rfl, List.prefix_append _ _⟩
  | notify requestor utf8 refused => exact ⟨rfl, List.prefix_append _ _⟩
  | _ => exact ⟨rfl, List.prefix_refl _⟩

/-- Every terminal goes through states that it can reach by itself. -/
theorem terms_reachable (h : (machine env start).Reachable s) (i : ι)
    : (Term.machine (env i) (start i)).Reachable (s.terms i) := by
  revert i
  apply h.invariant (P := fun s => ∀ i, (Term.machine (env i) (start i)).Reachable (s.terms i))
  . exact fun i => .init
  . intro s input s' hs _ hstep
    cases input with
    | run i input =>
      unfold machine step at hstep
      dsimp only at hstep
      split at hstep
      . cases hstep
      . obtain ⟨t, ht, rfl⟩ := Option.map_eq_some_iff.mp hstep
        exact ran_reachable ht hs
    | serve i =>
      obtain ⟨⟨r, requests⟩, _, rfl⟩ := Option.map_eq_some_iff.mp hstep
      dsimp only
      rw [(serve_terms i r _).left]
      exact hs
    | handle i =>
      obtain ⟨⟨n, inbox⟩, _, hhandle⟩ := Option.bind_eq_some_iff.mp hstep
      obtain ⟨input, t, ht, hterms, _⟩ := handle_terms hhandle
      rw [hterms]
      exact ran_reachable ht hs

theorem lost_eq_countP (i : ι) (s : Net ι ρ)
    : lost i s = s.inbox.countP (fun m => s.deleted m.fst && expects i m) := List.countP_filter

theorem deleted_update {j k : ι} {t : Term.World ρ} {input : Term.Input}
    (hs : (Term.machine (env k) (start k)).Reachable (s.terms k))
    (hstep : Term.step (env k) (s.terms k) input = some t)
    (hterms : s'.terms = Function.update s.terms k t) (hj : s.deleted j = true)
    : j ≠ k ∧ s'.deleted j = true := by
  have hne : j ≠ k := by
    rintro rfl
    have hzero := (Term.Reachable.alive hs).deletes_of_step hstep
    unfold Net.deleted at hj
    rw [hzero] at hj
    cases hj
  refine ⟨hne, ?_⟩
  unfold Net.deleted at hj ⊢
  rw [hterms, Function.update_of_ne hne]
  exact hj

theorem lost_le_of_step (h : (machine env start).Reachable s) {input : Input ι}
    (hstep : step env s input = some s') (i : ι)
    : lost i s ≤ lost i s' := by
  have hs := terms_reachable h
  rw [lost_eq_countP, lost_eq_countP]
  cases input with
  | run k input =>
    unfold step at hstep
    dsimp only at hstep
    split at hstep
    . cases hstep
    . obtain ⟨t, ht, rfl⟩ := Option.map_eq_some_iff.mp hstep
      apply List.countP_mono_left
      intro m _ hm
      rw [Bool.and_eq_true] at hm ⊢
      exact ⟨(deleted_update (hs k) ht rfl hm.left).right, hm.right⟩
  | serve k =>
    obtain ⟨⟨r, requests⟩, _, rfl⟩ := Option.map_eq_some_iff.mp hstep
    obtain ⟨hterms, more, hinbox⟩ := serve_terms k r { s with requests }
    dsimp only at hterms hinbox ⊢
    unfold Net.deleted
    rw [hterms, ← hinbox, List.countP_append]
    exact Nat.le_add_right _ _
  | handle k =>
    obtain ⟨⟨n, inbox⟩, hreceive, hhandle⟩ := Option.bind_eq_some_iff.mp hstep
    obtain ⟨input, t, ht, hterms, hinbox⟩ := handle_terms hhandle
    obtain ⟨before, after, heq, rfl, _⟩ := Wire.receive_eq_some hreceive
    have hkept : ∀ j, s.deleted j = true → j ≠ k ∧ s'.deleted j = true :=
      fun j hj => deleted_update (hs k) ht hterms hj
    have hfirst : s.deleted k = false := by
      cases hk : s.deleted k with
      | false => rfl
      | true => exact absurd rfl (hkept k hk).left
    dsimp only at hinbox
    rw [hinbox, countP_of_eq heq, hfirst, Bool.false_and, if_neg Bool.false_ne_true, Nat.add_zero]
    apply List.countP_mono_left
    intro m _ hm
    rw [Bool.and_eq_true] at hm ⊢
    exact ⟨(hkept m.fst hm.left).right, hm.right⟩

theorem lost_le (h : (machine env start).Reachable s) {inputs : List (Input ι)}
    (hrun : (machine env start).run s inputs = some s') (i : ι)
    : lost i s ≤ lost i s' := by
  refine (Exec.Machine.run_invariant
    (P := fun t => (machine env start).Reachable t ∧ lost i s ≤ lost i t) ?_ ⟨h, Nat.le_refl _⟩
    (Exec.Machine.runOk_true s inputs) hrun).right
  rintro s₁ input s₂ ⟨hreach, hle⟩ _ hstep
  exact ⟨hreach.step trivial hstep, Nat.le_trans hle (lost_le_of_step hreach hstep i)⟩

end Lost

section Exchange

variable [DecidableEq ι] {env : ι → Term.Env ρ} {start : ι → Term.Start} {s s' : Net ι ρ}

theorem view_init (env : ι → Term.Env ρ) (start : ι → Term.Start) (i : ι)
    : view i (machine env start).init = ⟨0, [], [], none, [], [], []⟩ := rfl

-- A terminal only asks when nothing is under way for it.
def Patient (env : ι → Term.Env ρ) (i : ι) (s : Net ι ρ) (input : Input ι) : Prop :=
  match step env s input with
  | some s' => (view i s).asked < (view i s').asked → (view i s).waits = 0
  | none => True

instance (env : ι → Term.Env ρ) (i : ι) (s : Net ι ρ) (input : Input ι)
    : Decidable (Patient env i s input) := by
  unfold Patient
  cases step env s input <;> infer_instance

theorem Patient.of_step {input : Input ι} (h : Patient env i s input)
    (hstep : step env s input = some s')
    : (view i s).asked < (view i s').asked → (view i s).waits = 0 := by
  unfold Patient at h
  rw [hstep] at h
  exact h

theorem Reaches.talk (h : (machine env start).Reaches (Patient env i) s) : Talk i (view i s) := by
  apply h.invariant (P := fun s => Talk i (view i s))
  . rw [view_init]
    exact .idle rfl rfl rfl ⟨rfl, rfl⟩
  . intro s input s' hs hok hstep
    exact (moves_of_step hstep i).talk hs (hok.of_step hstep)

-- What a terminal pastes is what it writes to its program, between the markers if those are wanted.
theorem paste_written_eq (env : Term.Env ρ) (text : List UInt8) (t : Term.World ρ)
    : Term.written (Term.windowHandleSelectionNotifyEvent env (.property text) t)
        = Term.written t ++
          if t.term.scr.bracketedPaste then Term.pasteStart ++ (text ++ Term.pasteStop) else text := by
  cases hpaste : t.term.scr.bracketedPaste with
  | true =>
    rw [Term.paste_written env text t hpaste, List.append_nil]
    rfl
  | false =>
    have hsame := Term.windowWriteToPty_bracketedPaste env text t
    unfold Term.windowHandleSelectionNotifyEvent
    dsimp only
    rw [hpaste, if_neg Bool.false_ne_true, if_neg Bool.false_ne_true, hsame, hpaste,
      if_neg Bool.false_ne_true]
    apply Term.windowWriteToPty_written

theorem written_of_pastes {text : List UInt8} (h : step env s (.handle i) = some s')
    (hheard : s'.heard = s.heard ++ [(i, some text)])
    : Term.written (s'.terms i) = Term.written (s.terms i) ++
        if (s.terms i).term.scr.bracketedPaste then
          Term.pasteStart ++ (text ++ Term.pasteStop)
        else
          text := by
  cases steps_of_step h with
  | answers _ _ =>
    have hlength := congrArg List.length hheard
    simp [Net.ran] at hlength
  | @refused _ utf8 _ _ _ _ =>
    dsimp only at hheard
    cases utf8 with
    | true =>
      have hlength := congrArg List.length hheard
      simp at hlength
    | false =>
      have hlast := List.append_cancel_left hheard
      cases hlast
  | pastes hreceive hterm =>
    have hlast := List.append_cancel_left hheard
    cases hlast
    change Term.written (Function.update s.terms i _ i) = _
    rw [Function.update_self, hterm]
    apply paste_written_eq

/--
What a terminal has pasted that waits for one paste before it asks for the next one, whatever the others
do: when nothing is under way for it, the answers that it was given, each once and in their order, and
each by the terminal that owned the selection when the X server saw the request. Only an owner
without a text makes it paste again what it has pasted last.
-/
theorem pasted_eq_texts (h : (machine env start).Reaches (Patient env i) s)
    (hwaits : (view i s).waits = 0)
    : (view i s).pasted = texts none ((view i s).told.map Answer.contents)
        ∧ (view i s).told.map Answer.owner = (view i s).routed := by
  obtain ⟨_, _, hrouted, hheard⟩ := (Reaches.talk h).idle_of_waits hwaits
  exact ⟨hheard.pasted, hrouted.symm⟩

end Exchange

namespace Plain

-- As many letters as there are columns, and `NULL` for none.
def letters : Term.Screen Unit → Term.Loc → Term.Loc → Option (List UInt8) :=
  fun _ start stop =>
    if start.col < stop.col then some (List.replicate (stop.col - start.col).toNat 0x61) else none

def env (_ : Bool) : Term.Env Unit :=
  { Term.Plain.env with vt100 := { Term.Plain.env.vt100 with getStringPlaintext := letters } }

def net : Exec.Machine (Net Bool Unit) (Input Bool) := machine env (fun _ => Term.Plain.start)

def button (button : Term.Button) (x : Int) : Term.Input :=
  .event false (.button { press := true, button, state := Term.Plain.noModifiers, x, y := 0 })

def drag (x : Int) : Term.Input :=
  .event false (.motion { state := Term.Plain.noModifiers, x, y := 0 })

def pasteFrom (i j : Bool) : List (Input Bool) :=
  [.run i (button .button2 0), .serve i, .handle j, .serve j, .serve j, .handle i]

-- The first terminal selects two columns, and later only clicks.
def pastes : List (Input Bool) :=
  [.run false (.windowReady 0), .run false (.event false .expose), .run false (button .button1 0),
    .run false (drag 2), .serve false, .run true (.windowReady 0)]
    ++ pasteFrom true false
    ++ [.run false (button .button1 5), .run true (button .button2 0), .serve true, .handle false,
      .serve false, .handle true]

-- The owner is closed with a request in its queue.
def pasteOfClosed : List (Input Bool) :=
  pastes ++
    [.run true (button .button2 0), .serve true,
      .run false (.event false (.clientMessage .deleteWindow)), .run false (.ptyReady 1 none)]

-- Nobody owns the selection after that.
def pasteOfNobody : List (Input Bool) :=
  [.serve false, .run true (button .button2 0), .serve true, .handle true, .serve true, .handle true]

end Plain

theorem pasted_eq_texts_pastes
    : ∃ s, Plain.net.run Plain.net.init Plain.pastes = some s
        ∧ (view true s).told = [⟨true, false, some [0x61, 0x61]⟩, ⟨true, false, none⟩]
        ∧ (view true s).pasted = [[0x61, 0x61], [0x61, 0x61]] := by
  have ⟨s, hrun, hwaits, htold⟩ : ∃ s, Plain.net.run Plain.net.init Plain.pastes = some s ∧
      (view true s).waits = 0 ∧
        (view true s).told = [⟨true, false, some [0x61, 0x61]⟩, ⟨true, false, none⟩] :=
    Exec.Machine.exists_run (by decide +kernel)
  have hok : Plain.net.RunOk (Patient Plain.env true) Plain.net.init Plain.pastes := by
    decide +kernel
  have hpasted := (pasted_eq_texts (Exec.Machine.Reaches.init.run hok hrun) hwaits).left
  rw [htold] at hpasted
  exact ⟨s, hrun, htold, hpasted⟩

end Exchange
end Xlib
end Runes
