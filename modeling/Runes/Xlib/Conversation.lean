import Runes.Xlib.Exchange

/-!
This module contains what there is of one terminal that pastes in all of the exchange: how often it has
asked, what is under way for it, and what it has heard. What the others do is seen in it as one of a few
moves.
-/

namespace Runes
namespace Xlib
namespace Exchange

variable {ι ρ : Type} [DecidableEq ι]

-- A request about the selection that terminal `i` has asked for.
def about (i : ι) (m : ι × Request ι) : Bool :=
  match m.snd with
  | .convert _ => m.fst = i
  | .change requestor _ => requestor = i
  | .notify requestor _ _ => requestor = i
  | _ => false

def expects (i : ι) (m : ι × Notice ι) : Bool :=
  match m.snd with
  | .request requestor _ => requestor = i
  | .notify _ _ => m.fst = i

structure View (ι : Type) where
  asked : Nat
  requests : List (ι × Request ι)
  notices : List (ι × Notice ι)
  property : Option (List UInt8)
  routed : List ι
  told : List (Answer ι)
  heard : List (Option (List UInt8))

def view (i : ι) (s : Net ι ρ) : View ι :=
  {
    asked := (s.terms i).log.count (.convertSelection true)
    requests := s.requests.filter (about i)
    notices := s.inbox.filter (expects i)
    property := s.property i
    routed := (s.routed.filter (fun r => r.fst = i)).map Prod.snd
    told := s.told.filter (fun a => a.requestor = i)
    heard := (s.heard.filter (fun h => h.fst = i)).map Prod.snd
  }

/--
How a conversation goes on. What is received is the first in the channel of its sender, or of the one
that it was sent to.
-/
inductive Moves (i : ι) (v : View ι) : View ι → Prop where
  | stays : Moves i v v
  | asks : Moves i v
      { v with asked := v.asked + 1, requests := v.requests ++ [(i, .convert true)] }
  | routes {before after : List (ι × Request ι)} {utf8 : Bool} (j : ι)
      (heq : v.requests = before ++ (i, .convert utf8) :: after) (hfst : ∀ m ∈ before, m.fst ≠ i)
      : Moves i v
          { v with
            requests := before ++ after
            notices := v.notices ++ [(j, .request i utf8)]
            routed := v.routed ++ [j] }
  | fails {before after : List (ι × Request ι)} {utf8 : Bool}
      (heq : v.requests = before ++ (i, .convert utf8) :: after) (hfst : ∀ m ∈ before, m.fst ≠ i)
      : Moves i v
          { v with
            requests := before ++ after
            notices := v.notices ++ [(i, .notify utf8 true)] }
  | changes {before after : List (ι × Request ι)} {j : ι} {contents : List UInt8}
      (heq : v.requests = before ++ (j, .change i contents) :: after)
      (hfst : ∀ m ∈ before, m.fst ≠ j)
      : Moves i v { v with requests := before ++ after, property := some contents }
  | notifies {before after : List (ι × Request ι)} {j : ι} {utf8 refused : Bool}
      (heq : v.requests = before ++ (j, .notify i utf8 refused) :: after)
      (hfst : ∀ m ∈ before, m.fst ≠ j)
      : Moves i v
          { v with
            requests := before ++ after
            notices := v.notices ++ [(i, .notify utf8 refused)] }
  | answers {before after : List (ι × Notice ι)} {j : ι} {utf8 : Bool}
      (contents : Option (List UInt8))
      (heq : v.notices = before ++ (j, .request i utf8) :: after) (hfst : ∀ m ∈ before, m.fst ≠ j)
      : Moves i v
          { v with
            requests := v.requests ++ (contents.toList.map (fun c => (j, .change i c))
              ++ [(j, .notify i utf8 false)])
            notices := before ++ after
            told := v.told ++ [⟨i, j, contents⟩] }
  | retries {before after : List (ι × Notice ι)}
      (heq : v.notices = before ++ (i, .notify true true) :: after)
      (hfst : ∀ m ∈ before, m.fst ≠ i)
      : Moves i v
          { v with
            requests := v.requests ++ [(i, .convert false)]
            notices := before ++ after }
  | givesUp {before after : List (ι × Notice ι)}
      (heq : v.notices = before ++ (i, .notify false true) :: after)
      (hfst : ∀ m ∈ before, m.fst ≠ i)
      : Moves i v { v with notices := before ++ after, heard := v.heard ++ [none] }
  | pastes {before after : List (ι × Notice ι)} {utf8 : Bool}
      (heq : v.notices = before ++ (i, .notify utf8 false) :: after)
      (hfst : ∀ m ∈ before, m.fst ≠ i)
      : Moves i v
          { v with
            notices := before ++ after
            heard := v.heard ++ [some (v.property.getD [])] }

omit [DecidableEq ι] in
theorem Moves.of_eq {i : ι} {v v' : View ι} (h : v' = v) : Moves i v v' := h ▸ .stays

section Requests

variable {asker : Option (ι × Bool)} {t t' : Term.World ρ} {new : List Term.Action}

theorem filter_newRequests (h : t'.log = t.log ++ new) (asker : Option (ι × Bool)) (k i : ι)
    : ((newRequests asker t t').map (k, ·)).filter (about i)
        = ((new.filterMap (requestOf asker)).map (k, ·)).filter (about i) := by
  unfold newRequests
  rw [h, List.drop_left, List.map_append, List.filter_append]
  have hdestroy : ((if t.deletes < t'.deletes then [Request.destroy] else []).map
      (fun r => (k, r))).filter (about i) = [] := by
    split
    . rfl
    . rfl
  rw [hdestroy, List.append_nil]

-- Of what a terminal does for itself, only that it asks is a request about the selection.
theorem filter_requestOf_none (new : List Term.Action) (k i : ι)
    : ((new.filterMap (requestOf none)).map (k, ·)).filter (about i)
        = (((new.filter Term.Action.isConvert).filterMap (requestOf none)).map (k, ·)).filter
            (about i) := by
  induction new with
  | nil => rfl
  | cons a new ih =>
    cases a with
    | convertSelection utf8 =>
      have hconvert : Term.Action.isConvert (.convertSelection utf8) = true := rfl
      have hrequest : requestOf none (.convertSelection utf8)
          = some (Request.convert utf8 : Request ι) := rfl
      rw [List.filter_cons_of_pos hconvert, List.filterMap_cons_some hrequest,
        List.filterMap_cons_some hrequest, List.map_cons, List.map_cons, List.filter_cons,
        List.filter_cons, ih]
    | setSelectionOwner => exact ih
    | _ => exact ih

omit [DecidableEq ι] in
theorem requestOf_of_unselected (h : ∀ a ∈ new, a.Unselected)
    : new.filterMap (requestOf (none : Option (ι × Bool))) = [] := by
  rw [List.filterMap_eq_nil_iff]
  intro a ha
  obtain ⟨hconvert, howner⟩ := h a ha
  cases a with
  | convertSelection utf8 => cases hconvert
  | setSelectionOwner => exact absurd rfl howner
  | _ => rfl

omit [DecidableEq ι] in
theorem requestOf_answer (contents : Option (List UInt8)) (requestor : ι) (utf8 : Bool)
    : (contents.toList.map Term.Action.selectionContents
          ++ [Term.Action.selectionNotify false]).filterMap
          (requestOf (some (requestor, utf8)))
        = contents.toList.map (.change requestor ·) ++ [.notify requestor utf8 false] := by
  cases contents with
  | none => rfl
  | some text => rfl

end Requests

section Steps

inductive Steps (env : ι → Term.Env ρ) (s : Net ι ρ) : Input ι → Net ι ρ → Prop where
  | runs {i : ι} {input : Term.Input} {t : Term.World ρ}
      (h : Term.step (env i) (s.terms i) input = some t) (hinput : input.isNotify = false)
      : Steps env s (.run i input) (s.ran i none t)
  | serves {i : ι} {r : Request ι} {requests : List (ι × Request ι)}
      (h : Wire.receive i s.requests = some (r, requests))
      : Steps env s (.serve i) (Net.serve i r { s with requests })
  | answers {i requestor : ι} {utf8 : Bool} {inbox : List (ι × Notice ι)} {t : Term.World ρ}
      (h : Wire.receive i s.inbox = some (.request requestor utf8, inbox))
      (hlog : t.log = (s.terms i).log ++
        ((s.terms i).term.display.selectionContents.toList.map .selectionContents
          ++ [.selectionNotify false]))
      : Steps env s (.handle i)
          { Net.ran i (some (requestor, utf8)) t { s with inbox } with
            told := s.told ++ [⟨requestor, i, (s.terms i).term.display.selectionContents⟩] }
  | refused {i : ι} {utf8 : Bool} {inbox : List (ι × Notice ι)} {t : Term.World ρ}
      (h : Wire.receive i s.inbox = some (.notify utf8 true, inbox))
      (hlog : t.log = (s.terms i).log ++ if utf8 then [.convertSelection false] else [])
      : Steps env s (.handle i)
          { Net.ran i none t { s with inbox } with
            heard := if utf8 then s.heard else s.heard ++ [(i, none)] }
  | pastes {i : ι} {utf8 : Bool} {inbox : List (ι × Notice ι)} {t : Term.World ρ}
      (h : Wire.receive i s.inbox = some (.notify utf8 false, inbox))
      (hterm : t = Term.windowHandleSelectionNotifyEvent (env i)
        (.property ((s.property i).getD [])) (s.terms i))
      : Steps env s (.handle i)
          { Net.ran i none t { s with inbox } with
            heard := s.heard ++ [(i, some ((s.property i).getD []))] }

variable {env : ι → Term.Env ρ} {s s' : Net ι ρ}

theorem steps_handle {i : ι} (h : step env s (.handle i) = some s')
    : Steps env s (.handle i) s' := by
  obtain ⟨⟨n, inbox⟩, hreceive, hhandle⟩ := Option.bind_eq_some_iff.mp h
  unfold Net.handle at hhandle
  cases n with
  | request requestor utf8 =>
    obtain ⟨t, ht, rfl⟩ := Option.map_eq_some_iff.mp hhandle
    refine .answers hreceive ?_
    cases utf8 with
    | true =>
      rw [Term.eq_of_step_event rfl ht]
      exact Term.windowHandleSelectionRequestEvent_log .utf8String (s.terms i)
    | false =>
      rw [Term.eq_of_step_event rfl ht]
      exact Term.windowHandleSelectionRequestEvent_log .string (s.terms i)
  | notify utf8 refused =>
    cases refused with
    | true =>
      obtain ⟨t, ht, rfl⟩ := Option.map_eq_some_iff.mp hhandle
      refine .refused hreceive ?_
      rw [Term.eq_of_step_event rfl ht]
      cases utf8 with
      | true => rfl
      | false => exact (List.append_nil _).symm
    | false =>
      dsimp only at hhandle
      split at hhandle
      . obtain ⟨t, ht, rfl⟩ := Option.map_eq_some_iff.mp hhandle
        exact .pastes hreceive (Term.eq_of_step_event rfl ht)
      . cases hhandle

theorem steps_of_step {input : Input ι} (h : step env s input = some s') : Steps env s input s' := by
  cases input with
  | run i input =>
    unfold step at h
    dsimp only at h
    split at h
    . cases h
    . next hinput =>
      obtain ⟨t, ht, rfl⟩ := Option.map_eq_some_iff.mp h
      exact .runs ht (Bool.eq_false_iff.mpr hinput)
  | serve i =>
    obtain ⟨⟨r, requests⟩, hreceive, rfl⟩ := Option.map_eq_some_iff.mp h
    exact .serves hreceive
  | handle i => exact steps_handle h

end Steps

section Moves

variable {env : ι → Term.Env ρ} {s s' : Net ι ρ} {i : ι}

theorem view_ran {k : ι} {t : Term.World ρ} {new : List Term.Action}
    (hlog : t.log = (s.terms k).log ++ new) (asker : Option (ι × Bool)) (i : ι)
    : view i (s.ran k asker t)
        =
      { view i s with
        asked := (view i s).asked + if k = i then new.count (.convertSelection true) else 0
        requests := (view i s).requests
          ++ ((new.filterMap (requestOf asker)).map (k, ·)).filter (about i) } := by
  unfold view Net.ran
  dsimp only
  rw [List.filter_append, filter_newRequests hlog, Function.update_apply]
  by_cases heq : k = i
  . rw [if_pos heq.symm, if_pos heq, hlog, List.count_append, heq]
  . rw [if_neg (Ne.symm heq), if_neg heq, Nat.add_zero]

theorem moves_runs {k : ι} {t : Term.World ρ} (h : Term.Asks (s.terms k) t)
    : Moves i (view i s) (view i (s.ran k none t)) := by
  obtain ⟨new, hlog, hnew⟩ := h
  have hcount : new.count (.convertSelection true)
      = (new.filter Term.Action.isConvert).count (.convertSelection true) := by
    rw [List.count_filter rfl]
  rw [view_ran hlog, filter_requestOf_none, hcount]
  rcases hnew with hnil | hone
  . rw [hnil]
    apply Moves.of_eq
    simp
  . rw [hone]
    by_cases heq : k = i
    . subst heq
      have hasks : (([Term.Action.convertSelection true].filterMap (requestOf none)).map
          (k, ·)).filter (about k) = [(k, .convert true)] := by
        simp [requestOf, about]
      rw [hasks, if_pos rfl]
      exact .asks
    . apply Moves.of_eq
      simp [requestOf, about, heq]

-- What is not about a conversation leaves it alone, and what is about it is taken out of its requests.
theorem filter_requests {k : ι} {r : Request ι} {requests : List (ι × Request ι)}
    (h : Wire.receive k s.requests = some (r, requests))
    : (about i (k, r) = false ∧ requests.filter (about i) = (view i s).requests)
        ∨ (about i (k, r) = true ∧ ∃ before after,
          (view i s).requests = before ++ (k, r) :: after ∧
            requests.filter (about i) = before ++ after ∧ ∀ m ∈ before, m.fst ≠ k) := by
  have hfilter := Wire.filter_receive (about i) h
  cases habout : about i (k, r) with
  | false =>
    rw [habout, if_neg Bool.false_ne_true] at hfilter
    exact .inl ⟨rfl, hfilter⟩
  | true =>
    rw [habout, if_pos rfl] at hfilter
    exact .inr ⟨rfl, hfilter⟩

theorem filter_notices {k : ι} {n : Notice ι} {inbox : List (ι × Notice ι)}
    (h : Wire.receive k s.inbox = some (n, inbox))
    : (expects i (k, n) = false ∧ inbox.filter (expects i) = (view i s).notices)
        ∨ (expects i (k, n) = true ∧ ∃ before after,
          (view i s).notices = before ++ (k, n) :: after ∧
            inbox.filter (expects i) = before ++ after ∧ ∀ m ∈ before, m.fst ≠ k) := by
  have hfilter := Wire.filter_receive (expects i) h
  cases hexpects : expects i (k, n) with
  | false =>
    rw [hexpects, if_neg Bool.false_ne_true] at hfilter
    exact .inl ⟨rfl, hfilter⟩
  | true =>
    rw [hexpects, if_pos rfl] at hfilter
    exact .inr ⟨rfl, hfilter⟩

theorem moves_serves {k : ι} {r : Request ι} {requests : List (ι × Request ι)}
    (h : Wire.receive k s.requests = some (r, requests))
    : Moves i (view i s) (view i (Net.serve k r { s with requests })) := by
  cases r with
  | setOwner =>
    obtain ⟨_, hsame⟩ | ⟨habout, _⟩ := filter_requests (i := i) h
    . apply Moves.of_eq
      exact congrArg (fun r => { view i s with requests := r }) hsame
    . cases habout
  | destroy =>
    obtain ⟨_, hsame⟩ | ⟨habout, _⟩ := filter_requests (i := i) h
    . apply Moves.of_eq
      exact congrArg (fun r => { view i s with requests := r }) hsame
    . cases habout
  | convert utf8 =>
    unfold Net.serve
    obtain ⟨habout, hsame⟩ | ⟨habout, before, after, heq, hrest, hfst⟩ := filter_requests (i := i) h
    . have hne : k ≠ i := of_decide_eq_false habout
      apply Moves.of_eq
      dsimp only
      split
      . simp [view, hsame, expects, hne]
      . simp [view, hsame, expects, hne]
    . obtain rfl : k = i := of_decide_eq_true habout
      dsimp only
      split
      . next j _ =>
        have hmove := Moves.routes j heq hfst
        simpa [view, hrest, expects] using hmove
      . have hmove := Moves.fails heq hfst
        simpa [view, hrest, expects] using hmove
  | change requestor contents =>
    unfold Net.serve
    obtain ⟨habout, hsame⟩ | ⟨habout, before, after, heq, hrest, hfst⟩ := filter_requests (i := i) h
    . have hne : requestor ≠ i := of_decide_eq_false habout
      apply Moves.of_eq
      simp [view, hsame, Function.update_of_ne hne.symm]
    . obtain rfl : requestor = i := of_decide_eq_true habout
      have hmove := Moves.changes heq hfst
      simpa [view, hrest] using hmove
  | notify requestor utf8 refused =>
    unfold Net.serve
    obtain ⟨habout, hsame⟩ | ⟨habout, before, after, heq, hrest, hfst⟩ := filter_requests (i := i) h
    . have hne : requestor ≠ i := of_decide_eq_false habout
      apply Moves.of_eq
      simp [view, hsame, expects, hne]
    . obtain rfl : requestor = i := of_decide_eq_true habout
      have hmove := Moves.notifies heq hfst
      simpa [view, hrest, expects] using hmove

theorem filter_answer (contents : Option (List UInt8)) (k requestor : ι) (utf8 : Bool) (i : ι)
    : ((contents.toList.map (Request.change requestor ·)
          ++ [Request.notify requestor utf8 false]).map (k, ·)).filter (about i)
        =
      if requestor = i then
        contents.toList.map (fun c => (k, .change requestor c)) ++ [(k, .notify requestor utf8 false)]
      else
        [] := by
  cases contents with
  | none => split <;> simp_all [about]
  | some text => split <;> simp_all [about]

theorem moves_answers {k requestor : ι} {utf8 : Bool} {inbox : List (ι × Notice ι)}
    {t : Term.World ρ} {contents : Option (List UInt8)}
    (h : Wire.receive k s.inbox = some (.request requestor utf8, inbox))
    (hlog : t.log = (s.terms k).log ++
      (contents.toList.map .selectionContents ++ [.selectionNotify false]))
    : Moves i (view i s)
        (view i
          { Net.ran k (some (requestor, utf8)) t { s with inbox } with
            told := s.told ++ [⟨requestor, k, contents⟩] }) := by
  have hcount : (contents.toList.map Term.Action.selectionContents
      ++ [Term.Action.selectionNotify false]).count (.convertSelection true) = 0 := by
    rw [List.count_eq_zero]
    intro hmem
    cases Term.unasked_of_mem_answer hmem
  have hran := view_ran (s := { s with inbox }) hlog (some (requestor, utf8)) i
  rw [requestOf_answer, filter_answer, hcount, ite_self, Nat.add_zero] at hran
  have hview : view i { Net.ran k (some (requestor, utf8)) t { s with inbox } with
        told := s.told ++ [⟨requestor, k, contents⟩] }
      = { view i (Net.ran k (some (requestor, utf8)) t { s with inbox }) with
          told := (s.told ++ [Answer.mk requestor k contents]).filter
            (fun a => a.requestor = i) } := rfl
  rw [hview, hran]
  obtain ⟨hexpects, hsame⟩ | ⟨hexpects, before, after, heq, hrest, hfst⟩ :=
    filter_notices (i := i) h
  . have hne : requestor ≠ i := of_decide_eq_false hexpects
    apply Moves.of_eq
    simp [view, hsame, hne]
  . obtain rfl : requestor = i := of_decide_eq_true hexpects
    have hmove := Moves.answers contents heq hfst
    simpa [view, hrest] using hmove

theorem moves_refused {k : ι} {utf8 : Bool} {inbox : List (ι × Notice ι)} {t : Term.World ρ}
    (h : Wire.receive k s.inbox = some (.notify utf8 true, inbox))
    (hlog : t.log = (s.terms k).log ++ if utf8 then [.convertSelection false] else [])
    : Moves i (view i s)
        (view i
          { Net.ran k none t { s with inbox } with
            heard := if utf8 then s.heard else s.heard ++ [(k, none)] }) := by
  have hran := view_ran (s := { s with inbox }) hlog none i
  have hview : view i { Net.ran k none t { s with inbox } with
        heard := if utf8 then s.heard else s.heard ++ [(k, none)] }
      = { view i (Net.ran k none t { s with inbox }) with
          heard := ((if utf8 then s.heard else s.heard ++ [(k, none)]).filter
            (fun h => h.fst = i)).map Prod.snd } := rfl
  rw [hview, hran]
  obtain ⟨hexpects, hsame⟩ | ⟨hexpects, before, after, heq, hrest, hfst⟩ :=
    filter_notices (i := i) h
  . have hne : k ≠ i := of_decide_eq_false hexpects
    apply Moves.of_eq
    cases utf8 with
    | true => simp [view, hsame, hne, requestOf, about]
    | false => simp [view, hsame, hne]
  . obtain rfl : k = i := of_decide_eq_true hexpects
    cases utf8 with
    | true =>
      have hmove := Moves.retries heq hfst
      simpa [view, hrest, requestOf, about] using hmove
    | false =>
      have hmove := Moves.givesUp heq hfst
      simpa [view, hrest] using hmove

theorem moves_pastes {k : ι} {utf8 : Bool} {inbox : List (ι × Notice ι)} {t : Term.World ρ}
    (h : Wire.receive k s.inbox = some (.notify utf8 false, inbox))
    (hlog : Term.Logs Term.Action.Unselected (s.terms k) t)
    : Moves i (view i s)
        (view i
          { Net.ran k none t { s with inbox } with
            heard := s.heard ++ [(k, some ((s.property k).getD []))] }) := by
  obtain ⟨new, hlog, hnew⟩ := hlog
  have hcount : new.count (.convertSelection true) = 0 := by
    rw [List.count_eq_zero]
    intro hmem
    cases (hnew _ hmem).left
  have hran := view_ran (s := { s with inbox }) hlog none i
  rw [requestOf_of_unselected hnew, hcount, ite_self, Nat.add_zero] at hran
  have hview : view i { Net.ran k none t { s with inbox } with
        heard := s.heard ++ [(k, some ((s.property k).getD []))] }
      = { view i (Net.ran k none t { s with inbox }) with
          heard := ((s.heard ++ [(k, some ((s.property k).getD []))]).filter
            (fun h => h.fst = i)).map Prod.snd } := rfl
  rw [hview, hran]
  obtain ⟨hexpects, hsame⟩ | ⟨hexpects, before, after, heq, hrest, hfst⟩ :=
    filter_notices (i := i) h
  . have hne : k ≠ i := of_decide_eq_false hexpects
    apply Moves.of_eq
    simp [view, hsame, hne]
  . obtain rfl : k = i := of_decide_eq_true hexpects
    have hmove := Moves.pastes heq hfst
    simpa [view, hrest] using hmove

/-- Whatever is done in the exchange, a conversation only sees moves of its own. -/
theorem moves_of_step {input : Input ι} (h : step env s input = some s') (i : ι)
    : Moves i (view i s) (view i s') := by
  cases steps_of_step h with
  | runs ht hinput => exact moves_runs ((Term.stepped ht).asks hinput)
  | serves hreceive => exact moves_serves hreceive
  | answers hreceive hlog => exact moves_answers hreceive hlog
  | refused hreceive hlog => exact moves_refused hreceive hlog
  | @pastes k _ _ _ hreceive hterm =>
    apply moves_pastes hreceive
    rw [hterm]
    apply Term.windowHandleSelectionNotifyEvent_property (env k) _ (s.terms k)

end Moves

end Exchange
end Xlib
end Runes
