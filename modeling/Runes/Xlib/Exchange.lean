import Mathlib.Logic.Function.Basic
import Runes.Term.Conversions
import Runes.Wire.Channels

/-!
This module contains terminals in different processes that paste from each other. What a terminal does is
what its callbacks do; here are the X server in between and the events that it sends. The X server
handles the requests of one terminal in their order, but not those of different ones. Other clients may
ask for the selection, but none of them owns it.
-/

namespace Runes
namespace Xlib
namespace Exchange

variable {ι ρ : Type}

inductive Request (ι : Type) where
  | setOwner
  -- `XDestroyWindow`, at the end of the terminal
  | destroy
  -- `XConvertSelection`
  | convert (utf8 : Bool)
  -- `XChangeProperty` and `XSendEvent`, with the window of the terminal that has asked
  | change (requestor : ι) (contents : List UInt8)
  | notify (requestor : ι) (utf8 refused : Bool)
  deriving DecidableEq

-- The events `SelectionRequest` and `SelectionNotify`
inductive Notice (ι : Type) where
  | request (requestor : ι) (utf8 : Bool)
  | notify (utf8 refused : Bool)
  deriving DecidableEq

structure Answer (ι : Type) where
  requestor : ι
  owner : ι
  contents : Option (List UInt8)
  deriving DecidableEq

structure Net (ι ρ : Type) where
  terms : ι → Term.World ρ
  -- The requests that the X server has not handled yet, and the events that it has sent.
  requests : List (ι × Request ι)
  inbox : List (ι × Notice ι)
  owner : Option ι
  -- The property `RUNES_SELECTION` of the window of each terminal.
  property : ι → Option (List UInt8)
  -- What follows is only recorded: where the X server has sent a request, what the owners have answered,
  -- and what has been pasted, or nothing if there was no owner.
  routed : List (ι × ι)
  told : List (Answer ι)
  heard : List (ι × Option (List UInt8))

inductive Input (ι : Type) where
  -- A terminal goes on, other than with an event that is on its way to it here.
  | run (i : ι) (input : Term.Input)
  | serve (i : ι)
  | handle (i : ι)

-- The request that an action is, with the terminal that has asked if it is an answer.
def requestOf (asker : Option (ι × Bool)) (a : Term.Action) : Option (Request ι) :=
  match a, asker with
  | .setSelectionOwner, _ => some .setOwner
  | .convertSelection utf8, _ => some (.convert utf8)
  | .selectionContents contents, some (requestor, _) => some (.change requestor contents)
  | .selectionNotify refused, some (requestor, utf8) => some (.notify requestor utf8 refused)
  | _, _ => none

def newRequests (asker : Option (ι × Bool)) (t t' : Term.World ρ) : List (Request ι) :=
  (t'.log.drop t.log.length).filterMap (requestOf asker)
    ++ if t.deletes < t'.deletes then [.destroy] else []

variable [DecidableEq ι]

def Net.ran (i : ι) (asker : Option (ι × Bool)) (t : Term.World ρ) (s : Net ι ρ) : Net ι ρ :=
  { s with
    terms := Function.update s.terms i t
    requests := s.requests ++ (newRequests asker (s.terms i) t).map (i, ·) }

def Net.serve (i : ι) (r : Request ι) (s : Net ι ρ) : Net ι ρ :=
  match r with
  | .setOwner => { s with owner := some i }
  | .destroy => { s with owner := if s.owner = some i then none else s.owner }
  | .convert utf8 =>
    match s.owner with
    | some j => { s with inbox := s.inbox ++ [(j, .request i utf8)], routed := s.routed ++ [(i, j)] }
    | none => { s with inbox := s.inbox ++ [(i, .notify utf8 true)] }
  | .change requestor contents =>
    { s with property := Function.update s.property requestor (some contents) }
  | .notify requestor utf8 refused =>
    { s with inbox := s.inbox ++ [(requestor, .notify utf8 refused)] }

def Net.handle (env : ι → Term.Env ρ) (i : ι) (n : Notice ι) (s : Net ι ρ) : Option (Net ι ρ) :=
  let step := fun e => Term.step (env i) (s.terms i) (.event false e)
  match n with
  | .request requestor utf8 =>
    let contents := (s.terms i).term.display.selectionContents
    (step (.selectionRequest (if utf8 then .utf8String else .string))).map fun t =>
      { s.ran i (some (requestor, utf8)) t with told := s.told ++ [⟨requestor, i, contents⟩] }
  | .notify utf8 true =>
    (step (.selectionNotify (.none utf8))).map fun t =>
      { s.ran i none t with heard := if utf8 then s.heard else s.heard ++ [(i, none)] }
  | .notify _ false =>
    -- `XGetWindowProperty` waits for its answer, after everything that the terminal has asked before.
    match Wire.receive i s.requests with
    | none =>
      let text := (s.property i).getD []
      (step (.selectionNotify (.property text))).map fun t =>
        { s.ran i none t with heard := s.heard ++ [(i, some text)] }
    | some _ => none

def step (env : ι → Term.Env ρ) (s : Net ι ρ) (input : Input ι) : Option (Net ι ρ) :=
  match input with
  | .run i input =>
    if input.isNotify then
      none
    else
      (Term.step (env i) (s.terms i) input).map fun t => s.ran i none t
  | .serve i =>
    (Wire.receive i s.requests).map fun (r, requests) => { s with requests }.serve i r
  | .handle i =>
    (Wire.receive i s.inbox).bind fun (n, inbox) => { s with inbox }.handle env i n

def machine (env : ι → Term.Env ρ) (start : ι → Term.Start)
    : Exec.Machine (Net ι ρ) (Input ι) where
  init :=
    {
      terms := fun i => (Term.machine (env i) (start i)).init
      requests := []
      inbox := []
      owner := none
      property := fun _ => none
      routed := []
      told := []
      heard := []
    }
  step := step env

end Exchange
end Xlib
end Runes
