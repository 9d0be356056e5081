import Runes.Term.PtyBuffer

/-!
This module contains what becomes of the stream of bytes that a program writes to its pty, over all
reads of a terminal, and when the terminal takes the stream to be at its end.
-/

namespace Runes
namespace Term
namespace PtyStream

variable {σ : Type}

structure State (σ : Type) where
  scr : σ
  pty : PtyBuffer
  -- How many bytes `read` was asked for, and what it returned, when the terminal was closed.
  closed : Option (Int × ReadAnswer)
  -- All bytes that were read so far, and those of them that the parser has processed.
  received : List UInt8
  processed : List UInt8

inductive Input (σ : Type) where
  | read (answer : ReadAnswer)
  -- What the terminal does to the screen apart from this.
  | change (scr : σ)

def bytesOf (answer : ReadAnswer) : List UInt8 :=
  match answer with
  | .got buf => buf
  | .failed _ => []

def stepRead (parser : Parser σ) (answer : ReadAnswer) (s : State σ) : State σ :=
  let received := s.received ++ bytesOf answer
  match s.pty.inputCb parser answer s.scr with
  | (true, scr, pty) =>
    let buf := (s.pty.read answer).toProcess
    {
      s with
      scr
      pty
      received
      processed := s.processed ++ buf.take (parser.process s.scr buf).snd
    }
  | (false, scr, pty) => { s with scr, pty, received, closed := some (s.pty.room, answer) }

def step (parser : Parser σ) (s : State σ) (input : Input σ) : Option (State σ) :=
  match input with
  | .read answer =>
    if s.closed = none ∧ s.pty.Legal answer then some (stepRead parser answer s) else none
  | .change scr => some { s with scr }

def machine (parser : Parser σ) (scr : σ) : Exec.Machine (State σ) (Input σ) where
  init := { scr, pty := .new, closed := none, received := [], processed := [] }
  step := step parser

def ends (answer : ReadAnswer) : Prop := ∀ buf, answer = .got buf → buf = []

theorem bytesOf_of_ends {answer : ReadAnswer} (h : ends answer) : bytesOf answer = [] := by
  cases answer with
  | got buf => exact h buf rfl
  | failed lasting => rfl

inductive Took (parser : Parser σ) (s s' : State σ) : Input σ → Prop where
  | reads {buf : List UInt8} (hopen : s.closed = none) (hbuf : buf ≠ []) (hfits : s'.pty.Fits)
      (hscr : s'.scr = (parser.process s.scr (s.pty.rest ++ buf)).fst)
      (hrest : s'.pty.rest
        = (s.pty.rest ++ buf).drop (parser.process s.scr (s.pty.rest ++ buf)).snd)
      (hclosed : s'.closed = none) (hreceived : s'.received = s.received ++ buf)
      (hprocessed : s'.processed = s.processed
        ++ (s.pty.rest ++ buf).take (parser.process s.scr (s.pty.rest ++ buf)).snd)
      : Took parser s s' (.read (.got buf))
  | closes {answer : ReadAnswer} (hends : ends answer) (hfits : s'.pty.Fits)
      (hscr : s'.scr = s.scr) (hrest : s'.pty.rest = s.pty.rest)
      (hclosed : s'.closed = some (s.pty.room, answer)) (hreceived : s'.received = s.received)
      (hprocessed : s'.processed = s.processed)
      : Took parser s s' (.read answer)
  | changes {scr : σ} (h : s' = { s with scr }) : Took parser s s' (.change scr)

theorem step_cases {parser : Parser σ} {s s' : State σ} {input : Input σ} (hfits : s.pty.Fits)
    (h : step parser s input = some s')
    : Took parser s s' input := by
  cases input with
  | change scr =>
    cases h
    exact .changes rfl
  | read answer =>
    unfold step at h
    dsimp only at h
    split at h
    . next hcond =>
      rw [Option.some.injEq] at h
      subst h
      rcases answer.got_or_ends with ⟨buf, hbuf, rfl⟩ | hends
      . have ⟨pty', hcb, hfits', _, hrest⟩ := hfits.inputCb_got parser s.scr hcond.right hbuf
        unfold stepRead
        rw [hcb, hfits.toProcess_read]
        exact .reads hcond.left hbuf hfits' rfl hrest hcond.left rfl rfl
      . have ⟨pty', hcb, hfits', _, hrest⟩ := hfits.inputCb_closes parser s.scr hends
        have hreceived : s.received ++ bytesOf answer = s.received := by
          rw [bytesOf_of_ends hends, List.append_nil]
        unfold stepRead
        rw [hcb]
        exact .closes hends hfits' rfl hrest rfl hreceived rfl
    . cases h

structure Conserved (s : State σ) : Prop where
  bytes : s.processed ++ s.pty.rest = s.received
  nonneg : 0 ≤ s.pty.remaininglen
  le : s.pty.remaininglen ≤ readBufferLength

structure Sound (s : State σ) : Prop where
  fits : s.pty.Fits
  bytes : s.processed ++ s.pty.rest = s.received

theorem Took.sound {parser : Parser σ} {s s' : State σ} {input : Input σ}
    (h : Took parser s s' input) (hs : Sound s)
    : Sound s' := by
  cases h with
  | reads hopen hbuf hfits hscr hrest hclosed hreceived hprocessed =>
    refine ⟨hfits, ?_⟩
    rw [hprocessed, hrest, hreceived, List.append_assoc, List.take_append_drop, ← hs.bytes,
      List.append_assoc]
  | closes hends hfits hscr hrest hclosed hreceived hprocessed =>
    refine ⟨hfits, ?_⟩
    rw [hprocessed, hrest, hreceived, hs.bytes]
  | changes h =>
    subst h
    exact ⟨hs.fits, hs.bytes⟩

theorem sound_init (parser : Parser σ) (scr : σ) : Sound (machine parser scr).init :=
  ⟨PtyBuffer.fits_new, rfl⟩

variable {parser : Parser σ} {scr₀ : σ} {s : State σ}

theorem Reaches.sound {ok : State σ → Input σ → Prop} (h : (machine parser scr₀).Reaches ok s)
    : Sound s :=
  h.invariant (sound_init parser scr₀)
    (fun _ _ _ hs _ hstep => (step_cases hs.fits hstep).sound hs)

theorem Sound.conserved (h : Sound s) : Conserved s := ⟨h.bytes, h.fits.nonneg, h.fits.le⟩

/--
A parser that can be given a stream in pieces: what it has left is given to it again, together with
what follows. Of a screen it sees only what `view` shows.
-/
structure Incremental {τ : Type} (parser : Parser σ) (view : σ → τ) : Prop where
  congr : ∀ scr scr' buf, view scr = view scr' →
    view (parser.process scr buf).fst = view (parser.process scr' buf).fst
      ∧ (parser.process scr buf).snd = (parser.process scr' buf).snd
  append : ∀ scr xs ys,
    let (scr', n) := parser.process scr xs
    view (parser.process scr' (xs.drop n ++ ys)).fst = view (parser.process scr (xs ++ ys)).fst
      ∧ (parser.process scr (xs ++ ys)).snd = n + (parser.process scr' (xs.drop n ++ ys)).snd

-- Nothing but the parser changes what `view` shows of the screen.
def Quiet {τ : Type} (view : σ → τ) (s : State σ) (input : Input σ) : Prop :=
  ∀ scr, input = .change scr → view scr = view s.scr

-- What the parser shows and leaves of a stream that it is given at once.
structure Parsed {τ : Type} (parser : Parser σ) (view : σ → τ) (scr₀ : σ) (bytes : List UInt8)
    (scr : σ) (rest : List UInt8)
    : Prop where
  view : view scr = view (parser.process scr₀ bytes).fst
  rest : rest = bytes.drop (parser.process scr₀ bytes).snd

structure AtOnce {τ : Type} (parser : Parser σ) (view : σ → τ) (scr₀ : σ) (s : State σ) : Prop where
  unread : s.received = [] → view s.scr = view scr₀
  parsed : s.received ≠ [] → Parsed parser view scr₀ s.received s.scr s.pty.rest

section

variable {τ : Type} {view : σ → τ} {scr : σ} {buf : List UInt8}

theorem Parsed.first (hp : Incremental parser view) (hview : view scr = view scr₀)
    : Parsed parser view scr₀ buf (parser.process scr buf).fst
        (buf.drop (parser.process scr buf).snd) := by
  have ⟨hfst, hsnd⟩ := hp.congr scr scr₀ buf hview
  exact ⟨hfst, by rw [hsnd]⟩

theorem Parsed.next {bytes rest : List UInt8} (h : Parsed parser view scr₀ bytes scr rest)
    (hp : Incremental parser view)
    : Parsed parser view scr₀ (bytes ++ buf) (parser.process scr (rest ++ buf)).fst
        ((rest ++ buf).drop (parser.process scr (rest ++ buf)).snd) := by
  have ⟨hfst, hsnd⟩ := hp.congr scr _ (rest ++ buf) h.view
  have ⟨hview, hcount⟩ := hp.append scr₀ bytes buf
  have hle := parser.processed_le scr₀ bytes
  rw [← h.rest] at hview hcount
  constructor
  . rw [hfst, hview]
  . rw [hcount, hsnd, ← List.drop_drop, List.drop_append_of_le_length hle, h.rest]

theorem Took.atOnce (hp : Incremental parser view) {s' : State σ} {input : Input σ}
    (h : Took parser s s' input) (hquiet : Quiet view s input) (hsound : Sound s)
    (hs : AtOnce parser view scr₀ s)
    : AtOnce parser view scr₀ s' := by
  cases h with
  | reads hopen hbuf hfits hscr hrest hclosed hreceived hprocessed =>
    refine ⟨fun hnil => ?_, fun _ => ?_⟩
    . simp [hreceived, hbuf] at hnil
    . rw [hscr, hrest, hreceived]
      by_cases hfirst : s.received = []
      . have hbytes := hsound.bytes
        rw [hfirst, List.append_eq_nil_iff] at hbytes
        rw [hfirst, hbytes.right, List.nil_append]
        apply Parsed.first hp (hs.unread hfirst)
      . apply (hs.parsed hfirst).next hp
  | closes hends hfits hscr hrest hclosed hreceived hprocessed =>
    constructor
    . rw [hreceived, hscr]
      exact hs.unread
    . rw [hreceived, hscr, hrest]
      exact hs.parsed
  | changes h =>
    have hview := hquiet _ rfl
    subst h
    constructor
    . intro hnil
      apply hview.trans (hs.unread hnil)
    . intro hne
      have hparsed := hs.parsed hne
      exact ⟨hview.trans hparsed.view, hparsed.rest⟩

theorem Reaches.atOnce (hp : Incremental parser view)
    (h : (machine parser scr₀).Reaches (Quiet view) s)
    : AtOnce parser view scr₀ s := by
  have hboth : Sound s ∧ AtOnce parser view scr₀ s := by
    apply h.invariant
    . exact ⟨sound_init parser scr₀, fun _ => rfl, fun hne => absurd rfl hne⟩
    . intro s input s' ⟨hsound, hs⟩ hquiet hstep
      have htook := step_cases hsound.fits hstep
      exact ⟨htook.sound hsound, htook.atOnce hp hquiet hsound hs⟩
  exact hboth.right

theorem AtOnce.unique {s₁ s₂ : State σ} (h₁ : AtOnce parser view scr₀ s₁)
    (h₂ : AtOnce parser view scr₀ s₂) (hsound₁ : Sound s₁) (hsound₂ : Sound s₂)
    (heq : s₁.received = s₂.received)
    : view s₁.scr = view s₂.scr ∧ s₁.pty.rest = s₂.pty.rest := by
  by_cases hnil : s₂.received = []
  . have hbytes₁ := hsound₁.bytes
    have hbytes₂ := hsound₂.bytes
    rw [heq, hnil, List.append_eq_nil_iff] at hbytes₁
    rw [hnil, List.append_eq_nil_iff] at hbytes₂
    rw [h₁.unread (heq.trans hnil), h₂.unread hnil, hbytes₁.right, hbytes₂.right]
    exact ⟨rfl, rfl⟩
  . have hparsed₁ := h₁.parsed (heq ▸ hnil)
    have hparsed₂ := h₂.parsed hnil
    rw [heq] at hparsed₁
    exact ⟨hparsed₁.view.trans hparsed₂.view.symm, hparsed₁.rest.trans hparsed₂.rest.symm⟩

end

/--
In every run the bytes that were processed, followed by the bytes in the buffer, are the bytes that
were read. If the parser is incremental, two runs that read the same bytes end with the same screen
and the same bytes in the buffer, however the reads have cut the stream into pieces.
-/
theorem received_conserved (parser : Parser σ) (scr₀ : σ)
    : (∀ s, (machine parser scr₀).Reachable s → Conserved s)
        ∧
      ∀ {τ : Type} (view : σ → τ), Incremental parser view →
        ∀ s₁ s₂,
          (machine parser scr₀).Reaches (Quiet view) s₁ →
          (machine parser scr₀).Reaches (Quiet view) s₂ →
          s₁.received = s₂.received →
          view s₁.scr = view s₂.scr ∧ s₁.pty.rest = s₂.pty.rest := by
  constructor
  . intro s h
    apply (Reaches.sound h).conserved
  . intro τ view hp s₁ s₂ h₁ h₂ heq
    apply (Reaches.atOnce hp h₁).unique (Reaches.atOnce hp h₂) (Reaches.sound h₁)
      (Reaches.sound h₂) heq

-- A parser that processes its bytes in pairs.
def pairs : Parser (List UInt8) where
  process scr buf := (scr ++ buf.take (buf.length / 2 * 2), buf.length / 2 * 2)
  processed_le scr buf := by
    dsimp only
    omega

theorem incremental_pairs : Incremental pairs id where
  congr scr scr' buf h := by
    cases h
    exact ⟨rfl, rfl⟩
  append scr xs ys := by
    have hcount : (xs ++ ys).length / 2 * 2
        = xs.length / 2 * 2 + (xs.drop (xs.length / 2 * 2) ++ ys).length / 2 * 2 := by
      simp only [List.length_append, List.length_drop]
      omega
    have hle : xs.length / 2 * 2 ≤ xs.length := by omega
    refine ⟨?_, hcount⟩
    dsimp only [pairs, id]
    rw [hcount, List.take_add, List.take_append_of_le_length hle,
      List.drop_append_of_le_length hle, List.append_assoc]

theorem received_conserved_pairs
    : ∃ s₁ s₂,
        (machine pairs []).run (machine pairs []).init
            [.read (.got [1]), .change [], .read (.got [2, 3])] = some s₁
          ∧
        (machine pairs []).run (machine pairs []).init [.read (.got [1, 2, 3])] = some s₂
          ∧
        Conserved s₁
          ∧
        s₁.scr = s₂.scr
          ∧
        s₁.pty.rest = s₂.pty.rest := by
  let M := machine pairs []
  have hquiet₁ : M.RunOk (Quiet id) M.init [.read (.got [1]), .change [], .read (.got [2, 3])] := by
    intro s₁ hstep
    refine ⟨fun scr h => (by cases h), fun s₂ _ => ⟨fun scr h => ?_, fun s₃ _ => ⟨?_, trivial⟩⟩⟩
    . cases h
      cases hstep
      decide +kernel
    . intro scr h
      cases h
  have hquiet₂ : M.RunOk (Quiet id) M.init [.read (.got [1, 2, 3])] :=
    fun _ _ => ⟨fun scr h => (by cases h), trivial⟩
  have ⟨s₁, hrun₁, heq₁⟩ : ∃ s, M.run M.init [.read (.got [1]), .change [], .read (.got [2, 3])]
      = some s ∧ s.received = [1, 2, 3] :=
    Exec.Machine.exists_run (by decide +kernel)
  have ⟨s₂, hrun₂, heq₂⟩ : ∃ s, M.run M.init [.read (.got [1, 2, 3])] = some s
      ∧ s.received = [1, 2, 3] :=
    Exec.Machine.exists_run (by decide +kernel)
  have ⟨hconserved, hunique⟩ := received_conserved pairs []
  have hreach₁ := Exec.Machine.Reaches.init.run hquiet₁ hrun₁
  have hreach₂ := Exec.Machine.Reaches.init.run hquiet₂ hrun₂
  have ⟨hscr, hrest⟩ := hunique id incremental_pairs s₁ s₂ hreach₁ hreach₂ (heq₁.trans heq₂.symm)
  have hall := Exec.Machine.Reaches.init.run (Exec.Machine.runOk_true _ _) hrun₁
  exact ⟨s₁, s₂, hrun₁, hrun₂, hconserved s₁ hall, hscr, hrest⟩

def IsEnd (answer : ReadAnswer) : Prop := answer = .got [] ∨ answer = .failed true

/--
If the terminal was closed, then because `read` was asked for bytes and there were none any more.
-/
def ClosedAtEnd (s : State σ) : Prop :=
  ∀ asked answer, s.closed = some (asked, answer) → 0 < asked ∧ IsEnd answer

/--
There is room in the buffer when the callback reads, and no failure is taken for the last word that
is not.
-/
def HasRoom (s : State σ) (input : Input σ) : Prop :=
  ∀ answer, input = .read answer →
    s.pty.remaininglen < readBufferLength ∧ answer ≠ .failed false

theorem Took.closedAtEnd {s' : State σ} {input : Input σ} (h : Took parser s s' input)
    (hs : ClosedAtEnd s) (hroom : HasRoom s input)
    : ClosedAtEnd s' := by
  cases h with
  | reads hopen hbuf hfits hscr hrest hclosed hreceived hprocessed =>
    intro asked answer heq
    rw [hclosed] at heq
    cases heq
  | @closes answer hends hfits hscr hrest hclosed hreceived hprocessed =>
    intro asked answer' heq
    rw [hclosed] at heq
    cases heq
    have ⟨hlt, hlasting⟩ := hroom answer rfl
    refine ⟨by unfold PtyBuffer.room; omega, ?_⟩
    cases answer with
    | got buf => exact Or.inl (congrArg ReadAnswer.got (hends buf rfl))
    | failed lasting =>
      cases lasting with
      | true => exact Or.inr rfl
      | false => exact absurd rfl hlasting
  | changes h =>
    subst h
    exact hs

-- A callback that has no room to read into cannot get anything but an end.
theorem Took.hasRoom {s' : State σ} {input : Input σ} (hstep : step parser s input = some s')
    (h : Took parser s s' input) (hs : Sound s) (hs' : ClosedAtEnd s')
    : HasRoom s input := by
  intro answer heq
  subst heq
  unfold step at hstep
  dsimp only at hstep
  split at hstep
  . next hcond =>
    have hlegal := hcond.right
    have hle := hs.fits.le
    cases h with
    | @reads buf hopen hbuf hfits hscr hrest hclosed hreceived hprocessed =>
      have hpos := List.length_pos_iff.mpr hbuf
      simp only [PtyBuffer.Legal, PtyBuffer.room] at hlegal
      exact ⟨by omega, by simp⟩
    | closes hends hfits hscr hrest hclosed hreceived hprocessed =>
      obtain ⟨hasked, hend⟩ := hs' _ _ hclosed
      unfold PtyBuffer.room at hasked
      refine ⟨by omega, ?_⟩
      intro hfailed
      subst hfailed
      simp [IsEnd] at hend
  . cases hstep

/--
A terminal is closed only at the end of the stream, exactly if its buffer is never full when it reads
and no call of `read` is interrupted.
-/
theorem closedAtEnd_iff (parser : Parser σ) (scr₀ : σ) (inputs : List (Input σ))
    : (machine parser scr₀).Always ClosedAtEnd (machine parser scr₀).init inputs
        ↔
      (machine parser scr₀).RunOk HasRoom (machine parser scr₀).init inputs := by
  apply Exec.Machine.always_iff_runOk (fun s => Sound s ∧ ClosedAtEnd s)
  . intro s hs
    exact hs.right
  . intro s input s' ⟨hsound, hs⟩ hstep hroom
    have htook := step_cases hsound.fits hstep
    exact ⟨htook.sound hsound, htook.closedAtEnd hs hroom⟩
  . intro s input s' ⟨hsound, _⟩ hstep hs'
    apply Took.hasRoom hstep (step_cases hsound.fits hstep) hsound hs'
  . refine ⟨sound_init parser scr₀, ?_⟩
    intro asked answer heq
    cases heq

-- A parser that leaves a control string where it is until its end has arrived.
def controlStrings : Parser Unit where
  process _ buf := ((), if buf.head? = some 0x1b ∧ 0x07 ∉ buf then 0 else buf.length)
  processed_le _ buf := by
    dsimp only
    split <;> omega

def longControlString : List UInt8 := 0x1b :: List.replicate 4095 0x41

theorem not_closedAtEnd_longControlString
    : ∃ s, (machine controlStrings ()).Reachable s ∧ s.closed = some (0, .got [])
        ∧ ¬ClosedAtEnd s := by
  let M := machine controlStrings ()
  have ⟨s, hrun, heq⟩ : ∃ s, M.run M.init [.read (.got longControlString), .read (.got [])] = some s
      ∧ s.closed = some (0, .got []) :=
    Exec.Machine.exists_run (by decide +kernel)
  refine ⟨s, Exec.Machine.Reaches.init.run (Exec.Machine.runOk_true _ _) hrun, heq, ?_⟩
  intro h
  have ⟨hasked, _⟩ := h _ _ heq
  cases hasked

end PtyStream
end Term
end Runes
