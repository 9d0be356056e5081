import Mathlib.Data.List.Perm.Basic
import Runes.Config.Records

/-!
This module contains what a configuration owns in the memory of the process, and that what is made of it
there is what the options say.
-/

namespace Runes
namespace Config

open Libc Protocol Exec Unix

theorem Slot.mem_all (slot : Slot) : slot ∈ Slot.all := by
  unfold Slot.all
  cases slot with
  | color i =>
    apply List.mem_append_right
    rw [List.mem_map]
    exact ⟨i.toNat, List.mem_range.mpr i.toNat_lt, congrArg Slot.color (UInt8.ofNat_toNat)⟩
  | _ =>
    apply List.mem_append_left
    decide

theorem Slot.nodup_all : Slot.all.Nodup := by
  unfold Slot.all
  rw [List.nodup_append]
  refine ⟨by decide, ?_, ?_⟩
  . apply List.Nodup.map_on _ List.nodup_range
    intro i hi j hj heq
    rw [List.mem_range] at hi hj
    have hnat := congrArg UInt8.toNat (Slot.color.inj heq)
    rw [UInt8.toNat_ofNat_of_lt' hi, UInt8.toNat_ofNat_of_lt' hj] at hnat
    exact hnat
  . intro a ha b hb hab
    obtain ⟨i, _, rfl⟩ := List.mem_map.mp hb
    rw [hab] at ha
    simp at ha

def Record.blocks (r : Record) : List Nat := r.block :: r.fontName :: r.cmd.toList

def Record.patterns (r : Record) : List Nat := Slot.all.map r.pattern

/-- Whatever was in use at first still is, and beside that the record has its own, and others have theirs. -/
structure Owns (base : Memory) (blocks patterns : List Nat) (s : Memory × Record) : Prop where
  heap : base.heap.Allocates s.fst.heap (s.snd.blocks ++ blocks)
  refs : base.refs.Creates s.fst.refs (s.snd.patterns ++ patterns)

/-- The strings and colours that were there before are still what they were. -/
structure Memory.Keeps (m m' : Memory) : Prop where
  next_le : m.heap.next ≤ m'.heap.next
  strings : ∀ a < m.heap.next, m'.strings a = m.strings a
  refs_le : m.refs.next ≤ m'.refs.next
  colors : ∀ p < m.refs.next, m'.colors p = m.colors p

namespace Memory.Keeps

variable {m m' m'' : Memory}

theorem refl (m : Memory) : m.Keeps m := ⟨Nat.le_refl _, fun _ _ => rfl, Nat.le_refl _, fun _ _ => rfl⟩

theorem trans (h : m.Keeps m') (h' : m'.Keeps m'') : m.Keeps m'' where
  next_le := Nat.le_trans h.next_le h'.next_le
  strings a ha := (h'.strings a (Nat.lt_of_lt_of_le ha h.next_le)).trans (h.strings a ha)
  refs_le := Nat.le_trans h.refs_le h'.refs_le
  colors p hp := (h'.colors p (Nat.lt_of_lt_of_le hp h.refs_le)).trans (h.colors p hp)

theorem malloc (size : Nat) (m : Memory) : m.Keeps (m.malloc size).snd :=
  ⟨Nat.le_succ _, fun _ _ => rfl, Nat.le_refl _, fun _ _ => rfl⟩

theorem strdup (s : CString) (m : Memory) : m.Keeps (m.strdup s).snd :=
  ⟨Nat.le_succ _, fun _ ha => Function.update_of_ne (Nat.ne_of_lt ha) _ _, Nat.le_refl _, fun _ _ => rfl⟩

theorem free (addr : Nat) (m : Memory) : m.Keeps (m.free addr) := by
  have hnext : (m.free addr).heap.next = m.heap.next := by
    unfold Memory.free Heap.free
    dsimp only
    split <;> rfl
  exact ⟨Nat.le_of_eq hnext.symm, fun _ _ => rfl, Nat.le_refl _, fun _ _ => rfl⟩

theorem createRgb (color : Rgb) (m : Memory) : m.Keeps (m.createRgb color).snd :=
  ⟨Nat.le_refl _, fun _ _ => rfl, Nat.le_succ _, fun _ hp => Function.update_of_ne (Nat.ne_of_lt hp) _ _⟩

theorem destroy (p : Nat) (m : Memory) : m.Keeps (m.destroy p) :=
  ⟨Nat.le_refl _, fun _ _ => rfl, Nat.le_refl _, fun _ _ => rfl⟩

end Memory.Keeps

section

variable {base m m' : Memory} {blocks patterns : List Nat} {r : Record} {s s' : Memory × Record}

theorem Owns.blocks_lt (h : Owns base blocks patterns s) {a : Nat} (ha : a ∈ s.snd.blocks)
    : a < s.fst.heap.next :=
  (h.heap.bounds a (List.mem_append_left _ ha)).right

theorem Owns.pattern_lt (h : Owns base blocks patterns s) (slot : Slot)
    : s.snd.pattern slot < s.fst.refs.next := by
  have hmem : s.snd.pattern slot ∈ s.snd.patterns := List.mem_map_of_mem (Slot.mem_all slot)
  exact (h.refs.bounds _ (List.mem_append_left _ hmem)).right

/-- A configuration stays what it is as long as nothing of it is touched. -/
theorem config_of_keeps (hblocks : ∀ a ∈ r.blocks, a < m.heap.next)
    (hpatterns : ∀ slot, r.pattern slot < m.refs.next) (h : m.Keeps m')
    : r.config m' = r.config m := by
  have hcolors (slot : Slot) : m'.colors (r.pattern slot) = m.colors (r.pattern slot) :=
    h.colors _ (hpatterns slot)
  have hfont : m'.strings r.fontName = m.strings r.fontName :=
    h.strings _ (hblocks _ (by simp [Record.blocks]))
  have hcmd : r.cmd.map m'.strings = r.cmd.map m.strings := by
    cases hsome : r.cmd with
    | none => rfl
    | some a => exact congrArg some (h.strings a (hblocks a (by simp [Record.blocks, hsome])))
  unfold Record.config
  simp only [hcolors, hfont, hcmd]

theorem patterns_perm (pattern : Slot → Nat) (slot : Slot)
    : (Slot.all.map pattern).Perm (pattern slot :: (Slot.all.erase slot).map pattern) :=
  (List.perm_cons_erase (Slot.mem_all slot)).map pattern

theorem patterns_update (pattern : Slot → Nat) (slot : Slot) (p : Nat)
    : (Slot.all.map (Function.update pattern slot p)).Perm (p :: (Slot.all.erase slot).map pattern) := by
  have hperm := patterns_perm (Function.update pattern slot p) slot
  have hrest : (Slot.all.erase slot).map (Function.update pattern slot p)
      = (Slot.all.erase slot).map pattern := by
    apply List.map_congr_left
    intro other hother
    have hne : other ≠ slot := (Slot.nodup_all.mem_erase_iff.mp hother).left
    exact Function.update_of_ne hne _ _
  rw [Function.update_self, hrest] at hperm
  exact hperm

/-- What a call of `runes_config_set` does to the memory, with the strings that nobody points to any more. -/
structure Sets (base : Memory) (blocks patterns : List Nat) (commands : Nat) (s s' : Memory × Record)
    (lost : List Nat) : Prop where
  owns : Owns base (lost ++ blocks) patterns s'
  keeps : s.fst.Keeps s'.fst
  files : s'.fst.files = s.fst.files
  length_lost : lost.length + s'.snd.cmd.toList.length = s.snd.cmd.toList.length + commands

theorem sets_of_scalar (h : Owns base blocks patterns (m, r)) {r' : Record} (hblocks : r'.blocks = r.blocks)
    (hpatterns : r'.pattern = r.pattern)
    : Sets base blocks patterns 0 (m, r) (m, r') [] where
  owns := by
    refine ⟨?_, ?_⟩
    . dsimp only
      rw [hblocks]
      exact h.heap
    . unfold Record.patterns
      dsimp only
      rw [hpatterns]
      exact h.refs
  keeps := .refl m
  files := rfl
  length_lost := by
    have hcmd : r'.cmd.toList = r.cmd.toList := by
      unfold Record.blocks at hblocks
      simp only [List.cons.injEq] at hblocks
      exact hblocks.right.right
    dsimp only
    rw [hcmd]
    simp

theorem setPattern_sets (h : Owns base blocks patterns s) (slot : Slot) (val : CString)
    : Sets base blocks patterns 0 s (setPattern slot val s) [] := by
  unfold setPattern
  cases (parseColor val).fst with
  | none => exact sets_of_scalar h rfl rfl
  | some color =>
    refine ⟨⟨h.heap, ?_⟩, (Memory.Keeps.createRgb color s.fst).trans (.destroy _ _), rfl, by simp⟩
    have hrest := (patterns_perm s.snd.pattern slot).append_right patterns
    have hcreated := (h.refs.perm hrest).create
    have hdestroyed := (hcreated.perm (List.Perm.swap _ _ _)).destroy
    exact hdestroyed.perm ((patterns_update s.snd.pattern slot s.fst.refs.next).symm.append_right patterns)

theorem setFont_sets (h : Owns base blocks patterns s) (val : CString)
    : Sets base blocks patterns 0 s (setFont val s) [] := by
  refine ⟨⟨?_, h.refs⟩, (Memory.Keeps.free s.snd.fontName s.fst).trans (.strdup _ _), rfl,
    by simp [setFont]⟩
  have hfreed := (h.heap.perm (List.Perm.swap _ _ _)).free
  exact (hfreed.andMalloc (val.bytes.length + 1)).perm (List.Perm.swap _ _ _)

theorem setCommand_sets (h : Owns base blocks patterns s) (val : CString)
    : Sets base blocks patterns 1 s (setCommand val s) s.snd.cmd.toList := by
  refine ⟨⟨?_, h.refs⟩, .strdup _ _, rfl, by simp [setCommand]⟩
  have hallocated := h.heap.andMalloc (val.bytes.length + 1)
  have hmiddle : ([s.snd.block, s.snd.fontName] ++ s.fst.heap.next :: (s.snd.cmd.toList ++ blocks)).Perm
      (s.fst.heap.next :: ([s.snd.block, s.snd.fontName] ++ (s.snd.cmd.toList ++ blocks))) :=
    List.perm_middle
  exact hallocated.perm hmiddle.symm

theorem sets_ite {c : Prop} [Decidable c] {n : Nat} {s' s'' : Memory × Record}
    (hpos : c → ∃ lost, Sets base blocks patterns n s s' lost)
    (hneg : ¬c → ∃ lost, Sets base blocks patterns n s s'' lost)
    : ∃ lost, Sets base blocks patterns n s (if c then s' else s'') lost := by
  split
  . next hc => exact hpos hc
  . next hc => exact hneg hc

-- How many strings a call of `runes_config_set` makes that will never be freed.
def commandCount (key : CString) : Nat := if key.bytes = ascii "command" then 1 else 0

theorem configSetIn_sets (h : Owns base blocks patterns s) (key val : CString)
    : ∃ lost, Sets base blocks patterns (commandCount key) s (configSetIn s key val) lost := by
  obtain ⟨m, r⟩ := s
  have hother {s' : Memory × Record} (hne : key.bytes ≠ ascii "command")
      (hsets : Sets base blocks patterns 0 (m, r) s' [])
      : ∃ lost, Sets base blocks patterns (commandCount key) (m, r) s' lost := by
    unfold commandCount
    rw [if_neg hne]
    exact ⟨[], hsets⟩
  have hname {name : List UInt8} (hkey : key.bytes = name) (hne : name ≠ ascii "command")
      : key.bytes ≠ ascii "command" := by
    rw [hkey]
    exact hne
  have hstays : Sets base blocks patterns 0 (m, r) (m, r) [] := sets_of_scalar h rfl rfl
  unfold configSetIn
  dsimp only
  refine sets_ite (fun hkey => hother (hname hkey (by decide)) (setFont_sets h val)) fun _ => ?_
  refine sets_ite (fun hkey => hother (hname hkey (by decide)) (sets_of_scalar h rfl rfl)) fun _ => ?_
  refine sets_ite (fun hkey => hother (hname hkey (by decide)) (sets_of_scalar h rfl rfl)) fun _ => ?_
  refine sets_ite (fun hkey => hother (hname hkey (by decide)) (sets_of_scalar h rfl rfl)) fun _ => ?_
  refine sets_ite (fun hkey => hother (hname hkey (by decide)) (sets_of_scalar h rfl rfl)) fun _ => ?_
  refine sets_ite (fun hkey => hother (hname hkey (by decide)) (setPattern_sets h _ val)) fun _ => ?_
  refine sets_ite (fun hkey => hother (hname hkey (by decide)) (setPattern_sets h _ val)) fun _ => ?_
  refine sets_ite (fun hkey => hother (hname hkey (by decide)) (setPattern_sets h _ val)) fun _ => ?_
  refine sets_ite (fun hkey => hother (hname hkey (by decide)) (setPattern_sets h _ val)) fun _ => ?_
  refine sets_ite (fun hkey => ?_) fun _ => ?_
  . have hne : key.bytes ≠ ascii "command" := by
      intro heq
      rw [heq] at hkey
      revert hkey
      decide
    exact sets_ite (fun _ => hother hne hstays) fun _ => hother hne (setPattern_sets h _ val)
  refine sets_ite (fun hkey => hother (hname hkey (by decide)) (sets_of_scalar h rfl rfl)) fun _ => ?_
  refine sets_ite (fun hkey => hother (hname hkey (by decide)) (sets_of_scalar h rfl rfl)) fun _ => ?_
  refine sets_ite (fun hkey => hother (hname hkey (by decide)) (sets_of_scalar h rfl rfl)) fun _ => ?_
  refine sets_ite (fun hkey => hother (hname hkey (by decide)) (sets_of_scalar h rfl rfl)) fun _ => ?_
  refine sets_ite (fun hkey => hother (hname hkey (by decide)) (sets_of_scalar h rfl rfl)) fun _ => ?_
  refine sets_ite (fun hkey => hother (hname hkey (by decide)) (sets_of_scalar h rfl rfl)) fun _ => ?_
  refine sets_ite (fun hkey => ?_) fun hkey => hother hkey hstays
  unfold commandCount
  rw [if_pos hkey]
  exact ⟨_, setCommand_sets h val⟩

/-- The configuration that a record in the memory stands for. -/
def standsFor (s : Memory × Record) : RunesConfig := s.snd.config s.fst

def Slot.put (slot : Slot) (config : RunesConfig) (color : Rgb) : RunesConfig :=
  match slot with
  | .cursorcolor => { config with cursorcolor := color }
  | .mousecursorcolor => { config with mousecursorcolor := color }
  | .fgdefault => { config with fgdefault := color }
  | .bgdefault => { config with bgdefault := color }
  | .color i => { config with colors := fun j => if j = i then color else config.colors j }

theorem config_of_colors {slot : Slot} {color : Rgb} {pattern : Slot → Nat}
    (hstrings : m'.strings = m.strings)
    (hcolors : ∀ other, m'.colors (pattern other)
      = if other = slot then color else m.colors (r.pattern other))
    : { r with pattern }.config m' = slot.put (r.config m) color := by
  unfold Record.config Slot.put
  cases slot <;> simp [hcolors, hstrings]

theorem setPattern_config (h : Owns base blocks patterns s) (slot : Slot) (val : CString)
    : standsFor (setPattern slot val s) = (setColor (standsFor s) (slot.put (standsFor s)) val).fst := by
  unfold setPattern setColor
  cases parseColor val with
  | mk parsed warnings =>
    cases parsed with
    | none => rfl
    | some color =>
      dsimp only [standsFor, Memory.createRgb, Memory.destroy]
      refine config_of_colors ?_ fun other => ?_
      . rfl
      . dsimp only
        by_cases heq : other = slot
        . subst heq
          rw [if_pos rfl, Function.update_self, Function.update_self]
        . rw [if_neg heq, Function.update_of_ne heq]
          exact Function.update_of_ne (Nat.ne_of_lt (h.pattern_lt other)) _ _

theorem put_color {i : Int} (h : ¬(i < 0 ∨ i > 255)) (config : RunesConfig)
    : (Slot.color (UInt8.ofNat i.toNat)).put config
        = fun color => { config with colors := fun j => if j.toNat = i then color else config.colors j } := by
  have hcond (j : UInt8) : j = UInt8.ofNat i.toNat ↔ (j.toNat : Int) = i := by
    have hlt : i.toNat < 256 := by omega
    rw [← UInt8.toNat_inj, UInt8.toNat_ofNat_of_lt' hlt]
    omega
  funext color
  unfold Slot.put
  simp only [hcond]

theorem setFont_config (h : Owns base blocks patterns s) (val : CString)
    : standsFor (setFont val s) = { standsFor s with fontName := parseString val } := by
  have hnext : (s.fst.free s.snd.fontName).heap.next = s.fst.heap.next := by
    unfold Memory.free Heap.free
    dsimp only
    split <;> rfl
  have hcmd : s.snd.cmd.map (Function.update s.fst.strings s.fst.heap.next (parseString val))
      = s.snd.cmd.map s.fst.strings := by
    cases hsome : s.snd.cmd with
    | none => rfl
    | some a =>
      have hlt := h.blocks_lt (a := a) (by simp [Record.blocks, hsome])
      exact congrArg some (Function.update_of_ne (Nat.ne_of_lt hlt) _ _)
  have hfont : Function.update s.fst.strings s.fst.heap.next (parseString val) s.fst.heap.next
      = parseString val := Function.update_self _ _ _
  unfold standsFor setFont Memory.strdup Record.config
  dsimp only
  rw [hnext]
  dsimp only [Memory.free]
  rw [hcmd, hfont]

theorem setCommand_config (h : Owns base blocks patterns s) (val : CString)
    : standsFor (setCommand val s) = { standsFor s with cmd := some (parseString val) } := by
  have hlt := h.blocks_lt (a := s.snd.fontName) (by simp [Record.blocks])
  have hfont : Function.update s.fst.strings s.fst.heap.next (parseString val) s.snd.fontName
      = s.fst.strings s.snd.fontName := Function.update_of_ne (Nat.ne_of_lt hlt) _ _
  have hcmd : Function.update s.fst.strings s.fst.heap.next (parseString val) s.fst.heap.next
      = parseString val := Function.update_self _ _ _
  unfold standsFor setCommand Memory.strdup Record.config
  dsimp only
  rw [hfont, Option.map_some, hcmd]

theorem standsFor_ite {c : Prop} [Decidable c] {s' s'' : Memory × Record}
    {x y : RunesConfig × List SetWarning} (hpos : c → standsFor s' = x.fst)
    (hneg : ¬c → standsFor s'' = y.fst)
    : standsFor (if c then s' else s'') = (if c then x else y).fst := by
  split
  . next hc => exact hpos hc
  . next hc => exact hneg hc

/-- What is made of a record in the memory is what the option makes of its configuration. -/
theorem configSetIn_config (h : Owns base blocks patterns s) (key val : CString)
    : standsFor (configSetIn s key val) = configAfter (standsFor s) key val := by
  obtain ⟨m, r⟩ := s
  unfold configSetIn configAfter configSet
  dsimp only
  refine standsFor_ite (fun _ => setFont_config h val) fun _ => ?_
  refine standsFor_ite (fun _ => rfl) fun _ => ?_
  refine standsFor_ite (fun _ => rfl) fun _ => ?_
  refine standsFor_ite (fun _ => rfl) fun _ => ?_
  refine standsFor_ite (fun _ => rfl) fun _ => ?_
  refine standsFor_ite (fun _ => setPattern_config h .bgdefault val) fun _ => ?_
  refine standsFor_ite (fun _ => setPattern_config h .fgdefault val) fun _ => ?_
  refine standsFor_ite (fun _ => setPattern_config h .cursorcolor val) fun _ => ?_
  refine standsFor_ite (fun _ => setPattern_config h .mousecursorcolor val) fun _ => ?_
  refine standsFor_ite (fun _ => ?_) fun _ => ?_
  . refine standsFor_ite (fun _ => rfl) fun hrange => ?_
    rw [setPattern_config h, put_color fun hout => hrange (Or.inr hout)]
  refine standsFor_ite (fun _ => rfl) fun _ => ?_
  refine standsFor_ite (fun _ => rfl) fun _ => ?_
  refine standsFor_ite (fun _ => rfl) fun _ => ?_
  refine standsFor_ite (fun _ => rfl) fun _ => ?_
  refine standsFor_ite (fun _ => rfl) fun _ => ?_
  refine standsFor_ite (fun _ => rfl) fun _ => ?_
  exact standsFor_ite (fun _ => setCommand_config h val) fun _ => rfl

end

end Config
end Runes
