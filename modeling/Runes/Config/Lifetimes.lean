import Runes.Config.Owned

/-!
This module contains what the terminals of a process leave behind in its memory: every pattern is destroyed
once and every font name is freed once, but the commands are not, and no configuration file is closed.
-/

namespace Runes
namespace Config

open Libc Protocol Exec Unix

section

variable {base m m' : Memory} {blocks patterns lost lost' : List Nat} {n n' : Nat} {r : Record}
  {s s' s'' : Memory × Record} {env : Environ}

/-- Some of the patterns of a record have been made. -/
structure Filled (base m : Memory) (ids : List Nat) (slots : List Slot) (s : Memory × (Slot → Nat)) : Prop
    where
  created : base.refs.Creates s.fst.refs (slots.map s.snd ++ ids)
  colors : ∀ slot ∈ slots, s.fst.colors (s.snd slot) = slot.default
  keeps : m.Keeps s.fst
  heap : s.fst.heap = m.heap
  strings : s.fst.strings = m.strings
  files : s.fst.files = m.files

theorem Filled.next {ids : List Nat} {slots : List Slot} {s : Memory × (Slot → Nat)} {slot : Slot}
    (h : Filled base m ids slots s) (hslot : slot ∉ slots)
    : Filled base m ids (slot :: slots)
        ((s.fst.createRgb slot.default).snd, Function.update s.snd slot s.fst.refs.next) := by
  have hsame (other : Slot) (hother : other ∈ slots)
      : Function.update s.snd slot s.fst.refs.next other = s.snd other := by
    apply Function.update_of_ne
    rintro rfl
    exact hslot hother
  have hpatterns : (slot :: slots).map (Function.update s.snd slot s.fst.refs.next)
      = s.fst.refs.next :: slots.map s.snd := by
    rw [List.map_cons, Function.update_self, List.map_congr_left hsame]
  refine ⟨?_, ?_, h.keeps.trans (.createRgb _ _), h.heap, h.strings, h.files⟩
  . dsimp only
    rw [hpatterns]
    exact h.created.create
  . intro other hother
    dsimp only [Memory.createRgb]
    rcases List.mem_cons.mp hother with rfl | hother
    . rw [Function.update_self, Function.update_self]
    . have hmem : s.snd other ∈ slots.map s.snd ++ ids :=
        List.mem_append_left _ (List.mem_map_of_mem hother)
      have hlt := (h.created.bounds _ hmem).right
      rw [hsame other hother, Function.update_of_ne (Nat.ne_of_lt hlt)]
      exact h.colors other hother

theorem Filled.perm {ids : List Nat} {slots slots' : List Slot} {s : Memory × (Slot → Nat)}
    (h : Filled base m ids slots s) (hperm : slots.Perm slots')
    : Filled base m ids slots' s :=
  ⟨h.created.perm ((hperm.map s.snd).append_right ids),
    fun slot hslot => h.colors slot (hperm.mem_iff.mpr hslot), h.keeps, h.heap, h.strings, h.files⟩

theorem Filled.createPatterns {ids : List Nat} {slots done : List Slot} {s : Memory × (Slot → Nat)}
    (h : Filled base m ids done s) (hnodup : (slots ++ done).Nodup)
    : Filled base m ids (slots ++ done) (createPatterns slots s) := by
  induction slots generalizing done s with
  | nil => exact h
  | cons slot slots ih =>
    have hmiddle : (slots ++ slot :: done).Perm (slot :: slots ++ done) := List.perm_middle
    have hslot : slot ∉ done := fun hmem =>
      (List.nodup_cons.mp hnodup).left (List.mem_append_right _ hmem)
    exact (ih (h.next hslot) (hmiddle.nodup_iff.mpr hnodup)).perm hmiddle

theorem setDefaultsIn_owns {block : Nat} (hheap : base.heap.Allocates m.heap (block :: blocks))
    (hrefs : base.refs.Creates m.refs patterns)
    : Owns base blocks patterns (setDefaultsIn block m)
        ∧ m.Keeps (setDefaultsIn block m).fst
        ∧ (setDefaultsIn block m).fst.files = m.files
        ∧ (setDefaultsIn block m).snd.cmd = none
        ∧ standsFor (setDefaultsIn block m) = setDefaults := by
  let m₁ := (m.strdup setDefaults.fontName).snd
  have hempty : Filled base m₁ patterns [] (m₁, fun _ => 0) :=
    ⟨hrefs, fun _ hslot => (by cases hslot), .refl _, rfl, rfl, rfl⟩
  have hnodup : (Slot.all ++ []).Nodup := by
    rw [List.append_nil]
    exact Slot.nodup_all
  have hfilled := hempty.createPatterns hnodup
  have hfont : m₁.strings m.heap.next = setDefaults.fontName := Function.update_self _ _ _
  have hkeeps : m.Keeps m₁ := .strdup _ m
  have hallocated := (hheap.andMalloc (setDefaults.fontName.bytes.length + 1)).perm (List.Perm.swap _ _ _)
  have hheap₁ : m₁.heap = m.heap.malloc (setDefaults.fontName.bytes.length + 1) := rfl
  have hfiles₁ : m₁.files = m.files := rfl
  have hdefaults : setDefaultsIn block m
      = setDefaultsFrom block m.heap.next (createPatterns Slot.all (m₁, fun _ => 0)) := rfl
  rw [List.append_nil] at hfilled
  rw [hdefaults]
  generalize createPatterns Slot.all (m₁, fun _ => 0) = filled at hfilled ⊢
  rw [← hheap₁, ← hfilled.heap] at hallocated
  refine ⟨⟨hallocated, hfilled.created⟩, hkeeps.trans hfilled.keeps, hfilled.files.trans hfiles₁, rfl,
    ?_⟩
  have hcolors (slot : Slot) := hfilled.colors slot (Slot.mem_all slot)
  unfold standsFor setDefaultsFrom Record.config
  simp only [hcolors, hfilled.strings, hfont, Slot.default]
  rfl

/-- What is allocated is as before, and so is everything else but the number of open files. -/
structure Spends (base m : Memory) (blocks : List Nat) (files : Nat) (m' : Memory) : Prop where
  heap : base.heap.Allocates m'.heap blocks
  refs : m'.refs = m.refs
  keeps : m.Keeps m'
  files : m'.files = m.files + files

theorem Spends.fopen (h : Spends base m blocks 0 m')
    : Spends base m blocks 1 { m' with files := m'.files + 1 } where
  heap := h.heap
  refs := h.refs
  keeps := ⟨h.keeps.next_le, h.keeps.strings, h.keeps.refs_le, h.keeps.colors⟩
  files := congrArg (· + 1) h.files

theorem Spends.path (h : Spends base m blocks 0 m') (size : Nat)
    : Spends base m blocks 0 ((m'.malloc size).snd.free m'.heap.next) where
  heap := (h.heap.andMalloc size).free
  refs := h.refs
  keeps := h.keeps.trans ((Memory.Keeps.malloc size m').trans (.free _ _))
  files := h.files

/-- Whatever name the file has, the names are freed, and the file is left open. -/
theorem getConfigFileIn_spends (fopen : Path → Option (List UInt8)) (env : Environ)
    (hheap : base.heap.Allocates m.heap blocks)
    : (getConfigFileIn fopen env m).fst = getConfigFile fopen env
        ∧ Spends base m blocks (getConfigFile fopen env).toList.length
            (getConfigFileIn fopen env m).snd := by
  let first := configDir env ++ ascii "/runes/runes.conf"
  let second := printed (getenv env home) ++ ascii "/.runesrc"
  let m₁ := (m.malloc ((configDir env).length + 1)).snd
  let m₂ := (m₁.malloc (first.length + 1)).snd
  have hfirst : Spends base m blocks 0 ((m₂.free m.heap.next).free m₁.heap.next) := by
    have hnames := (hheap.andMalloc ((configDir env).length + 1)).andMalloc (first.length + 1)
    have hkeeps : m.Keeps m₂ := (Memory.Keeps.malloc _ m).trans (.malloc _ m₁)
    exact ⟨(hnames.perm (List.Perm.swap _ _ _)).free.free, rfl,
      hkeeps.trans ((Memory.Keeps.free _ _).trans (.free _ _)), rfl⟩
  have hsecond := hfirst.path (second.length + 1)
  unfold getConfigFileIn getConfigFile
  dsimp only
  cases fopen (configDir env ++ ascii "/runes/runes.conf") with
  | some file => exact ⟨rfl, hfirst.fopen⟩
  | none =>
    dsimp only
    cases fopen (printed (getenv env home) ++ ascii "/.runesrc") with
    | some file => exact ⟨rfl, hsecond.fopen⟩
    | none =>
      dsimp only
      cases fopen (ascii "/etc/runesrc") with
      | some file => exact ⟨rfl, hsecond.fopen⟩
      | none => exact ⟨rfl, hsecond⟩

theorem Sets.trans (h : Sets base blocks patterns n s s' lost)
    (h' : Sets base (lost ++ blocks) patterns n' s' s'' lost')
    : Sets base blocks patterns (n + n') s s'' (lost' ++ lost) where
  owns := by
    rw [List.append_assoc]
    exact h'.owns
  keeps := h.keeps.trans h'.keeps
  files := h'.files.trans h.files
  length_lost := by
    have hfirst := h.length_lost
    have hsecond := h'.length_lost
    rw [List.length_append]
    omega

def commandsIn (l : List Setting) : Nat := (l.map (fun o => commandCount o.key)).sum

/-- A sequence of options makes of a record in the memory what it makes of the configuration. -/
theorem foldl_sets (h : Owns base blocks patterns s) (l : List Setting)
    : ∃ lost, Sets base blocks patterns (commandsIn l) s
          (l.foldl (fun s o => configSetIn s o.key o.val) s) lost
        ∧ standsFor (l.foldl (fun s o => configSetIn s o.key o.val) s)
            = l.foldl (fun config o => configAfter config o.key o.val) (standsFor s) := by
  induction l generalizing s blocks with
  | nil =>
    refine ⟨[], ⟨h, Memory.Keeps.refl s.fst, rfl, ?_⟩, rfl⟩
    simp [commandsIn]
  | cons o l ih =>
    obtain ⟨lost, hsets⟩ := configSetIn_sets h o.key o.val
    obtain ⟨lost', hsets', hconfig⟩ := ih hsets.owns
    refine ⟨lost' ++ lost, ?_, ?_⟩
    . unfold commandsIn
      rw [List.map_cons, List.sum_cons, List.foldl_cons]
      exact hsets.trans hsets'
    . rw [List.foldl_cons, List.foldl_cons, hconfig, configSetIn_config h]

theorem configNewWith_settings {σ : Type} (set : σ → CString → CString → σ) (defaults : σ)
    (configFile : Option (List UInt8)) (line : Buffer lineSize) (argc : Int) (argv : List CString)
    : configNewWith set defaults configFile line argc argv
        = (settings configFile line argc argv).map (·.foldl (fun s o => set s o.key o.val) defaults) := by
  have hset : ∀ (l : List Setting) key val,
      (l ++ [(⟨key, val⟩ : Setting)]).foldl (fun s o => set s o.key o.val) defaults
        = set (l.foldl (fun s o => set s o.key o.val) defaults) key val := by
    intro l key val
    rw [List.foldl_append]
    rfl
  exact configNewWith_map hset [] configFile line argc argv

/-- A new configuration is in the memory, beside what was there before and the commands that are replaced. -/
theorem configNewIn_owns {fopen : Path → Option (List UInt8)} {line : Buffer lineSize} {argc : Int}
    {argv : List CString} (hheap : base.heap.Allocates m.heap blocks)
    (hrefs : base.refs.Creates m.refs patterns) (h : configNewIn fopen env line argc argv m = some s)
    : ∃ l lost, settings (getConfigFile fopen env) line argc argv = some l
        ∧ configNew (getConfigFile fopen env) line argc argv = some (standsFor s)
        ∧ Owns base (lost ++ blocks) patterns s
        ∧ m.Keeps s.fst
        ∧ s.fst.files = m.files + (getConfigFile fopen env).toList.length
        ∧ lost.length + s.snd.cmd.toList.length = commandsIn l := by
  let m₁ := (m.malloc sizeofRunesConfig).snd
  have hdefaults := setDefaultsIn_owns (hheap.andMalloc sizeofRunesConfig) hrefs (m := m₁)
  have hnew : configNewIn fopen env line argc argv m
      = configNewWith configSetIn
          ((getConfigFileIn fopen env (setDefaultsIn m.heap.next m₁).fst).snd,
            (setDefaultsIn m.heap.next m₁).snd)
          (getConfigFileIn fopen env (setDefaultsIn m.heap.next m₁).fst).fst line argc argv := rfl
  have hm₁ : m.Keeps m₁ := .malloc _ m
  have hfiles₁ : m₁.files = m.files := rfl
  rw [hnew, configNewWith_settings] at h
  generalize setDefaultsIn m.heap.next m₁ = made at hdefaults h
  obtain ⟨howns, hkeeps, hfiles, hcmd, hmade⟩ := hdefaults
  obtain ⟨hfile, hspends⟩ := getConfigFileIn_spends fopen env howns.heap
  rw [hfile] at h
  obtain ⟨l, hl, rfl⟩ := Option.map_eq_some_iff.mp h
  have howns' : Owns base blocks patterns ((getConfigFileIn fopen env made.fst).snd, made.snd) := by
    refine ⟨hspends.heap, ?_⟩
    dsimp only
    rw [hspends.refs]
    exact howns.refs
  have hmade' : standsFor ((getConfigFileIn fopen env made.fst).snd, made.snd) = setDefaults := by
    rw [← hmade]
    exact config_of_keeps (fun _ ha => howns.blocks_lt ha) howns.pattern_lt hspends.keeps
  obtain ⟨lost, hsets, hconfig⟩ := foldl_sets howns' l
  have hlost := hsets.length_lost
  dsimp only at hlost
  rw [hcmd] at hlost
  refine ⟨l, lost, hl, ?_, hsets.owns, ?_, ?_, by simpa using hlost⟩
  . rw [configNew_eq, hl, hconfig, hmade']
    rfl
  . exact hm₁.trans (hkeeps.trans (hspends.keeps.trans hsets.keeps))
  . rw [hsets.files, hspends.files, hfiles, hfiles₁]

theorem destroyPatterns_creates {slots : List Slot} {pattern : Slot → Nat}
    (h : base.refs.Creates m.refs (slots.map pattern ++ patterns))
    : base.refs.Creates (destroyPatterns slots pattern m).refs patterns
        ∧ (destroyPatterns slots pattern m).heap = m.heap
        ∧ (destroyPatterns slots pattern m).files = m.files
        ∧ m.Keeps (destroyPatterns slots pattern m) := by
  induction slots generalizing m with
  | nil => exact ⟨h, rfl, rfl, .refl m⟩
  | cons slot slots ih =>
    have hrest : base.refs.Creates (m.destroy (pattern slot)).refs (slots.map pattern ++ patterns) := h.destroy
    obtain ⟨hcreates, hheap, hfiles, hkeeps⟩ := ih hrest
    exact ⟨hcreates, hheap, hfiles, (Memory.Keeps.destroy _ m).trans hkeeps⟩

theorem destroyPatterns_spends {slots : List Slot} {pattern : Slot → Nat} {block fontName : Nat}
    (hheap : base.heap.Allocates m.heap (block :: fontName :: blocks))
    (hrefs : base.refs.Creates m.refs (slots.map pattern ++ patterns))
    : base.heap.Allocates ((destroyPatterns slots pattern (m.free fontName)).free block).heap blocks
        ∧ base.refs.Creates ((destroyPatterns slots pattern (m.free fontName)).free block).refs patterns
        ∧ m.Keeps ((destroyPatterns slots pattern (m.free fontName)).free block)
        ∧ ((destroyPatterns slots pattern (m.free fontName)).free block).files = m.files := by
  have hfreed : base.refs.Creates (m.free fontName).refs (slots.map pattern ++ patterns) := hrefs
  obtain ⟨hcreates, hsame, hfiles, hkeeps⟩ := destroyPatterns_creates hfreed
  have hfont : base.heap.Allocates (m.free fontName).heap (block :: blocks) :=
    (hheap.perm (List.Perm.swap _ _ _)).free
  rw [← hsame] at hfont
  exact ⟨hfont.free, hcreates, (Memory.Keeps.free _ m).trans (hkeeps.trans (.free _ _)), hfiles⟩

/-- A configuration that is deleted leaves nothing behind but its command. -/
theorem configDelete_spends (h : Owns base blocks patterns (m, r))
    : base.heap.Allocates (configDelete r m).heap (r.cmd.toList ++ blocks)
        ∧ base.refs.Creates (configDelete r m).refs patterns
        ∧ m.Keeps (configDelete r m)
        ∧ (configDelete r m).files = m.files := by
  unfold configDelete
  exact destroyPatterns_spends h.heap h.refs

end

-- The strings for commands that a terminal makes when it is opened.
def Input.commands (env : Environ) (input : Input) : Nat :=
  match input with
  | .new fopen line argc argv =>
    commandsIn ((settings (getConfigFile fopen env) line argc argv).getD [])
  | .delete _ => 0

-- Whether there is a configuration file when a terminal is opened.
def Input.files (env : Environ) (input : Input) : Nat :=
  match input with
  | .new fopen _ _ _ => (getConfigFile fopen env).toList.length
  | .delete _ => 0

/-- What the terminals that are open have in the memory, and what has been left behind in it so far. -/
structure Process.Ok (env : Environ) (base : Memory) (past : List Input) (s : Process) : Prop where
  heap : ∃ lost, base.heap.Allocates s.memory.heap (s.terms.flatMap Record.blocks ++ lost)
    ∧ lost.length + (s.terms.flatMap (fun r => r.cmd.toList)).length
        = (past.map (Input.commands env)).sum
  refs : base.refs.Creates s.memory.refs (s.terms.flatMap Record.patterns)
  files : s.memory.files = base.files + (past.map (Input.files env)).sum
  configs : (opened env).run [] past = some (s.terms.map (fun r => r.config s.memory))

section

variable {env : Environ} {base : Memory} {past : List Input} {s s' : Process} {input : Input}

theorem Process.Ok.configs_of_keeps (h : s.Ok env base past) {m' : Memory} (hkeeps : s.memory.Keeps m')
    : s.terms.map (fun r => r.config m') = s.terms.map (fun r => r.config s.memory) := by
  obtain ⟨lost, hheap, _⟩ := h.heap
  apply List.map_congr_left
  intro r hr
  apply config_of_keeps _ _ hkeeps
  . intro a ha
    have hmem : a ∈ s.terms.flatMap Record.blocks := List.mem_flatMap.mpr ⟨r, hr, ha⟩
    exact (hheap.bounds a (List.mem_append_left _ hmem)).right
  . intro slot
    have hslot : r.pattern slot ∈ r.patterns := List.mem_map_of_mem (Slot.mem_all slot)
    have hmem : r.pattern slot ∈ s.terms.flatMap Record.patterns := List.mem_flatMap.mpr ⟨r, hr, hslot⟩
    exact (h.refs.bounds _ hmem).right

theorem Process.Ok.new (h : s.Ok env base past) {fopen : Path → Option (List UInt8)}
    {line : Buffer lineSize} {argc : Int} {argv : List CString} {made : Memory × Record}
    (hnew : configNewIn fopen env line argc argv s.memory = some made)
    : Process.Ok env base (past ++ [.new fopen line argc argv])
        { memory := made.fst, terms := s.terms ++ [made.snd] } := by
  obtain ⟨lost, hheap, hcommands⟩ := h.heap
  obtain ⟨l, lost', hl, hconfig, howns, hkeeps, hfiles, hlost⟩ := configNewIn_owns hheap h.refs hnew
  have hcount : Input.commands env (.new fopen line argc argv) = commandsIn l := by
    unfold Input.commands
    dsimp only
    rw [hl]
    rfl
  have hfile : Input.files env (.new fopen line argc argv) = (getConfigFile fopen env).toList.length := rfl
  refine ⟨⟨lost' ++ lost, ?_, ?_⟩, ?_, ?_, ?_⟩
  . apply howns.heap.perm
    rw [List.flatMap_append, List.flatMap_singleton, List.append_assoc]
    have hlost : (lost' ++ (s.terms.flatMap Record.blocks ++ lost)).Perm
        (s.terms.flatMap Record.blocks ++ (lost' ++ lost)) := List.perm_append_comm_assoc _ _ _
    exact (hlost.append_left made.snd.blocks).trans (List.perm_append_comm_assoc _ _ _)
  . rw [List.flatMap_append, List.flatMap_singleton, List.map_append, List.sum_append, List.length_append,
      List.length_append, List.map_singleton, List.sum_singleton, hcount]
    omega
  . rw [List.flatMap_append, List.flatMap_singleton]
    exact howns.refs.perm List.perm_append_comm
  . rw [List.map_append, List.sum_append, List.map_singleton, List.sum_singleton, hfile, ← Nat.add_assoc,
      ← h.files]
    exact hfiles
  . have hstep : (opened env).step (s.terms.map (fun r => r.config made.fst)) (.new fopen line argc argv)
        = some ((s.terms ++ [made.snd]).map (fun r => r.config made.fst)) := by
      unfold opened stepOpened
      dsimp only
      rw [hconfig, List.map_append]
      rfl
    rw [Machine.run_append h.configs, ← h.configs_of_keeps hkeeps, Machine.run_cons hstep]
    rfl

theorem Process.Ok.delete (h : s.Ok env base past) {i : Nat} {r : Record} (hr : s.terms[i]? = some r)
    : Process.Ok env base (past ++ [.delete i])
        { memory := configDelete r s.memory, terms := s.terms.eraseIdx i } := by
  obtain ⟨lost, hheap, hcommands⟩ := h.heap
  obtain ⟨hi, hget⟩ := List.getElem?_eq_some_iff.mp hr
  have hperm : s.terms.Perm (r :: s.terms.eraseIdx i) := by
    have hmove := List.getElem_cons_eraseIdx_perm hi
    rw [hget] at hmove
    exact hmove.symm
  have hblocks := hperm.flatMap_right Record.blocks
  have hpatterns := hperm.flatMap_right Record.patterns
  have hcmds := (hperm.flatMap_right (fun r => r.cmd.toList)).length_eq
  rw [List.flatMap_cons] at hblocks hpatterns hcmds
  have howns : Owns base ((s.terms.eraseIdx i).flatMap Record.blocks ++ lost)
      ((s.terms.eraseIdx i).flatMap Record.patterns) (s.memory, r) := by
    refine ⟨hheap.perm ?_, h.refs.perm hpatterns⟩
    rw [← List.append_assoc]
    exact hblocks.append_right lost
  obtain ⟨hleft, hrefs, hkeeps, hfiles⟩ := configDelete_spends howns
  have hcommand : Input.commands env (.delete i) = 0 := rfl
  have hfile : Input.files env (.delete i) = 0 := rfl
  refine ⟨⟨r.cmd.toList ++ lost, ?_, ?_⟩, hrefs, ?_, ?_⟩
  . exact hleft.perm (List.perm_append_comm_assoc _ _ _)
  . rw [List.length_append] at hcmds
    rw [List.map_append, List.sum_append, List.map_singleton, List.sum_singleton, hcommand, List.length_append]
    dsimp only
    omega
  . rw [List.map_append, List.sum_append, List.map_singleton, List.sum_singleton, hfile]
    exact hfiles.trans h.files
  . have hconfigs := h.configs
    rw [← h.configs_of_keeps hkeeps] at hconfigs
    have hstep : (opened env).step (s.terms.map (fun a => a.config (configDelete r s.memory))) (.delete i)
        = some ((s.terms.eraseIdx i).map (fun a => a.config (configDelete r s.memory))) := by
      unfold opened stepOpened
      dsimp only
      rw [List.length_map, if_pos hi, List.eraseIdx_map]
    rw [Machine.run_append hconfigs, Machine.run_cons hstep]
    rfl

theorem Process.Ok.step (h : s.Ok env base past) (hstep : stepProcess env s input = some s')
    : s'.Ok env base (past ++ [input]) := by
  cases input with
  | new fopen line argc argv =>
    obtain ⟨made, hnew, rfl⟩ := Option.map_eq_some_iff.mp hstep
    exact h.new hnew
  | delete i =>
    obtain ⟨r, hr, rfl⟩ := Option.map_eq_some_iff.mp hstep
    exact h.delete hr

theorem Process.Ok.init : Process.Ok env base [] (processes env base).init where
  heap := ⟨[], .refl base.heap, rfl⟩
  refs := .refl base.refs
  files := rfl
  configs := rfl

end

def noMemory : Memory where
  heap := .empty
  strings := fun _ => setDefaults.fontName
  refs := .empty
  colors := fun _ => setDefaults.bgdefault
  files := 0

def someTerminals : List Input :=
  [
    .new etcOnly (zeroedLine ()).line 5
      [⟨ascii "./runes", by decide⟩, ⟨ascii "--command", by decide⟩, ⟨ascii "mutt", by decide⟩,
        ⟨ascii "--command", by decide⟩, ⟨ascii "vim", by decide⟩],
    .new (fun _ => none) (zeroedLine ()).line 3
      [⟨ascii "./runes", by decide⟩, ⟨ascii "--bgcolor", by decide⟩, ⟨ascii "#102030", by decide⟩],
    .delete 0
  ]

end Config
end Runes
