import Runes.Socket.Prepare

/-!
This module contains what the daemon does with a path that is not absolute but has a slash: it looks
for the directory under the root, and binds the socket under the working directory.
-/

namespace Runes
namespace Socket

open Libc Unix Exec

/-- Directories can be made everywhere but in directory `1`, which nothing but `child` leads to. -/
structure Roomy (child : Name) (fs : FileSystem) : Prop where
  root : fs.root = 0
  size : 1 < fs.dirs.length
  denies : ∀ r, (∀ name, r ≠ .search 1 name) → fs.denies r = none
  entry : ∀ d name e, d ≠ 1 → name ≠ child → fs.entry d name = some e
    → ∃ c, e = .dir c ∧ c ≠ 1 ∧ c < fs.dirs.length

section

variable {child name : Name} {fs : FileSystem} {path dir : Path} {names front : List Name} {s : Sys}
variable {d : Nat}

theorem Roomy.search (h : Roomy child fs) (hd : d ≠ 1) (name : Name)
    : fs.denies (.search d name) = none := by
  apply h.denies
  intro name' heq
  exact hd (Request.search.inj heq).left

theorem Roomy.addDirectory (h : Roomy child fs) (hd : d < fs.dirs.length) (hne : d ≠ 1) (name : Name)
    : Roomy child (fs.addDirectory d name) := by
  have hsize := h.size
  have hlength : (fs.addDirectory d name).dirs.length = fs.dirs.length + 1 := by
    simp [FileSystem.addDirectory, FileSystem.put]
  refine ⟨h.root, by omega, h.denies, ?_⟩
  intro d' name' e hd' hname' hentry
  rw [hlength]
  rw [FileSystem.entry_addDirectory hd] at hentry
  split at hentry
  . unfold newDirectory at hentry
    split at hentry
    . cases hentry
      exact ⟨_, rfl, by omega, by omega⟩
    . split at hentry
      . cases hentry
        exact ⟨_, rfl, hne, by omega⟩
      . cases hentry
  . split at hentry
    . cases hentry
      exact ⟨_, rfl, by omega, by omega⟩
    . obtain ⟨c, rfl, hc, hlt⟩ := h.entry d' name' e hd' hname' hentry
      exact ⟨c, rfl, hc, by omega⟩

theorem Roomy.step (h : Roomy child s.fs)
    (hnames : ∀ n ∈ front ++ [name], n ≠ [] ∧ slash ∉ n) (hname : name ≠ child)
    (hleads : s.fs.Leads maxLinks s.fs.root front (.dir d)) (hne : d ≠ 1) (hd : d < s.fs.dirs.length)
    : ∃ s' d', (nextDirectory (joinPath front) name).run s = .ok (joinPath (front ++ [name])) s'
      ∧ s'.socket = s.socket ∧ s.fs.Extends s'.fs ∧ Roomy child s'.fs
      ∧ s'.fs.Leads maxLinks s'.fs.root (front ++ [name]) (.dir d') ∧ d' ≠ 1
      ∧ d' < s'.fs.dirs.length := by
  have hparent : s.fs.parentOf (joinPath (front ++ [name])) = .ok (d, name) :=
    FileSystem.parentOf_eq_ok.mpr ⟨front, components_joinPath hnames, hleads⟩
  have hsearch := h.search hne name
  have hlookup := FileSystem.lookup_eq_ok.mpr ⟨hsearch, rfl⟩
  have hrun : ∀ s', (makeDirectory (joinPath (front ++ [name]))).run s = .ok () s'
      → (nextDirectory (joinPath front) name).run s = .ok (joinPath (front ++ [name])) s' := by
    intro s' hmake
    unfold nextDirectory
    rw [← joinPath_concat, run_bind_ok hmake]
    rfl
  rw [makeDirectory_run] at hrun
  cases hentry : s.fs.entry d name with
  | some e =>
    obtain ⟨c, rfl, hc, hlt⟩ := h.entry d name e hne hname hentry
    rw [hentry] at hlookup
    rw [FileSystem.mkdir_of_some hparent hlookup] at hrun
    exact ⟨s, c, hrun s rfl, rfl, .refl _, h, hleads.concat hsearch hentry, hc, hlt⟩
  | none =>
    rw [hentry] at hlookup
    have hmkdir : s.fs.mkdir (joinPath (front ++ [name])) = .ok (s.fs.addDirectory d name) :=
      FileSystem.mkdir_eq_ok.mpr ⟨d, name, hparent, hlookup, h.denies _ (by simp), hd, rfl⟩
    have hext := FileSystem.extends_mkdir hmkdir
    have hroomy := h.addDirectory hd hne name
    have hnew : (s.fs.addDirectory d name).entry d name = some (.dir s.fs.dirs.length) := by
      rw [FileSystem.entry_addDirectory hd, if_neg (Nat.ne_of_lt hd), if_pos ⟨rfl, rfl⟩]
    have hsize := h.size
    rw [hmkdir] at hrun
    refine ⟨{ s with fs := s.fs.addDirectory d name }, s.fs.dirs.length, hrun _ rfl, rfl, hext, hroomy,
      (hleads.mono hext).concat (hroomy.search hne name) hnew, by omega, ?_⟩
    simp [FileSystem.addDirectory, FileSystem.put]

theorem Roomy.run (h : Roomy child s.fs) (front names : List Name)
    (hnames : ∀ n ∈ front ++ names, n ≠ [] ∧ slash ∉ n) (hchild : child ∉ names)
    (hleads : s.fs.Leads maxLinks s.fs.root front (.dir d)) (hne : d ≠ 1) (hd : d < s.fs.dirs.length)
    : ∃ s' d', (names.foldlM nextDirectory (joinPath front)).run s
        = .ok (joinPath (front ++ names)) s'
      ∧ s'.socket = s.socket ∧ s.fs.Extends s'.fs
      ∧ s'.fs.Leads maxLinks s'.fs.root (front ++ names) (.dir d') := by
  induction names generalizing front s d with
  | nil =>
    rw [List.append_nil]
    exact ⟨s, d, rfl, rfl, .refl _, hleads⟩
  | cons name names ih =>
    rw [List.mem_cons, not_or] at hchild
    rw [List.append_cons] at hnames ⊢
    obtain ⟨s₁, d₁, hnext, hsocket₁, hext₁, hroomy, hleads₁, hne₁, hd₁⟩ := h.step
      (fun n hn => hnames n (List.mem_append_left names hn)) (Ne.symm hchild.left) hleads
      hne hd
    obtain ⟨s', d', hrun, hsocket, hext, hleads'⟩ := ih hroomy (front ++ [name]) hnames hchild.right hleads₁ hne₁ hd₁
    refine ⟨s', d', ?_, hsocket.trans hsocket₁, hext₁.trans hext, hleads'⟩
    rw [List.foldlM_cons, run_bind_ok hnext, hrun]

-- A name that is too long to be in the path.
def hidden (path : Path) : Name := List.replicate (path.length + 1) 0x78

/-- The daemon can make directories under the root, but may not search its working directory. -/
def shutOut (path : Path) : Sys where
  fs := {
    root := 0
    cwd := 1
    dirs := [
      fun name => if name = hidden path then some (.dir 1) else newDirectory 0 0 name,
      newDirectory 1 0
    ]
    denies := fun request =>
      match request with
      | .search 1 _ => some (.other 13)
      | _ => none
  }
  socket := .ok ()
  listen := .ok ()
  bound := []

theorem roomy_shutOut (path : Path) : Roomy (hidden path) (shutOut path).fs := by
  refine ⟨rfl, Nat.one_lt_two, ?_, ?_⟩
  . intro request h
    cases request with
    | search d name =>
      by_cases hd : d = 1
      . exact absurd rfl (hd ▸ h name)
      . unfold shutOut
        dsimp only
        split
        . next heq => exact absurd (Request.search.inj heq).left hd
        . rfl
    | _ => rfl
  . intro d name e hd hname hentry
    match d with
    | 0 =>
      change (if name = hidden path then _ else newDirectory 0 0 name) = some e at hentry
      rw [if_neg hname] at hentry
      unfold newDirectory at hentry
      split at hentry
      . cases hentry
        exact ⟨0, rfl, Nat.zero_ne_one, Nat.two_pos⟩
      . split at hentry
        . cases hentry
          exact ⟨0, rfl, Nat.zero_ne_one, Nat.two_pos⟩
        . cases hentry
    | 1 => exact absurd rfl hd
    | d + 2 => cases hentry

theorem Roomy.openToBind {last : List UInt8} (hroomy : Roomy child s.fs) (hsocket : s.socket = .ok ())
    (hlength : ¬maxSocketPathLen < (dir ++ slash :: last).length + 1) (hlast : slash ∉ last)
    (hchild : child ∉ components dir)
    : ∃ s₁, (openToBind (dir ++ slash :: last)).run s = .ok () s₁ := by
  obtain ⟨s₀, d, hrun, hsocket₀, _, hleads⟩ := hroomy.run [] (components dir)
    (valid_components dir) hchild .here (by rw [hroomy.root]; exact Nat.zero_ne_one)
    (by rw [hroomy.root]; exact Nat.zero_lt_of_lt hroomy.size)
  have hfound := (FileSystem.resolve_joinPath (valid_components dir)).mpr hleads
  have hcomponents : (mkdirComponents [slash] dir).run s = .ok (joinPath (components dir)) s₀ := by
    rw [mkdirComponents_eq]
    exact hrun
  have hmkdir : (mkdirP dir).run s = .ok () s₀ := by
    unfold mkdirP
    rw [run_bind_ok hcomponents, run_bind_ok (EStateM.run_get s₀), hfound]
    rfl
  obtain ⟨s₁, hunlink, hsocket₁⟩ := unlink_total (dir ++ slash :: last) s₀
  refine ⟨s₁, ?_⟩
  unfold Socket.openToBind populateSockaddr
  rw [if_neg hlength, run_bind_ok (run_pure () s), dirname_of_append hlast]
  dsimp only
  rw [run_bind_ok hmkdir, run_bind_ok hunlink, run_bind_ok (EStateM.run_get s₁), hsocket₁, hsocket₀,
    hsocket]
  rfl

theorem hidden_not_mem (path : Path) {names : List Name} (h : ∀ name ∈ names, name.length ≤ path.length)
    : hidden path ∉ names := by
  intro hmem
  have := h _ hmem
  rw [hidden, List.length_replicate] at this
  omega

-- There is a name in front of the last slash.
theorem components_of_relative {last : List UInt8} (h : ¬IsAbsolute (dir ++ slash :: last))
    : components dir ≠ [] := by
  cases dir with
  | nil => exact absurd rfl h
  | cons c dir =>
    apply components_ne_nil List.mem_cons_self
    rintro rfl
    exact h rfl

theorem not_preparesDirectory_shutOut (hlength : ¬maxSocketPathLen < path.length + 1)
    (hrelative : ¬IsAbsolute path) (hmem : slash ∈ path)
    : ¬PreparesDirectory path (shutOut path) := by
  intro h
  obtain ⟨dir, last, rfl, hlast⟩ := exists_last hmem
  have hchild : hidden (dir ++ slash :: last) ∉ components dir := by
    apply hidden_not_mem
    intro name hname
    have := (mem_components hname).right.right
    rw [List.length_append]
    omega
  obtain ⟨s₁, hopen⟩ := (roomy_shutOut (dir ++ slash :: last)).openToBind rfl hlength hlast hchild
  obtain ⟨dir', s₀, d, hprepared⟩ := h.left s₁ hopen
  have hdir := hprepared.dirname
  rw [dirname_of_append hlast] at hdir
  cases hdir
  have hcontains := FileSystem.follow_eq_ok.mp hprepared.contains
  obtain ⟨_, _, made, _, hmade⟩ := mkdirP_ok hprepared.mkdirP
  have hext := (FileSystem.extends_mkdirs hmade).left
  obtain ⟨name, names, hnames⟩ := List.exists_cons_of_ne_nil (components_of_relative hrelative)
  -- the first name is looked up in the working directory
  rw [start_relative hrelative, hext.cwd, hnames] at hcontains
  have hsearch := hcontains.search
  rw [hext.denies] at hsearch
  cases hsearch

theorem preparesDirectory_iff (path : Path)
    : (∀ s, PreparesDirectory path s)
        ↔ IsAbsolute path ∨ slash ∉ path ∨ maxSocketPathLen < path.length + 1 := by
  constructor
  . intro h
    by_contra hcond
    rw [not_or, not_or, not_not] at hcond
    obtain ⟨hrelative, hmem, hlength⟩ := hcond
    exact not_preparesDirectory_shutOut hlength hrelative hmem (h _)
  . rintro (habs | hmem | hlength)
    . exact preparesDirectory_of_absolute habs
    . exact preparesDirectory_of_not_openToBind (not_openToBind_of_not_mem hmem)
    . exact preparesDirectory_of_not_openToBind (not_openToBind_of_length hlength)

-- `foo/sock`
def relativePath : Path := [0x66, 0x6f, 0x6f, slash, 0x73, 0x6f, 0x63, 0x6b]

-- The working directory `/home` has a directory `foo`, which the root directory has not.
def atHome : Sys where
  fs := {
    root := 0
    cwd := 1
    dirs := [
      fun name => if name = [0x68, 0x6f, 0x6d, 0x65] then some (.dir 1) else newDirectory 0 0 name,
      fun name => if name = [0x66, 0x6f, 0x6f] then some (.dir 2) else newDirectory 1 0 name,
      newDirectory 2 1
    ]
    denies := fun _ => none
  }
  socket := .ok ()
  listen := .ok ()
  bound := []

theorem not_preparesDirectory_relativePath : ¬PreparesDirectory relativePath atHome := by
  intro h
  have hbound : (endState ((serverOpen relativePath).run atHome)).bound
      = [(2, [0x73, 0x6f, 0x63, 0x6b])] := by
    simp only [serverOpen, openToBind, mkdirP, mkdirComponents_eq]
    decide +kernel
  obtain ⟨died, s', hrun, hsame⟩ := h.right (.inl (by decide))
  rw [hrun] at hbound
  cases hsame.symm.trans hbound

end

end Socket
end Runes
