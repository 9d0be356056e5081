import Runes.Socket.ServerLemmas

/-!
This module contains what it means that the daemon prepares the directory of its socket, and that it
does so for every absolute path.
-/

namespace Runes
namespace Socket

open Libc Unix Exec

def IsAbsolute (path : Path) : Prop := path.head? = some slash

instance (path : Path) : Decidable (IsAbsolute path) :=
  inferInstanceAs (Decidable (path.head? = some slash))

/--
`mkdirP` has taken `s` to `s₀`, where it has found or made directory `d`, which is the one that
contains the path, and a socket that is bound in `s₁` comes into no other one.
-/
structure Prepared (path dir : Path) (s s₀ s₁ : Sys) (d : Nat) : Prop where
  dirname : dirname path = some dir
  mkdirP : (mkdirP dir).run s = .ok () s₀
  found : s₀.fs.resolve (joinPath (components dir)) = .ok (.dir d)
  contains : s₀.fs.follow maxLinks (s₀.fs.start s₀.fs.cwd path) (components dir) = .ok (.dir d)
  bind : FileSystem.hasSlash path = false →
    ∀ d' name, s₁.fs.parentOf path = .ok (d', name) → d' = d
  made : ∃ made : List Path, made.Sublist (ancestors dir) ∧ (∀ p ∈ made, s.fs.Missing p)
    ∧ made.foldlM (fun fs p => fs.mkdir p) s.fs = .ok s₀.fs

/-- Something is on the way to the path that is neither a directory nor a link to one. -/
def Obstructed (fs : FileSystem) (path : Path) : Prop :=
  ∃ dir front name d, dirname path = some dir ∧ front ++ [name] <+: components dir
    ∧ fs.follow maxLinks (fs.start fs.cwd path) front = .ok (.dir d) ∧ fs.entry d name ≠ none
    ∧ ∀ d', fs.follow maxLinks (fs.start fs.cwd path) (front ++ [name]) ≠ .ok (.dir d')

def PreparesDirectory (path : Path) (s : Sys) : Prop :=
  (∀ s₁, (openToBind path).run s = .ok () s₁ → ∃ dir s₀ d, Prepared path dir s s₀ s₁ d)
    ∧ (¬IsAbsolute path ∨ Obstructed s.fs path →
      ∃ died s', (serverOpen path).run s = .error died s' ∧ s'.bound = s.bound)

section

variable {path dir p : Path} {names front : List Name} {name : Name} {s s' s₀ s₁ : Sys} {d : Nat}

theorem start_absolute (h : IsAbsolute path) (fs : FileSystem) (d : Nat) : fs.start d path = fs.root :=
  if_pos h

theorem start_relative (h : ¬IsAbsolute path) (fs : FileSystem) (d : Nat) : fs.start d path = d :=
  if_neg h

theorem prepared_of_absolute (habs : IsAbsolute path) (h : (openToBind path).run s = .ok () s₁)
    : ∃ dir s₀ d, Prepared path dir s s₀ s₁ d := by
  obtain ⟨dir, s₀, hdir, hmkdir, hext⟩ := openToBind_ok h
  obtain ⟨_, ⟨d, hfound⟩, made, hsub, hmade⟩ := mkdirP_ok hmkdir
  have hleads := (FileSystem.resolve_joinPath (valid_components dir)).mp hfound
  refine ⟨dir, s₀, d, hdir, hmkdir, hfound, ?_, ?_, made, hsub, ?_, hmade⟩
  . rw [start_absolute habs]
    exact hleads.follow_eq
  . intro hslash d' name hplace
    obtain ⟨last, rfl, hlast⟩ := dirname_eq_some hdir
    have hbind := (FileSystem.leads_of_parentOf hlast hslash hplace).mono hext
    rw [start_absolute habs, ← hext.root] at hbind
    exact Node.dir.inj (hbind.unique hleads)
  . exact (FileSystem.extends_mkdirs hmade).right

theorem mem_ancestors (h : p ∈ ancestors dir) : IsAbsolute p ∧ components p <+: components dir := by
  unfold ancestors at h
  rw [List.mem_map] at h
  obtain ⟨names, hnames, rfl⟩ := h
  have hnames' := (List.mem_inits _ _).mp (List.mem_of_mem_tail hnames)
  refine ⟨rfl, ?_⟩
  rw [components_joinPath fun name hname => valid_components dir name (hnames'.subset hname)]
  exact hnames'

theorem not_openToBind_of_obstructed (habs : IsAbsolute path) (h : Obstructed s.fs path)
    : (openToBind path).run s ≠ .ok () s₁ := by
  intro hopen
  obtain ⟨dir, s₀, hdir, hmkdir, _⟩ := openToBind_ok hopen
  obtain ⟨_, ⟨d', hfound⟩, made, hsub, hmade⟩ := mkdirP_ok hmkdir
  obtain ⟨dir', front, name, d, hdir', hfrom, hfront, hentry, hstop⟩ := h
  cases hdir.symm.trans hdir'
  rw [start_absolute habs, FileSystem.follow_eq_ok] at hfront
  simp only [start_absolute habs, ne_eq, FileSystem.follow_eq_ok] at hstop
  have hfs : s₀.fs = s.fs := by
    cases made with
    | nil => exact (Except.ok.inj hmade).symm
    | cons p made =>
      obtain ⟨habs', hcomps⟩ := mem_ancestors (hsub.subset List.mem_cons_self)
      rw [List.foldlM_cons, except_bind_eq_ok] at hmade
      obtain ⟨fs, hmkdir, _⟩ := hmade
      rw [← start_absolute habs' s.fs s.fs.cwd] at hfront hstop
      exact absurd hmkdir (FileSystem.not_mkdir_of_obstacle hcomps hfrom hfront hentry hstop)
  have hleads := (FileSystem.resolve_joinPath (valid_components dir)).mp hfound
  rw [hfs] at hleads
  obtain ⟨rest, hrest⟩ := hfrom
  rw [← hrest] at hleads
  obtain ⟨_, c, hbefore, _⟩ := hleads.split
  exact hstop c hbefore

-- A run that ends before the socket is bound has bound nothing.
theorem serverOpen_of_not_openToBind (h : ∀ s₁, (openToBind path).run s ≠ .ok () s₁)
    : ∃ died s', (serverOpen path).run s = .error died s' ∧ s'.bound = s.bound := by
  have hbound := openToBind_bound path s
  cases hopen : (openToBind path).run s with
  | ok a s₁ => exact absurd hopen (h s₁)
  | error died s₁ =>
    rw [hopen] at hbound
    unfold serverOpen
    exact ⟨died, s₁, run_bind_error hopen, hbound⟩

theorem preparesDirectory_of_absolute (habs : IsAbsolute path) (s : Sys) : PreparesDirectory path s := by
  refine ⟨fun s₁ h => prepared_of_absolute habs h, ?_⟩
  rintro (h | h)
  . exact absurd habs h
  . exact serverOpen_of_not_openToBind fun s₁ => not_openToBind_of_obstructed habs h

theorem preparesDirectory_of_not_openToBind (h : ∀ s s₁, (openToBind path).run s ≠ .ok () s₁) (s : Sys)
    : PreparesDirectory path s :=
  ⟨fun s₁ hopen => absurd hopen (h s s₁), fun _ => serverOpen_of_not_openToBind (h s)⟩

theorem not_openToBind_of_not_mem (h : slash ∉ path) (s s₁ : Sys)
    : (openToBind path).run s ≠ .ok () s₁ := by
  intro hopen
  obtain ⟨dir, _, hdir, _⟩ := openToBind_ok hopen
  rw [dirname_of_not_mem h] at hdir
  cases hdir

theorem not_openToBind_of_length (h : maxSocketPathLen < path.length + 1) (s s₁ : Sys)
    : (openToBind path).run s ≠ .ok () s₁ := by
  intro hopen
  unfold openToBind populateSockaddr at hopen
  rw [if_pos h] at hopen
  cases hopen

end

end Socket
end Runes
