import Runes.Unix.FileSystem

/-!
This module contains the lemmas about what paths lead to while directories are added.
-/

namespace Unix
namespace FileSystem

open Exec

variable {fs fs' fs'' : FileSystem} {links d d' : Nat} {name : Name} {names names' : List Name}
variable {node : Node} {path : Path} {e : Option Entry}

-- There is nothing at the path yet, or nothing that would contain it.
def Missing (fs : FileSystem) (path : Path) : Prop :=
  ∀ d name, fs.parentOf path = .ok (d, name) → fs.entry d name = none

theorem Extends.refl (fs : FileSystem) : fs.Extends fs := ⟨rfl, rfl, rfl, fun h => h⟩

theorem Extends.trans (h : fs.Extends fs') (h' : fs'.Extends fs'') : fs.Extends fs'' where
  root := h'.root.trans h.root
  cwd := h'.cwd.trans h.cwd
  denies := h'.denies.trans h.denies
  entry := fun hentry => h'.entry (h.entry hentry)

theorem Extends.start_eq (h : fs.Extends fs') (d : Nat) (path : Path)
    : fs'.start d path = fs.start d path := by
  unfold start
  rw [h.root]

theorem Leads.mono (h : fs.Leads links d names node) (hext : fs.Extends fs')
    : fs'.Leads links d names node := by
  induction h with
  | here => exact .here
  | dir hsearch hentry _ ih =>
    rw [← hext.denies] at hsearch
    exact .dir hsearch (hext.entry hentry) ih
  | link hsearch hentry _ ih =>
    rw [← hext.denies] at hsearch
    rw [← hext.start_eq] at ih
    exact .link hsearch (hext.entry hentry) ih
  | file hsearch hentry =>
    rw [← hext.denies] at hsearch
    exact .file hsearch (hext.entry hentry)

-- The names behind a link are followed with fewer links than are left at its start.
theorem Leads.split (h : fs.Leads links d (names ++ names') (.dir d'))
    : ∃ links' c, fs.Leads links d names (.dir c) ∧ fs.Leads links' c names' (.dir d') := by
  generalize hnode : Node.dir d' = node at h
  generalize hall : names ++ names' = all at h
  induction h generalizing names with
  | @here links d =>
    rw [List.append_eq_nil_iff] at hall
    obtain ⟨rfl, rfl⟩ := hall
    cases hnode
    exact ⟨links, d', .here, .here⟩
  | @dir links d c name all node hsearch hentry h ih =>
    subst hnode
    cases names with
    | nil =>
      rw [List.nil_append] at hall
      exact ⟨links, d, .here, hall ▸ .dir hsearch hentry h⟩
    | cons first names =>
      rw [List.cons_append, List.cons.injEq] at hall
      obtain ⟨rfl, hall⟩ := hall
      obtain ⟨links', c, hnames, hnames'⟩ := ih rfl hall
      exact ⟨links', c, .dir hsearch hentry hnames, hnames'⟩
  | @link links d name all target node hsearch hentry h ih =>
    subst hnode
    cases names with
    | nil =>
      rw [List.nil_append] at hall
      exact ⟨links + 1, d, .here, hall ▸ .link hsearch hentry h⟩
    | cons first names =>
      rw [List.cons_append, List.cons.injEq] at hall
      obtain ⟨rfl, rfl⟩ := hall
      obtain ⟨links', c, hnames, hnames'⟩ := ih rfl (List.append_assoc _ _ _)
      exact ⟨links', c, .link hsearch hentry hnames, hnames'⟩
  | file _ _ => cases hnode

theorem Leads.entry_ne_none (h : fs.Leads links d (name :: names) node)
    : fs.entry d name ≠ none := by
  cases h with
  | dir _ hentry _ => simp [hentry]
  | link _ hentry _ => simp [hentry]
  | file _ hentry => simp [hentry]

theorem Leads.search (h : fs.Leads links d (name :: names) node)
    : fs.denies (.search d name) = none := by
  cases h with
  | dir hsearch _ _ => exact hsearch
  | link hsearch _ _ => exact hsearch
  | file hsearch _ => exact hsearch

theorem Leads.concat {c : Nat} (h : fs.Leads links d names (.dir c))
    (hsearch : fs.denies (.search c name) = none) (hentry : fs.entry c name = some (.dir d'))
    : fs.Leads links d (names ++ [name]) (.dir d') := by
  generalize hnode : Node.dir c = node at h
  induction h with
  | here =>
    cases hnode
    exact .dir hsearch hentry .here
  | dir hsearch' hentry' _ ih => exact .dir hsearch' hentry' (ih hnode)
  | link hsearch' hentry' _ ih =>
    have := ih hnode
    rw [List.append_assoc] at this
    exact .link hsearch' hentry' this
  | file _ _ => cases hnode

theorem resolve_joinPath (hnames : ∀ name ∈ names, name ≠ [] ∧ slash ∉ name)
    : fs.resolve (joinPath names) = .ok (.dir d) ↔ fs.Leads maxLinks fs.root names (.dir d) := by
  have hstart : fs.start fs.cwd (joinPath names) = fs.root := if_pos rfl
  unfold resolve
  rw [if_neg (by simp [joinPath]), except_bind_eq_ok, components_joinPath hnames, hstart]
  constructor
  . rintro ⟨node, hfollow, h⟩
    split at h
    . cases h
    . cases h
      exact follow_eq_ok.mp hfollow
  . intro h
    exact ⟨_, h.follow_eq, if_neg (by simp)⟩

theorem parentOf_eq_ok
    : fs.parentOf path = .ok (d, name)
        ↔ ∃ front, components path = front ++ [name]
          ∧ fs.Leads maxLinks (fs.start fs.cwd path) front (.dir d) := by
  unfold parentOf
  constructor
  . intro h
    split at h
    . cases h
    . next last hlast =>
      split at h
      . cases h
      . cases h
      . next hfollow =>
        cases h
        obtain ⟨front, hcomps⟩ := List.getLast?_eq_some_iff.mp hlast
        rw [hcomps, List.dropLast_concat] at hfollow
        exact ⟨front, hcomps, follow_eq_ok.mp hfollow⟩
  . rintro ⟨front, hcomps, hleads⟩
    rw [hcomps, List.getLast?_concat, List.dropLast_concat, hleads.follow_eq]

-- The last name of the path is in the directory that its other names lead to.
theorem leads_of_parentOf {dir : Path} {last : List UInt8} (hlast : slash ∉ last)
    (hslash : hasSlash (dir ++ slash :: last) = false)
    (h : fs.parentOf (dir ++ slash :: last) = .ok (d, name))
    : fs.Leads maxLinks (fs.start fs.cwd (dir ++ slash :: last)) (components dir) (.dir d) := by
  have hne : last ≠ [] := by
    rintro rfl
    exact of_decide_eq_false hslash List.getLast?_concat
  obtain ⟨front, hcomps, hleads⟩ := parentOf_eq_ok.mp h
  rw [components_append, components_name hne hlast] at hcomps
  rw [(List.append_inj' hcomps rfl).left]
  exact hleads

theorem Extends.parentOf_eq (hext : fs.Extends fs') (h : fs.parentOf path = .ok (d, name))
    : fs'.parentOf path = .ok (d, name) := by
  rw [parentOf_eq_ok] at h ⊢
  obtain ⟨front, hcomps, hleads⟩ := h
  rw [hext.cwd, hext.start_eq]
  exact ⟨front, hcomps, hleads.mono hext⟩

theorem Missing.of_extends (hext : fs.Extends fs') (h : fs'.Missing path) : fs.Missing path := by
  intro d name hparent
  cases hentry : fs.entry d name with
  | none => rfl
  | some e =>
    have := hext.entry hentry
    rw [h d name (hext.parentOf_eq hparent)] at this
    cases this

theorem entry_put (d' : Nat) (name' : Name)
    : (fs.put d name e).entry d' name'
      = if d' = d ∧ name' = name then (fs.dirs[d]?).bind (fun _ => e) else fs.entry d' name' := by
  unfold put entry
  dsimp only
  rw [List.getElem?_modify]
  by_cases heq : d' = d
  . subst heq
    cases fs.dirs[d']? with
    | none => simp
    | some dir => simp [Function.update_apply]
  . simp [heq, Ne.symm heq]

theorem entry_addDirectory (hd : d < fs.dirs.length) (d' : Nat) (name' : Name)
    : (fs.addDirectory d name).entry d' name'
      = if d' = fs.dirs.length then newDirectory fs.dirs.length d name'
        else if d' = d ∧ name' = name then some (.dir fs.dirs.length)
        else fs.entry d' name' := by
  have hput : (fs.put d name (some (.dir fs.dirs.length))).entry d' name' = _ := entry_put d' name'
  rw [List.getElem?_eq_getElem hd, Option.bind_some] at hput
  rw [← hput]
  have hlength : (fs.put d name (some (.dir fs.dirs.length))).dirs.length = fs.dirs.length := by
    simp [put]
  unfold addDirectory entry
  dsimp only
  rw [List.getElem?_append, hlength]
  split
  . next hlt => rw [if_neg (Nat.ne_of_lt hlt)]
  . next hge =>
    split
    . next heq => simp [heq]
    . next hne =>
      rw [List.getElem?_eq_none (by simp; omega), List.getElem?_eq_none (by omega)]

theorem extends_addDirectory (hd : d < fs.dirs.length) (hnone : fs.entry d name = none)
    : fs.Extends (fs.addDirectory d name) := by
  refine ⟨rfl, rfl, rfl, ?_⟩
  intro d' name' e hentry
  rw [entry_addDirectory hd]
  split
  . next heq =>
    subst heq
    simp [entry] at hentry
  . split
    . next heq =>
      rw [heq.left, heq.right, hnone] at hentry
      cases hentry
    . exact hentry

theorem check_eq_ok {request : Request} : fs.check request = .ok () ↔ fs.denies request = none := by
  unfold check
  cases fs.denies request <;> simp

theorem mkdir_eq_ok
    : fs.mkdir path = .ok fs'
        ↔ ∃ d name, fs.parentOf path = .ok (d, name) ∧ fs.lookup d name = .ok none
          ∧ fs.denies (.mkdir d name) = none ∧ d < fs.dirs.length
          ∧ fs.addDirectory d name = fs' := by
  unfold mkdir
  rw [except_bind_eq_ok]
  constructor
  . rintro ⟨⟨d, name⟩, hparent, h⟩
    rw [except_bind_eq_ok] at h
    obtain ⟨found, hlookup, h⟩ := h
    cases found with
    | some e => cases h
    | none =>
      dsimp only at h
      rw [except_bind_eq_ok] at h
      obtain ⟨_, hcheck, h⟩ := h
      split at h
      . next hd =>
        cases h
        exact ⟨d, name, hparent, hlookup, check_eq_ok.mp hcheck, hd, rfl⟩
      . cases h
  . rintro ⟨d, name, hparent, hlookup, hdenies, hd, rfl⟩
    refine ⟨(d, name), hparent, except_bind_eq_ok.mpr ⟨none, hlookup, ?_⟩⟩
    refine except_bind_eq_ok.mpr ⟨(), check_eq_ok.mpr hdenies, ?_⟩
    rw [if_pos hd]
    rfl

theorem mkdir_of_some {found : Entry} (hparent : fs.parentOf path = .ok (d, name))
    (hlookup : fs.lookup d name = .ok (some found))
    : fs.mkdir path = .error .eexist := by
  unfold mkdir
  rw [hparent]
  change (fs.lookup d name >>= _) = _
  rw [hlookup]
  rfl

theorem unlink_eq_ok (h : fs.unlink path = .ok fs') : ∃ d name, fs' = fs.put d name none := by
  unfold unlink at h
  split at h
  . cases h
  . rw [except_bind_eq_ok] at h
    obtain ⟨⟨d, name⟩, _, h⟩ := h
    rw [except_bind_eq_ok] at h
    obtain ⟨found, _, h⟩ := h
    split at h
    . cases h
    . cases h
    . split at h
      . cases h
      . rw [except_bind_eq_ok] at h
        obtain ⟨_, _, h⟩ := h
        cases h
        exact ⟨d, name, rfl⟩

theorem extends_mkdir (h : fs.mkdir path = .ok fs') : fs.Extends fs' := by
  obtain ⟨d, name, _, hlookup, _, hd, rfl⟩ := mkdir_eq_ok.mp h
  exact extends_addDirectory hd (lookup_eq_ok.mp hlookup).right

theorem missing_of_mkdir (h : fs.mkdir path = .ok fs') : fs.Missing path := by
  obtain ⟨d, name, hparent, hlookup, _⟩ := mkdir_eq_ok.mp h
  intro d' name' hparent'
  cases hparent.symm.trans hparent'
  exact (lookup_eq_ok.mp hlookup).right

-- What is still there after a file has been removed was there before.
theorem extends_of_unlink (h : fs.unlink path = .ok fs') : fs'.Extends fs := by
  obtain ⟨d, name, rfl⟩ := unlink_eq_ok h
  refine ⟨rfl, rfl, rfl, ?_⟩
  intro d' name' e hentry
  rw [entry_put] at hentry
  split at hentry
  . rw [Option.bind_fun_none] at hentry
    cases hentry
  . exact hentry

theorem extends_mkdirs {paths : List Path}
    (h : paths.foldlM (fun fs path => fs.mkdir path) fs = .ok fs')
    : fs.Extends fs' ∧ ∀ path ∈ paths, fs.Missing path := by
  induction paths generalizing fs with
  | nil =>
    cases h
    exact ⟨.refl _, by simp⟩
  | cons path paths ih =>
    rw [List.foldlM_cons, except_bind_eq_ok] at h
    obtain ⟨fs₁, hmkdir, h⟩ := h
    have ⟨hext, hmissing⟩ := ih h
    have hext₁ := extends_mkdir hmkdir
    refine ⟨hext₁.trans hext, List.forall_mem_cons.mpr ⟨missing_of_mkdir hmkdir, ?_⟩⟩
    intro path hpath
    exact (hmissing path hpath).of_extends hext₁

-- Nothing can be made on the way to something that is there, nor behind what is not a directory.
theorem not_mkdir_of_obstacle {front : List Name} {d : Nat} {name : Name}
    (hall : components path <+: names) (hobstacle : front ++ [name] <+: names)
    (hfront : fs.Leads maxLinks (fs.start fs.cwd path) front (.dir d))
    (hentry : fs.entry d name ≠ none)
    (hstop : ∀ d', ¬fs.Leads maxLinks (fs.start fs.cwd path) (front ++ [name]) (.dir d'))
    : fs.mkdir path ≠ .ok fs' := by
  intro h
  obtain ⟨c, last, hparent, hlookup, _⟩ := mkdir_eq_ok.mp h
  obtain ⟨above, hcomps, habove⟩ := parentOf_eq_ok.mp hparent
  have hnone := (lookup_eq_ok.mp hlookup).right
  rw [hcomps] at hall
  by_cases hlength : (above ++ [last]).length ≤ (front ++ [name]).length
  . obtain ⟨rest, hrest⟩ := List.prefix_of_prefix_length_le hall hobstacle hlength
    rcases List.eq_nil_or_concat rest with rfl | ⟨rest, last', rfl⟩
    . rw [List.append_nil] at hrest
      obtain ⟨rfl, hname⟩ := List.append_inj' hrest rfl
      cases hname
      cases habove.unique hfront
      exact hentry hnone
    . rw [List.concat_eq_append, ← List.append_assoc] at hrest
      obtain ⟨rfl, _⟩ := List.append_inj' hrest rfl
      rw [List.append_assoc] at hfront
      obtain ⟨links', c', habove', hbelow⟩ := hfront.split
      cases habove.unique habove'
      exact hbelow.entry_ne_none hnone
  . have hle : (front ++ [name]).length ≤ above.length := by
      simp only [List.length_append, List.length_singleton] at hlength ⊢
      omega
    obtain ⟨rest, rfl⟩ := List.prefix_of_prefix_length_le hobstacle
      ((List.prefix_append above [last]).trans hall) hle
    obtain ⟨_, d', hbefore, _⟩ := habove.split
    exact hstop d' hbefore

end FileSystem
end Unix
