import Runes.Libc.Tokens

/-!
This module contains path strings and the names that they are made of.
-/

namespace Unix

open Libc

abbrev Name := List UInt8

abbrev Path := List UInt8

def slash : UInt8 := 0x2f

def dot : Name := [0x2e]

def dotdot : Name := [0x2e, 0x2e]

def components (path : Path) : List Name := (path.splitOn slash).filter (fun name => name ≠ [])

/-- The absolute path of a directory, with a slash at its end. -/
def joinPath (names : List Name) : Path := slash :: names.flatMap (fun name => name ++ [slash])

section

variable {path rest front behind : Path} {name piece : Name} {names : List Name}

@[simp]
theorem components_nil : components [] = [] := rfl

theorem components_append (front behind : Path)
    : components (front ++ slash :: behind) = components front ++ components behind := by
  unfold components
  rw [List.splitOn_eq_splitOnP, List.splitOnP_append_cons front behind (by simp),
    List.filter_append]
  rfl

theorem components_slash (path : Path) : components (slash :: path) = components path :=
  components_append [] path

theorem components_name (hne : name ≠ []) (hslash : slash ∉ name) : components name = [name] := by
  have hpieces : name.splitOn slash = [name] := by
    rw [List.splitOn_eq_splitOnP]
    apply List.splitOnP_eq_singleton
    intro c hc
    rw [beq_eq_false_iff_ne]
    rintro rfl
    exact hslash hc
  unfold components
  rw [hpieces]
  simp [hne]

theorem mem_splitOn (h : piece ∈ path.splitOn slash)
    : slash ∉ piece ∧ piece.length ≤ path.length := by
  induction path generalizing piece with
  | nil =>
    rw [List.splitOn_nil, List.mem_singleton] at h
    subst h
    simp
  | cons c path ih =>
    rw [List.splitOn_cons_eq_if_modifyHead] at h
    split at h
    . rw [List.mem_cons] at h
      rcases h with rfl | h
      . simp
      . have := ih h
        exact ⟨this.left, Nat.le_succ_of_le this.right⟩
    . next hc =>
      cases hpieces : path.splitOn slash with
      | nil => exact absurd hpieces (List.splitOn_ne_nil slash path)
      | cons first pieces =>
        rw [hpieces, List.modifyHead_cons, List.mem_cons] at h
        rcases h with rfl | h
        . have hfirst := ih (hpieces ▸ List.mem_cons_self)
          constructor
          . rw [List.mem_cons, not_or]
            refine ⟨?_, hfirst.left⟩
            rintro rfl
            simp at hc
          . exact Nat.succ_le_succ hfirst.right
        . have := ih (hpieces ▸ List.mem_cons_of_mem first h)
          exact ⟨this.left, Nat.le_succ_of_le this.right⟩

theorem mem_components (h : name ∈ components path)
    : name ≠ [] ∧ slash ∉ name ∧ name.length ≤ path.length := by
  unfold components at h
  rw [List.mem_filter] at h
  exact ⟨of_decide_eq_true h.right, mem_splitOn h.left⟩

theorem valid_components (path : Path)
    : ∀ name ∈ components path, name ≠ [] ∧ slash ∉ name := by
  intro name hname
  have := mem_components hname
  exact ⟨this.left, this.right.left⟩

theorem components_joinPath (h : ∀ name ∈ names, name ≠ [] ∧ slash ∉ name)
    : components (joinPath names) = names := by
  unfold joinPath
  rw [components_slash]
  induction names with
  | nil => rfl
  | cons name names ih =>
    rw [List.forall_mem_cons] at h
    rw [List.flatMap_cons, List.append_assoc, List.singleton_append, components_append,
      components_name h.left.left h.left.right, ih h.right]
    rfl

theorem joinPath_concat (names : List Name) (name : Name)
    : joinPath (names ++ [name]) = joinPath names ++ name ++ [slash] := by
  simp [joinPath]

theorem components_dropWhile (path : Path)
    : components (path.dropWhile (fun c => c = slash)) = components path := by
  induction path with
  | nil => rfl
  | cons c path ih =>
    rw [List.dropWhile_cons]
    split
    . next hc =>
      rw [ih, of_decide_eq_true hc, components_slash]
    . rfl

theorem components_takeWhile (path : Path)
    : components (path.takeWhile (fun c => c ≠ slash))
        ++ components ((path.dropWhile (fun c => c ≠ slash)).drop 1)
      = components path := by
  have hsplit := List.takeWhile_append_dropWhile (p := fun c => decide (c ≠ slash)) (l := path)
  cases hrest : path.dropWhile (fun c => c ≠ slash) with
  | nil =>
    rw [hrest, List.append_nil] at hsplit
    rw [hsplit]
    simp
  | cons c rest =>
    have hc : c = slash := by
      have := List.head_dropWhile_not (fun c => decide (c ≠ slash)) (l := path) (by rw [hrest]; simp)
      simp only [hrest, List.head_cons] at this
      simpa using this
    rw [hrest, hc] at hsplit
    rw [List.drop_one, List.tail_cons, ← components_append, hsplit]

theorem components_of_strtok_none (h : strtok path slash = none) : components path = [] := by
  unfold strtok at h
  dsimp only at h
  split at h
  . next hnil =>
    rw [← components_dropWhile, hnil]
    rfl
  . cases h

theorem components_of_strtok_some (h : strtok path slash = some (name, rest))
    : components path = name :: components rest := by
  unfold strtok at h
  dsimp only at h
  split at h
  . cases h
  . next hne =>
    simp only [Option.some.injEq, Prod.mk.injEq] at h
    obtain ⟨rfl, rfl⟩ := h
    have hname : components ((path.dropWhile (fun c => c = slash)).takeWhile (fun c => c ≠ slash))
        = [(path.dropWhile (fun c => c = slash)).takeWhile (fun c => c ≠ slash)] := by
      apply components_name
      . have hhead := List.head_dropWhile_not (p := fun c => decide (c = slash)) hne
        cases hpath : path.dropWhile (fun c => c = slash) with
        | nil => exact absurd hpath hne
        | cons c rest =>
          simp only [hpath, List.head_cons, decide_eq_false_iff_not] at hhead
          simp [hhead]
      . intro hmem
        simpa using List.mem_takeWhile_imp hmem
    rw [← components_dropWhile, ← components_takeWhile, hname]
    rfl

theorem components_ne_nil {c : UInt8} (hmem : c ∈ path) (hc : c ≠ slash) : components path ≠ [] := by
  cases htok : strtok path slash with
  | none =>
    unfold strtok at htok
    dsimp only at htok
    split at htok
    . next hnil =>
      have := List.dropWhile_eq_nil_iff.mp hnil c hmem
      exact absurd (of_decide_eq_true this) hc
    . cases htok
  | some found =>
    rw [components_of_strtok_some htok]
    simp

end

end Unix
