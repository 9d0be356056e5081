import Mathlib.Data.List.Infix
import Runes.Socket.Server

/-!
This module contains the lemmas about the runs of the functions that open the socket of the daemon.
-/

namespace Runes
namespace Socket

open Libc Unix Exec

-- The directories from the root down to `dir`.
def ancestors (dir : Path) : List Path := (components dir).inits.tail.map joinPath

def nextDirectory (partialPath : Path) (name : Name) : SysM Path := do
  makeDirectory (partialPath ++ name ++ [slash])
  return partialPath ++ name ++ [slash]

section

variable {path dir p : Path} {names front : List Name} {name : Name} {s s' s₁ : Sys}

theorem dirname_of_append {last : List UInt8} (hlast : slash ∉ last)
    : dirname (dir ++ slash :: last) = some dir := by
  unfold dirname
  rw [strrchr_append hlast, Option.map_some, List.take_left]

theorem dirname_of_not_mem (h : slash ∉ path) : dirname path = none := by
  unfold dirname
  rw [strrchr_eq_none h, Option.map_none]

theorem exists_last (h : slash ∈ path) : ∃ dir last, path = dir ++ slash :: last ∧ slash ∉ last := by
  have hsplit := List.eq_append_cons_of_mem (List.mem_reverse.mpr h)
  obtain ⟨last, dir, hpath, hlast⟩ := hsplit
  refine ⟨dir.reverse, last.reverse, ?_, fun h => hlast (List.mem_reverse.mp h)⟩
  rw [← List.reverse_reverse path, hpath]
  simp

theorem dirname_eq_some (h : dirname path = some dir)
    : ∃ last, path = dir ++ slash :: last ∧ slash ∉ last := by
  by_cases hmem : slash ∈ path
  . obtain ⟨dir', last, rfl, hlast⟩ := exists_last hmem
    rw [dirname_of_append hlast] at h
    cases h
    exact ⟨last, rfl, hlast⟩
  . rw [dirname_of_not_mem hmem] at h
    cases h

theorem makeDirectory_run (p : Path) (s : Sys)
    : (makeDirectory p).run s = match s.fs.mkdir p with
      | .ok fs => .ok () { s with fs := fs }
      | .error errno =>
        if errno ≠ .eexist then
          .error ⟨"couldn't create directory %s: %s", some p, some errno⟩ s
        else
          .ok () s := by
  unfold makeDirectory
  rw [run_bind_ok (EStateM.run_get s)]
  cases s.fs.mkdir p with
  | ok fs => rfl
  | error errno =>
    dsimp only
    split <;> rfl

theorem mkdirComponents_eq (partialPath tokStr : Path)
    : mkdirComponents partialPath tokStr = (components tokStr).foldlM nextDirectory partialPath := by
  fun_induction mkdirComponents with
  | case1 partialPath tokStr htok =>
    rw [components_of_strtok_none htok]
    rfl
  | case2 partialPath tokStr name save htok newPath ih =>
    rw [components_of_strtok_some htok, List.foldlM_cons, ih]
    simp [nextDirectory, newPath]

theorem nextDirectory_ok (h : (nextDirectory (joinPath front) name).run s = .ok p s')
    : p = joinPath (front ++ [name])
      ∧ (s.fs.mkdir p = .ok s'.fs ∧ s' = { s with fs := s'.fs }
        ∨ s' = s) := by
  unfold nextDirectory at h
  rw [← joinPath_concat] at h
  obtain ⟨_, s₁, hmake, h⟩ := of_run_bind_ok h
  cases h
  refine ⟨rfl, ?_⟩
  rw [makeDirectory_run] at hmake
  split at hmake
  . next fs hmkdir =>
    cases hmake
    exact .inl ⟨hmkdir, rfl⟩
  . split at hmake
    . cases hmake
    . cases hmake
      exact .inr rfl

theorem tail_inits_cons (name : Name) (names : List Name)
    : (name :: names).inits.tail = [name] :: names.inits.tail.map (fun names => name :: names) := by
  rw [List.inits_cons, List.tail_cons]
  cases names <;> simp

theorem foldlM_nextDirectory_ok (front : List Name)
    (h : (names.foldlM nextDirectory (joinPath front)).run s = .ok p s')
    : p = joinPath (front ++ names) ∧ s' = { s with fs := s'.fs }
      ∧ ∃ made : List Path,
        made.Sublist (names.inits.tail.map (fun names => joinPath (front ++ names)))
          ∧ made.foldlM (fun fs p => fs.mkdir p) s.fs = .ok s'.fs := by
  induction names generalizing front s with
  | nil =>
    cases h
    exact ⟨by rw [List.append_nil], rfl, [], by simp, rfl⟩
  | cons name names ih =>
    rw [List.foldlM_cons] at h
    obtain ⟨p₁, s₁, hnext, h⟩ := of_run_bind_ok h
    obtain ⟨rfl, hstep⟩ := nextDirectory_ok hnext
    obtain ⟨hp, hs, made, hsub, hmade⟩ := ih (front ++ [name]) h
    have htail : (name :: names).inits.tail.map (fun names => joinPath (front ++ names))
        = joinPath (front ++ [name])
          :: names.inits.tail.map (fun names => joinPath (front ++ [name] ++ names)) := by
      rw [tail_inits_cons, List.map_cons, List.map_map]
      simp [Function.comp_def]
    rw [htail]
    refine ⟨by rw [hp, List.append_assoc]; rfl, ?_⟩
    rcases hstep with ⟨hmkdir, hs₁⟩ | rfl
    . refine ⟨by rw [hs, hs₁], _ :: made, hsub.cons_cons _, ?_⟩
      rw [List.foldlM_cons, hmkdir]
      exact hmade
    . exact ⟨hs, made, hsub.cons _, hmade⟩

theorem mkdirP_ok (h : (mkdirP dir).run s = .ok () s')
    : s' = { s with fs := s'.fs } ∧ (∃ d, s'.fs.resolve (joinPath (components dir)) = .ok (.dir d))
      ∧ ∃ made : List Path, made.Sublist (ancestors dir)
        ∧ made.foldlM (fun fs p => fs.mkdir p) s.fs = .ok s'.fs := by
  unfold mkdirP at h
  rw [mkdirComponents_eq] at h
  obtain ⟨p, s₁, hfold, h⟩ := of_run_bind_ok h
  obtain ⟨rfl, hs, made, hsub, hmade⟩ := foldlM_nextDirectory_ok [] hfold
  rw [run_bind_ok (EStateM.run_get s₁)] at h
  rw [List.nil_append] at h
  split at h
  . cases h
  . cases h
  . next d hd =>
    cases h
    exact ⟨hs, ⟨d, hd⟩, made, hsub, hmade⟩

theorem unlink_run (path : Path) (s : Sys)
    : (unlink path).run s = match s.fs.unlink path with
      | .ok fs => .ok () { s with fs := fs }
      | .error _ => .ok () s := by
  unfold unlink
  rw [run_bind_ok (EStateM.run_get s)]
  cases s.fs.unlink path <;> rfl

theorem unlink_ok (h : (unlink path).run s = .ok () s') : s'.fs.Extends s.fs := by
  rw [unlink_run] at h
  split at h
  . next fs hunlink =>
    cases h
    exact FileSystem.extends_of_unlink hunlink
  . cases h
    exact .refl _

theorem unlink_total (path : Path) (s : Sys)
    : ∃ s', (unlink path).run s = .ok () s' ∧ s'.socket = s.socket := by
  rw [unlink_run]
  split <;> exact ⟨_, rfl, rfl⟩

theorem openToBind_ok (h : (openToBind path).run s = .ok () s₁)
    : ∃ dir s₀, dirname path = some dir ∧ (mkdirP dir).run s = .ok () s₀ ∧ s₁.fs.Extends s₀.fs := by
  unfold openToBind at h
  obtain ⟨_, s₂, hlength, h⟩ := of_run_bind_ok h
  unfold populateSockaddr at hlength
  split at hlength
  . cases hlength
  cases hlength
  split at h
  . cases h
  . next dir hdir =>
    obtain ⟨_, s₀, hmkdir, h⟩ := of_run_bind_ok h
    obtain ⟨_, s₂, hunlink, h⟩ := of_run_bind_ok h
    rw [run_bind_ok (EStateM.run_get s₂)] at h
    split at h
    . cases h
    . cases h
      exact ⟨dir, s₀, hdir, hmkdir, unlink_ok hunlink⟩

theorem bound_bind {α β : Type} {m : SysM α} {f : α → SysM β}
    (hm : (endState (m.run s)).bound = s.bound)
    (hf : ∀ a s', s'.bound = s.bound → (endState ((f a).run s')).bound = s.bound)
    : (endState ((m >>= f).run s)).bound = s.bound := by
  apply endState_bind (P := fun s' : Sys => s'.bound = s.bound) hm
  intro a s' _ h
  exact hf a s' h

theorem nextDirectory_bound (p : Path) (name : Name) (s : Sys)
    : (endState ((nextDirectory p name).run s)).bound = s.bound := by
  unfold nextDirectory
  apply bound_bind
  . rw [makeDirectory_run]
    split
    . rfl
    . split <;> rfl
  . intro _ _ h
    exact h

theorem foldlM_nextDirectory_bound (names : List Name) (p : Path) (s : Sys)
    : (endState ((names.foldlM nextDirectory p).run s)).bound = s.bound := by
  induction names generalizing p s with
  | nil => rfl
  | cons name names ih =>
    rw [List.foldlM_cons]
    apply bound_bind (nextDirectory_bound p name s)
    intro p' s' h
    rw [ih, h]

theorem mkdirP_bound (dir : Path) (s : Sys)
    : (endState ((mkdirP dir).run s)).bound = s.bound := by
  unfold mkdirP
  rw [mkdirComponents_eq]
  apply bound_bind (foldlM_nextDirectory_bound _ _ s)
  intro p s' h
  rw [run_bind_ok (EStateM.run_get s')]
  split <;> exact h

theorem unlink_bound (path : Path) (s : Sys) : (endState ((unlink path).run s)).bound = s.bound := by
  rw [unlink_run]
  split <;> rfl

theorem populateSockaddr_bound (path : Path) (s : Sys)
    : (endState ((populateSockaddr path).run s)).bound = s.bound := by
  unfold populateSockaddr
  split <;> rfl

theorem openToBind_bound (path : Path) (s : Sys)
    : (endState ((openToBind path).run s)).bound = s.bound := by
  unfold openToBind
  apply bound_bind (populateSockaddr_bound path s)
  intro _ s₁ h₁
  split
  . exact h₁
  . next dir _ =>
    rw [← h₁]
    apply bound_bind (mkdirP_bound dir s₁)
    intro _ s₂ h₂
    rw [← h₂]
    apply bound_bind (unlink_bound path s₂)
    intro _ s₃ h₃
    rw [run_bind_ok (EStateM.run_get s₃)]
    split <;> exact h₃

end

end Socket
end Runes
