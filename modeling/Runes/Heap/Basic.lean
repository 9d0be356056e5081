import Mathlib.Data.List.Basic

/-!
This module contains a heap as a C program sees it through `malloc`, `free` and the stores into the
blocks it owns. A misuse does not stop the program, it is recorded.
-/

inductive Ptr (ι : Type) where
  | null
  | block (addr : Nat)
  | foreign (origin : ι)
  deriving DecidableEq

/--
The live blocks with their sizes, the address that the next `malloc` returns, the pointers that
should not have been passed to `free` and the stores that did not fit into their block, the last one
first.
-/
structure Heap (ι : Type) where
  live : Nat → Option Nat
  next : Nat
  badFrees : List (Ptr ι)
  badStores : List (Nat × Nat)
  fresh : ∀ addr, next ≤ addr → live addr = none

namespace Heap

def empty : Heap ι where
  live := fun _ => none
  next := 0
  badFrees := []
  badStores := []
  fresh := by simp

def badFree (h : Heap ι) (p : Ptr ι) : Heap ι :=
  { h with badFrees := p :: h.badFrees }

def badStore (h : Heap ι) (addr extent : Nat) : Heap ι :=
  { h with badStores := (addr, extent) :: h.badStores }

def malloc (h : Heap ι) (size : Nat) : Heap ι where
  live := fun addr => if addr = h.next then some size else h.live addr
  next := h.next + 1
  badFrees := h.badFrees
  badStores := h.badStores
  fresh := by
    intro addr haddr
    rw [if_neg (by omega)]
    apply h.fresh
    omega

def free (h : Heap ι) (p : Ptr ι) : Heap ι :=
  match p with
  | .null => h
  | .block addr =>
    match h.live addr with
    | some _ =>
      {
        h with
        live := fun a => if a = addr then none else h.live a
        fresh := by
          intro a ha
          split
          . rfl
          . apply h.fresh a ha
      }
    | none => h.badFree p
  | .foreign _ => h.badFree p

def store (h : Heap ι) (addr : Nat) (extent : Nat) : Heap ι :=
  match h.live addr with
  | some size => if extent ≤ size then h else h.badStore addr extent
  | none => h.badStore addr extent

theorem lt_next_of_live {h : Heap ι} {addr size : Nat} (hlive : h.live addr = some size)
    : addr < h.next := by
  by_contra hge
  rw [h.fresh addr (by omega)] at hlive
  simp at hlive

@[simp]
theorem malloc_next (h : Heap ι) (size : Nat) : (h.malloc size).next = h.next + 1 := rfl

@[simp]
theorem malloc_badFrees (h : Heap ι) (size : Nat) : (h.malloc size).badFrees = h.badFrees := rfl

@[simp]
theorem malloc_badStores (h : Heap ι) (size : Nat)
    : (h.malloc size).badStores = h.badStores := rfl

@[simp]
theorem malloc_live (h : Heap ι) (size : Nat) (addr : Nat)
    : (h.malloc size).live addr = if addr = h.next then some size else h.live addr := rfl

@[simp]
theorem free_null (h : Heap ι) : h.free .null = h := rfl

@[simp]
theorem free_foreign_badFrees (h : Heap ι) (origin : ι)
    : (h.free (.foreign origin)).badFrees = .foreign origin :: h.badFrees := rfl

theorem free_block_badFrees {h : Heap ι} {addr size : Nat} (hlive : h.live addr = some size)
    : (h.free (.block addr)).badFrees = h.badFrees := by
  simp [free, hlive]

theorem free_block_live {h : Heap ι} {addr size : Nat} (hlive : h.live addr = some size) (a : Nat)
    : (h.free (.block addr)).live a = if a = addr then none else h.live a := by
  simp [free, hlive]

@[simp]
theorem free_badStores (h : Heap ι) (p : Ptr ι) : (h.free p).badStores = h.badStores := by
  unfold free
  split
  . rfl
  . split
    . rfl
    . rfl
  . rfl

@[simp]
theorem store_live (h : Heap ι) (addr extent : Nat) : (h.store addr extent).live = h.live := by
  unfold store
  split
  . split
    . rfl
    . rfl
  . rfl

@[simp]
theorem store_next (h : Heap ι) (addr extent : Nat) : (h.store addr extent).next = h.next := by
  unfold store
  split
  . split
    . rfl
    . rfl
  . rfl

@[simp]
theorem store_badFrees (h : Heap ι) (addr extent : Nat)
    : (h.store addr extent).badFrees = h.badFrees := by
  unfold store
  split
  . split
    . rfl
    . rfl
  . rfl

theorem store_of_le {h : Heap ι} {addr size extent : Nat} (hlive : h.live addr = some size)
    (hle : extent ≤ size)
    : h.store addr extent = h := by
  simp [store, hlive, hle]

/--
`h'` is `h` with the new live blocks `addrs` and without a further misuse of `free`.
-/
structure Allocates (h h' : Heap ι) (addrs : List Nat) : Prop where
  nodup : addrs.Nodup
  bounds : ∀ addr ∈ addrs, h.next ≤ addr ∧ addr < h'.next
  isLive : ∀ addr ∈ addrs, (h'.live addr).isSome
  frame : ∀ addr, addr ∉ addrs → h'.live addr = h.live addr
  next_le : h.next ≤ h'.next
  badFrees : h'.badFrees = h.badFrees

namespace Allocates

theorem refl (h : Heap ι) : Allocates h h [] where
  nodup := by simp
  bounds := by simp
  isLive := by simp
  frame := by simp
  next_le := by simp
  badFrees := rfl

theorem malloc (h : Heap ι) (size : Nat) : Allocates h (h.malloc size) [h.next] where
  nodup := by simp
  bounds := by simp
  isLive := by simp
  frame := by
    intro addr haddr
    simp only [List.mem_singleton] at haddr
    simp [haddr]
  next_le := by simp
  badFrees := rfl

theorem store (h : Heap ι) (addr extent : Nat) : Allocates h (h.store addr extent) [] where
  nodup := by simp
  bounds := by simp
  isLive := by simp
  frame := by simp
  next_le := by simp
  badFrees := by simp

theorem trans {h₁ h₂ h₃ : Heap ι} {as bs : List Nat} (h₁₂ : Allocates h₁ h₂ as)
    (h₂₃ : Allocates h₂ h₃ bs)
    : Allocates h₁ h₃ (as ++ bs) where
  nodup := by
    rw [List.nodup_append]
    refine ⟨h₁₂.nodup, h₂₃.nodup, ?_⟩
    intro a ha b hb
    have := (h₁₂.bounds a ha).right
    have := (h₂₃.bounds b hb).left
    omega
  bounds := by
    intro addr haddr
    have := h₁₂.next_le
    have := h₂₃.next_le
    rcases List.mem_append.mp haddr with haddr | haddr
    . have := h₁₂.bounds addr haddr
      omega
    . have := h₂₃.bounds addr haddr
      omega
  isLive := by
    intro addr haddr
    by_cases hb : addr ∈ bs
    . apply h₂₃.isLive addr hb
    . rw [h₂₃.frame addr hb]
      apply h₁₂.isLive
      simpa [hb] using haddr
  frame := by
    intro addr haddr
    simp only [List.mem_append, not_or] at haddr
    rw [h₂₃.frame addr haddr.right, h₁₂.frame addr haddr.left]
  next_le := Nat.le_trans h₁₂.next_le h₂₃.next_le
  badFrees := by rw [h₂₃.badFrees, h₁₂.badFrees]

theorem andStore {h h' : Heap ι} {as : List Nat} (halloc : Allocates h h' as) (addr extent : Nat)
    : Allocates h (h'.store addr extent) as := by
  simpa using halloc.trans (store h' addr extent)

theorem perm {h h' : Heap ι} {as bs : List Nat} (halloc : Allocates h h' as) (hperm : as.Perm bs)
    : Allocates h h' bs where
  nodup := hperm.nodup_iff.mp halloc.nodup
  bounds addr haddr := halloc.bounds addr (hperm.mem_iff.mpr haddr)
  isLive addr haddr := halloc.isLive addr (hperm.mem_iff.mpr haddr)
  frame addr haddr := halloc.frame addr (fun hmem => haddr (hperm.mem_iff.mp hmem))
  next_le := halloc.next_le
  badFrees := halloc.badFrees

theorem andMalloc {h h' : Heap ι} {as : List Nat} (halloc : Allocates h h' as) (size : Nat)
    : Allocates h (h'.malloc size) (h'.next :: as) :=
  (halloc.trans (malloc h' size)).perm List.perm_append_comm

theorem free {h h' : Heap ι} {addr : Nat} {as : List Nat} (halloc : Allocates h h' (addr :: as))
    : Allocates h (h'.free (.block addr)) as := by
  obtain ⟨size, hlive⟩ := Option.isSome_iff_exists.mp (halloc.isLive addr List.mem_cons_self)
  obtain ⟨hnotin, hnodup⟩ := List.nodup_cons.mp halloc.nodup
  have hnext : (h'.free (.block addr)).next = h'.next := by
    unfold Heap.free
    dsimp only
    rw [hlive]
  refine ⟨hnodup, ?_, ?_, ?_, ?_, ?_⟩
  . intro a ha
    rw [hnext]
    exact halloc.bounds a (List.mem_cons_of_mem addr ha)
  . intro a ha
    have hne : a ≠ addr := by
      rintro rfl
      exact hnotin ha
    rw [free_block_live hlive, if_neg hne]
    exact halloc.isLive a (List.mem_cons_of_mem addr ha)
  . intro a ha
    rw [free_block_live hlive]
    by_cases heq : a = addr
    . subst heq
      rw [if_pos rfl]
      exact (h.fresh a (halloc.bounds a List.mem_cons_self).left).symm
    . rw [if_neg heq]
      exact halloc.frame a (by simp [heq, ha])
  . rw [hnext]
    exact halloc.next_le
  . rw [free_block_badFrees hlive]
    exact halloc.badFrees

theorem live_of_lt {h h' : Heap ι} {as : List Nat} (halloc : Allocates h h' as) {addr : Nat}
    (haddr : addr < h.next)
    : h'.live addr = h.live addr := by
  apply halloc.frame
  intro hmem
  have := (halloc.bounds addr hmem).left
  omega

end Allocates

def freeAll (h : Heap ι) (addrs : List Nat) : Heap ι :=
  addrs.foldl (fun h addr => h.free (.block addr)) h

@[simp]
theorem freeAll_nil (h : Heap ι) : h.freeAll [] = h := rfl

@[simp]
theorem freeAll_cons (h : Heap ι) (addr : Nat) (addrs : List Nat)
    : h.freeAll (addr :: addrs) = (h.free (.block addr)).freeAll addrs := rfl

theorem freeAll_append (h : Heap ι) (as bs : List Nat)
    : h.freeAll (as ++ bs) = (h.freeAll as).freeAll bs := by
  simp [freeAll]

@[simp]
theorem freeAll_badStores (h : Heap ι) (addrs : List Nat)
    : (h.freeAll addrs).badStores = h.badStores := by
  induction addrs generalizing h with
  | nil => rfl
  | cons addr addrs ih => rw [freeAll_cons, ih, free_badStores]

theorem freeAll_spec (h : Heap ι) (addrs : List Nat) (hnodup : addrs.Nodup)
    (hlive : ∀ addr ∈ addrs, (h.live addr).isSome)
    : (h.freeAll addrs).badFrees = h.badFrees
        ∧
      ∀ addr, (h.freeAll addrs).live addr = if addr ∈ addrs then none else h.live addr := by
  induction addrs generalizing h with
  | nil => simp
  | cons a as ih =>
    rw [List.nodup_cons] at hnodup
    obtain ⟨size, hsize⟩ := Option.isSome_iff_exists.mp (hlive a (by simp))
    have hstep : ∀ addr ∈ as, ((h.free (.block a)).live addr).isSome := by
      intro addr haddr
      rw [free_block_live hsize, if_neg]
      . exact hlive addr (by simp [haddr])
      . intro heq
        apply hnodup.left (heq ▸ haddr)
    have hrest := ih (h.free (.block a)) hnodup.right hstep
    rw [freeAll_cons]
    constructor
    . rw [hrest.left, free_block_badFrees hsize]
    . intro addr
      rw [hrest.right, free_block_live hsize]
      by_cases heq : addr = a
      . simp [heq]
      . simp [heq]

theorem Allocates.freeAll_eq {h h' : Heap ι} {as bs : List Nat} (halloc : Allocates h h' as)
    (hperm : as.Perm bs)
    : (h'.freeAll bs).badFrees = h.badFrees ∧ (h'.freeAll bs).live = h.live := by
  have hspec := freeAll_spec h' bs (hperm.nodup_iff.mp halloc.nodup)
    (fun addr haddr => halloc.isLive addr (hperm.mem_iff.mpr haddr))
  constructor
  . rw [hspec.left, halloc.badFrees]
  . funext addr
    rw [hspec.right]
    split
    . next hmem =>
      symm
      apply h.fresh
      apply (halloc.bounds addr (hperm.mem_iff.mpr hmem)).left
    . next hmem =>
      apply halloc.frame addr (fun hmem' => hmem (hperm.mem_iff.mp hmem'))

end Heap
