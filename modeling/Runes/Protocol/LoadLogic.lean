import Runes.Exec.EState
import Runes.Protocol.Load

/-!
This module contains the rules by which runs of the decoder are put together: runs that end normally
after accesses inside the packet, and runs that leave the packet on their way.
-/

namespace Runes
namespace Protocol

open Wire Exec

theorem run_record (a : Access) (s : LoadState) : (record a).run s = .ok () (s.record a) := rfl

theorem run_free (p : Ptr Origin) (s : LoadState)
    : (free p).run s = .ok () { s with heap := s.heap.free p } := rfl

theorem run_readAt (mem : List UInt8) (p n : Nat) (s : LoadState)
    : (readAt mem p n).run s
        =
      if n = 0 ∨ p + n ≤ mem.length then
        .ok ((mem.drop p).take n) (s.record (.read p n))
      else
        .error .segfault (s.record (.read p n)) := by
  unfold readAt
  simp only [EStateM.run_bind, run_record]
  split
  . rfl
  . rfl

def Monotone (m : LoadM α) : Prop :=
  ∀ s, s.trace <+: (endState (m.run s)).trace

namespace Monotone

theorem pure (a : α) : Monotone (pure a) := by
  intro s
  apply List.prefix_refl

theorem bind {m : LoadM α} {f : α → LoadM β} (hm : Monotone m) (hf : ∀ a, Monotone (f a))
    : Monotone (m >>= f) := by
  intro s
  have hfst := hm s
  rw [EStateM.run_bind]
  cases hrun : m.run s with
  | ok a s' =>
    rw [hrun] at hfst
    apply List.IsPrefix.trans hfst (hf a s')
  | error e s' =>
    rw [hrun] at hfst
    exact hfst

theorem record (a : Access) : Monotone (record a) := by
  intro s
  apply List.prefix_append

theorem malloc (size : Nat) : Monotone (malloc size) := by
  intro s
  apply List.prefix_refl

theorem free (p : Ptr Origin) : Monotone (free p) := by
  intro s
  apply List.prefix_refl

theorem store (addr extent : Nat) : Monotone (store addr extent) := by
  intro s
  apply List.prefix_refl

theorem readAt (mem : List UInt8) (p n : Nat) : Monotone (readAt mem p n) := by
  intro s
  rw [run_readAt]
  split
  . apply List.prefix_append
  . apply List.prefix_append

theorem load {loader : Nat → Nat → LoadM (Option (α × Nat))} (h : ∀ p k, Monotone (loader p k))
    (buf len offset : Nat)
    : Monotone (load loader buf len offset) := by
  unfold Protocol.load
  apply bind (record _)
  intro _
  apply bind (h _ _)
  intro o
  cases o with
  | none => exact pure _
  | some r => exact bind (record _) (fun _ => pure _)

theorem loadU32 (mem : List UInt8) (buf len : Nat) : Monotone (loadU32 mem buf len) := by
  unfold Protocol.loadU32
  split
  . exact pure _
  . exact bind (readAt _ _ _) (fun _ => pure _)

theorem loadStr (mem : List UInt8) (buf len : Nat) : Monotone (loadStr mem buf len) := by
  unfold Protocol.loadStr
  apply bind (load (loadU32 mem) _ _ _)
  intro o
  cases o with
  | none => exact bind (free _) (fun _ => pure _)
  | some r =>
    dsimp
    split
    . exact pure _
    . apply bind (malloc _)
      intro _
      apply bind (readAt _ _ _)
      intro _
      exact bind (store _ _) (fun _ => pure _)

theorem freeStale (veclen : Nat) : Monotone (freeStale veclen) := by
  induction veclen with
  | zero => exact pure _
  | succ n ih => exact bind (free _) (fun _ => ih)

theorem loadStrs (mem : List UInt8) (buf len vec veclen n offset : Nat)
    : Monotone (loadStrs mem buf len vec veclen n offset) := by
  induction n generalizing offset with
  | zero => exact pure _
  | succ n ih =>
    unfold Protocol.loadStrs
    apply bind (store _ _)
    intro _
    apply bind (load (loadStr mem) _ _ _)
    intro o
    cases o with
    | none =>
      apply bind (free _)
      intro _
      exact bind (freeStale _) (fun _ => pure _)
    | some r =>
      dsimp
      apply bind (ih _)
      intro o
      cases o with
      | none => exact pure _
      | some r => exact pure _

theorem loadStrvec (mem : List UInt8) (buf len : Nat) : Monotone (loadStrvec mem buf len) := by
  unfold Protocol.loadStrvec
  apply bind (load (loadU32 mem) _ _ _)
  intro o
  cases o with
  | none => exact bind (free _) (fun _ => pure _)
  | some r =>
    dsimp
    split
    . exact pure _
    . apply bind (malloc _)
      intro _
      apply bind (loadStrs _ _ _ _ _ _ _)
      intro o
      cases o with
      | none => exact pure _
      | some r => exact bind (store _ _) (fun _ => pure _)

theorem parseFail : Monotone parseFail := bind (free _) (fun _ => pure _)

end Monotone

/--
From `s` the run of `m` ends normally with `a` in `s'`, and every access on the way is inside a
packet of `len` bytes.
-/
structure Returns (len : Nat) (m : LoadM α) (s : LoadState) (a : α) (s' : LoadState) : Prop where
  run_eq : m.run s = .ok a s'
  inside : ∃ l, s'.trace = s.trace ++ l ∧ ∀ x ∈ l, x.Inside len

namespace Returns

theorem pure (len : Nat) (a : α) (s : LoadState) : Returns len (pure a) s a s where
  run_eq := rfl
  inside := ⟨[], by simp⟩

theorem bind {m : LoadM α} {f : α → LoadM β} (hm : Returns len m s₁ a s₂)
    (hf : Returns len (f a) s₂ b s₃)
    : Returns len (m >>= f) s₁ b s₃ where
  run_eq := by rw [run_bind_ok hm.run_eq, hf.run_eq]
  inside := by
    obtain ⟨l₁, htrace₁, hinside₁⟩ := hm.inside
    obtain ⟨l₂, htrace₂, hinside₂⟩ := hf.inside
    refine ⟨l₁ ++ l₂, by rw [htrace₂, htrace₁, List.append_assoc], ?_⟩
    intro x hx
    rcases List.mem_append.mp hx with hx | hx
    . exact hinside₁ x hx
    . exact hinside₂ x hx

theorem record {a : Access} (h : a.Inside len) (s : LoadState)
    : Returns len (record a) s () (s.record a) where
  run_eq := rfl
  inside := ⟨[a], rfl, by simpa using h⟩

theorem malloc (len size : Nat) (s : LoadState)
    : Returns len (malloc size) s s.heap.next { s with heap := s.heap.malloc size } where
  run_eq := rfl
  inside := ⟨[], by simp⟩

theorem free (len : Nat) (p : Ptr Origin) (s : LoadState)
    : Returns len (free p) s () { s with heap := s.heap.free p } where
  run_eq := rfl
  inside := ⟨[], by simp⟩

theorem store (len addr extent : Nat) (s : LoadState)
    : Returns len (store addr extent) s () { s with heap := s.heap.store addr extent } where
  run_eq := rfl
  inside := ⟨[], by simp⟩

theorem all_inside {m : LoadM α} (h : Returns len m s a s') (hs : s.trace = [])
    : ∀ x ∈ s'.trace, x.Inside len := by
  obtain ⟨l, htrace, hinside⟩ := h.inside
  rw [htrace, hs, List.nil_append]
  exact hinside

end Returns

/--
From `s` the run of `m` makes an access outside of a packet of `len` bytes. If the mapped memory
ends with the packet, the process ends there.
-/
structure Strays (mem : List UInt8) (len : Nat) (m : LoadM α) (s : LoadState) : Prop where
  outside : ∃ x ∈ (endState (m.run s)).trace, ¬ x.Inside len
  crashes : mem.length = len → ∃ s', m.run s = .error .segfault s'

namespace Strays

theorem bind_left {m : LoadM α} {f : α → LoadM β} (hm : Strays mem len m s)
    (hf : ∀ a, Monotone (f a))
    : Strays mem len (m >>= f) s where
  outside := by
    obtain ⟨x, hmem, houtside⟩ := hm.outside
    refine ⟨x, ?_, houtside⟩
    rw [EStateM.run_bind]
    cases hrun : m.run s with
    | ok a s' =>
      rw [hrun] at hmem
      exact (hf a s').subset hmem
    | error e s' =>
      rw [hrun] at hmem
      exact hmem
  crashes := by
    intro hlen
    obtain ⟨s', hrun⟩ := hm.crashes hlen
    exact ⟨s', run_bind_error hrun⟩

theorem bind_right {m : LoadM α} {f : α → LoadM β} (hm : Returns len m s a s')
    (hf : Strays mem len (f a) s')
    : Strays mem len (m >>= f) s where
  outside := by
    rw [run_bind_ok hm.run_eq]
    apply hf.outside
  crashes := by
    intro hlen
    rw [run_bind_ok hm.run_eq]
    apply hf.crashes hlen

end Strays

structure Window (mem : List UInt8) (len p : Nat) (bs : List UInt8) : Prop where
  drop : bs <+: mem.drop p
  stop : p + bs.length = len

namespace Window

theorem advance {as bs : List UInt8} (h : Window mem len p (as ++ bs))
    : Window mem len (p + as.length) bs where
  drop := by
    obtain ⟨tail, htail⟩ := h.drop
    refine ⟨tail, ?_⟩
    rw [← List.drop_drop, ← htail, List.append_assoc, List.drop_left]
  stop := by
    have := h.stop
    rw [List.length_append] at this
    omega

theorem le_length (h : Window mem len p bs) (hbs : bs ≠ []) : p + bs.length ≤ mem.length := by
  have hle := h.drop.length_le
  have := List.length_pos_iff.mpr hbs
  rw [List.length_drop] at hle
  omega

theorem returns_readAt {as bs : List UInt8} (h : Window mem len p (as ++ bs)) (s : LoadState)
    : Returns len (readAt mem p as.length) s as (s.record (.read p as.length)) where
  run_eq := by
    obtain ⟨tail, htail⟩ := h.drop
    rw [run_readAt, if_pos]
    . rw [← htail, List.append_assoc, List.take_left]
    . by_cases hnil : as = []
      . simp [hnil]
      . have hle := h.le_length (by simp [hnil])
        rw [List.length_append] at hle
        omega
  inside := by
    refine ⟨[.read p as.length], rfl, ?_⟩
    have hstop := h.stop
    rw [List.length_append] at hstop
    simp only [List.mem_singleton, forall_eq, Access.Inside]
    omega

theorem strays_readAt (h : Window mem len p bs) (hn : bs.length < n) (s : LoadState)
    : Strays mem len (readAt mem p n) s where
  outside := by
    refine ⟨.read p n, ?_, ?_⟩
    . rw [run_readAt]
      split
      . simp [endState, LoadState.record]
      . simp [endState, LoadState.record]
    . intro hinside
      have := hinside bs.length hn
      have := h.stop
      omega
  crashes := by
    intro hlen
    have hstop := h.stop
    refine ⟨s.record (.read p n), ?_⟩
    rw [run_readAt, if_neg]
    omega

end Window

theorem sizeSub_of_le (h : b ≤ a) (ha : a < 2 ^ 64) : sizeSub a b = a - b := by
  unfold sizeSub
  omega

section Load

variable {loader : Nat → Nat → LoadM (Option (α × Nat))} {mem : List UInt8}
variable {len buf k offset : Nat} {s s' : LoadState}

theorem Returns.load_some (buf : Nat) (hoffset : offset ≤ k) (hk : k < 2 ^ 64) (hn : n ≤ k - offset)
    (h : Returns len (loader (buf + offset) (k - offset)) (s.record (.window offset k))
      (some (a, n)) s')
    : Returns len (load loader buf k offset) s (some (a, offset + n))
        (s'.record (.incr (k - offset) n)) := by
  unfold load
  apply Returns.bind (Returns.record (a := .window offset k) hoffset s)
  rw [sizeSub_of_le hoffset hk]
  apply Returns.bind h
  dsimp
  apply Returns.bind (Returns.record (a := .incr (k - offset) n) hn s')
  apply Returns.pure

theorem Returns.load_none (buf : Nat) (hoffset : offset ≤ k) (hk : k < 2 ^ 64)
    (h : Returns len (loader (buf + offset) (k - offset)) (s.record (.window offset k)) none s')
    : Returns len (load loader buf k offset) s none s' := by
  unfold load
  apply Returns.bind (Returns.record (a := .window offset k) hoffset s)
  rw [sizeSub_of_le hoffset hk]
  apply Returns.bind h
  apply Returns.pure

theorem Strays.load (buf : Nat) (hoffset : offset ≤ k) (hk : k < 2 ^ 64)
    (h : Strays mem len (loader (buf + offset) (k - offset)) (s.record (.window offset k)))
    : Strays mem len (load loader buf k offset) s := by
  unfold Protocol.load
  apply Strays.bind_right (Returns.record (a := .window offset k) hoffset s)
  rw [sizeSub_of_le hoffset hk]
  apply Strays.bind_left h
  intro o
  cases o with
  | none => exact Monotone.pure _
  | some r => exact Monotone.bind (Monotone.record _) (fun _ => Monotone.pure _)

end Load

end Protocol
end Runes
