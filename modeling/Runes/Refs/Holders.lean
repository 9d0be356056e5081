import Mathlib.Data.List.Nodup
import Mathlib.Data.List.Perm.Subperm

/-!
This module contains an object that lives as long as somebody holds it. It is held by the callbacks
that wait for it in an event loop and by those that are just running. The holders keep its count
themselves, and the one that counts down to zero deletes it.
-/

@[ext]
structure Entry (κ : Type) where
  id : Nat
  kind : κ
  deriving DecidableEq

structure Holders (κ : Type) where
  count : Int
  pending : List (Entry κ)
  next : Nat
  deletes : Nat

namespace Holders

variable {κ : Type} {h : Holders κ} {running : List (Entry κ)} {e : Entry κ} {kind : κ}

def inc (h : Holders κ) : Holders κ := { h with count := h.count + 1 }

def dec (h : Holders κ) : Holders κ :=
  {
    h with
    count := h.count - 1
    deletes := if h.count - 1 ≤ 0 then h.deletes + 1 else h.deletes
  }

def register (h : Holders κ) (kind : κ) : Holders κ :=
  { h with pending := h.pending ++ [⟨h.next, kind⟩], next := h.next + 1 }

def remove (h : Holders κ) (id : Nat) : Holders κ :=
  { h with pending := h.pending.filter (fun e => e.id ≠ id) }

def resume (h : Holders κ) (e : Entry κ) : Holders κ :=
  { h with pending := h.pending ++ [e] }

@[simp]
theorem inc_pending : h.inc.pending = h.pending := rfl

@[simp]
theorem dec_pending : h.dec.pending = h.pending := rfl

@[simp]
theorem inc_next : h.inc.next = h.next := rfl

theorem mem_register
    : e ∈ (h.register kind).pending ↔ e ∈ h.pending ∨ e = ⟨h.next, kind⟩ := by
  simp [register]

theorem mem_remove {id : Nat}
    : e ∈ (h.remove id).pending ↔ e ∈ h.pending ∧ e.id ≠ id := by
  simp [remove]

theorem mem_resume {a : Entry κ}
    : e ∈ (h.resume a).pending ↔ e ∈ h.pending ∨ e = a := by
  simp [resume]

/--
The count is right while the callbacks in `running` hold the object from outside of the loop, and it
was deleted exactly if nobody holds it.
-/
structure Sound (h : Holders κ) (running : List (Entry κ)) : Prop where
  count : h.count = (h.pending ++ running).length
  nodup : ((h.pending ++ running).map (·.id)).Nodup
  fresh : ∀ e ∈ h.pending ++ running, e.id < h.next
  deletes : h.deletes = if h.pending ++ running = [] then 1 else 0

theorem perm_remove {l : List (Entry κ)} (hnodup : (l.map (·.id)).Nodup) (he : e ∈ l)
    : l.Perm (e :: l.filter (fun a => a.id ≠ e.id)) := by
  induction l with
  | nil => cases he
  | cons a as ih =>
    rw [List.map_cons, List.nodup_cons] at hnodup
    rcases List.mem_cons.mp he with rfl | hmem
    . have hrest : as.filter (fun a => a.id ≠ e.id) = as := by
        apply List.filter_eq_self.mpr
        intro a ha
        have hne : a.id ≠ e.id := fun heq => hnodup.left (heq ▸ List.mem_map_of_mem ha)
        simpa using hne
      rw [List.filter_cons_of_neg (by simp), hrest]
    . have hne : a.id ≠ e.id := fun heq => hnodup.left (heq ▸ List.mem_map_of_mem hmem)
      rw [List.filter_cons_of_pos (by simpa using hne)]
      exact ((ih hnodup.right hmem).cons a).trans (List.Perm.swap e a _)

namespace Sound

theorem nodup_pending (hs : h.Sound running)
    : (h.pending.map (·.id)).Nodup := by
  have := hs.nodup
  rw [List.map_append] at this
  apply this.of_append_left

theorem of_perm {h' : Holders κ} {running' : List (Entry κ)} (hs : h.Sound running)
    (hperm : (h.pending ++ running).Perm (h'.pending ++ running')) (hcount : h'.count = h.count)
    (hnext : h'.next = h.next) (hdeletes : h'.deletes = h.deletes)
    : h'.Sound running' where
  count := by rw [hcount, hs.count, hperm.length_eq]
  nodup := (hperm.map _).nodup_iff.mp hs.nodup
  fresh := by
    intro e he
    rw [hnext]
    apply hs.fresh e (hperm.mem_iff.mpr he)
  deletes := by
    have hnil : h.pending ++ running = [] ↔ h'.pending ++ running' = [] := by
      rw [← List.length_eq_zero_iff, ← List.length_eq_zero_iff, hperm.length_eq]
    rw [hdeletes, hs.deletes]
    simp only [hnil]

theorem start (hs : h.Sound running) (he : e ∈ h.pending)
    : (h.remove e.id).Sound (e :: running) := by
  have hperm := ((perm_remove hs.nodup_pending he).append_right running).trans List.perm_middle.symm
  exact hs.of_perm hperm rfl rfl rfl

theorem resume (hs : h.Sound (e :: running))
    : (h.resume e).Sound running := by
  have hperm : (h.pending ++ e :: running).Perm ((h.resume e).pending ++ running) := by
    simp [Holders.resume]
  apply hs.of_perm hperm rfl rfl rfl

theorem finish (hs : h.Sound (e :: running))
    : h.dec.Sound running := by
  have hsub : (h.pending ++ running).Sublist (h.pending ++ e :: running) :=
    (List.Sublist.refl h.pending).append (List.sublist_cons_self e running)
  have hcount := hs.count
  rw [List.length_append, List.length_cons] at hcount
  constructor
  . rw [dec_pending, List.length_append]
    unfold dec
    dsimp only
    omega
  . apply hs.nodup.sublist (hsub.map _)
  . intro a ha
    apply hs.fresh a (hsub.mem ha)
  . have hnil : h.pending ++ running = [] ↔ h.count - 1 ≤ 0 := by
      rw [← List.length_eq_zero_iff, List.length_append]
      omega
    have hone : h.deletes = 0 := by simpa using hs.deletes
    rw [dec_pending]
    unfold dec
    simp only [hnil, hone]

theorem register (hs : h.Sound running) (hheld : h.pending ++ running ≠ []) (kind : κ)
    : (h.inc.register kind).Sound running := by
  have hperm : ((h.inc.register kind).pending ++ running).Perm
      (⟨h.next, kind⟩ :: (h.pending ++ running)) := by
    simp [Holders.register, List.perm_middle]
  have hnew : h.next ∉ (h.pending ++ running).map (·.id) := by
    intro hmem
    have ⟨e, he, heq⟩ := List.mem_map.mp hmem
    have := hs.fresh e he
    omega
  have hcount := hs.count
  have hdeletes := hs.deletes
  constructor
  . rw [hperm.length_eq, List.length_cons]
    simp only [Holders.register, inc]
    omega
  . rw [(hperm.map _).nodup_iff, List.map_cons, List.nodup_cons]
    exact ⟨hnew, hs.nodup⟩
  . intro e he
    simp only [Holders.register, inc]
    rcases List.mem_cons.mp (hperm.mem_iff.mp he) with rfl | hmem
    . simp
    . have := hs.fresh e hmem
      omega
  . rw [if_neg hheld] at hdeletes
    have hsome : (h.inc.register kind).pending ++ running ≠ [] := by
      simp [Holders.register]
    rw [if_neg hsome]
    exact hdeletes

theorem first (hcount : h.count = 0) (hpending : h.pending = []) (hdeletes : h.deletes = 0)
    (kind : κ)
    : (h.inc.register kind).Sound [] := by
  constructor <;> simp [Holders.register, inc, hcount, hpending, hdeletes]

end Sound

/--
At most one callback of each kind waits, and `p` says which.
-/
def Slots (h : Holders κ) (p : κ → Option Nat) : Prop :=
  ∀ kind id, ⟨id, kind⟩ ∈ h.pending ↔ p kind = some id

namespace Slots

variable {p : κ → Option Nat}

theorem isSome_iff (hp : h.Slots p)
    : (p kind).isSome ↔ ∃ e ∈ h.pending, e.kind = kind := by
  rw [Option.isSome_iff_exists]
  constructor
  . intro ⟨id, hid⟩
    exact ⟨⟨id, kind⟩, (hp kind id).mpr hid, rfl⟩
  . intro ⟨e, he, hkind⟩
    subst hkind
    exact ⟨e.id, (hp e.kind e.id).mp he⟩

theorem inj (hp : h.Slots p) {a b : Entry κ} (ha : a ∈ h.pending) (hb : b ∈ h.pending)
    (hkind : a.kind = b.kind)
    : a = b := by
  have ha := (hp a.kind a.id).mp ha
  have hb := (hp b.kind b.id).mp hb
  rw [hkind, hb, Option.some.injEq] at ha
  cases a
  cases b
  simp_all

theorem nodup_kind (hp : h.Slots p) (hs : h.Sound running)
    : (h.pending.map (·.kind)).Nodup := by
  have hnodup : h.pending.Nodup := hs.nodup_pending.of_map _
  apply hnodup.map_on (fun a ha b hb => hp.inj ha hb)

theorem length_le (hp : h.Slots p) (hs : h.Sound running) {kinds : List κ}
    (hkinds : ∀ kind, kind ∈ kinds)
    : h.pending.length ≤ kinds.length := by
  rw [← List.length_map (f := (·.kind))]
  apply ((hp.nodup_kind hs).subperm (fun kind _ => hkinds kind)).length_le

variable [DecidableEq κ]

theorem count_kind (hp : h.Slots p) (hs : h.Sound running) (kind : κ)
    : (h.pending.map (·.kind)).count kind = if (p kind).isSome then 1 else 0 := by
  have hmem : kind ∈ h.pending.map (·.kind) ↔ (p kind).isSome := by
    rw [hp.isSome_iff, List.mem_map]
  rw [(hp.nodup_kind hs).count]
  simp only [hmem]

theorem register (hp : h.Slots p) (kind : κ) (hfree : p kind = none)
    : (h.inc.register kind).Slots (Function.update p kind (some h.next)) := by
  intro kind' id
  rw [mem_register, inc_pending, hp kind' id, inc_next, Entry.mk.injEq]
  by_cases hkind : kind' = kind
  . subst hkind
    simp [hfree, eq_comm]
  . simp [hkind]

theorem remove (hp : h.Slots p) (hs : h.Sound running) (he : e ∈ h.pending)
    : (h.remove e.id).Slots (Function.update p e.kind none) := by
  intro kind id
  rw [mem_remove, hp kind id]
  have hid : p e.kind = some e.id := (hp e.kind e.id).mp he
  by_cases hkind : kind = e.kind
  . subst hkind
    simp [hid, eq_comm]
  . rw [Function.update_of_ne hkind, and_iff_left_iff_imp]
    intro hsome heq
    have hsame := List.inj_on_of_nodup_map hs.nodup_pending ((hp kind id).mpr hsome) he heq
    exact hkind (congrArg Entry.kind hsame)

theorem resume (hp : h.Slots p) (hfree : p e.kind = none)
    : (h.resume e).Slots (Function.update p e.kind (some e.id)) := by
  intro kind id
  rw [mem_resume, hp kind id]
  by_cases hkind : kind = e.kind
  . subst hkind
    simp [hfree, Entry.ext_iff, eq_comm]
  . simp [hkind, Entry.ext_iff]

end Slots

end Holders
