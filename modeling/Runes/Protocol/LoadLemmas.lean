import Runes.Protocol.LoadLogic

/-!
This module contains what each function of the decoder does on the bytes that are left of a packet:
it returns the field that starts there, it runs over the end of the packet, or it gives up.
-/

namespace Runes
namespace Protocol

open Wire Exec

variable {mem bs rest : List UInt8} {len p k : Nat}

/--
The header of a string announces more bytes than there are after it, but the limit of the decoder
lets it pass.
-/
def OverlongStr (bs : List UInt8) : Prop :=
  ∃ size rest, bs = be32 size ++ rest ∧ rest.length < size.toNat ∧ size.toNat ≤ bs.length

def OverlongStrvec (bs : List UInt8) : Prop :=
  ∃ (size : UInt32) (blocks : List Block) (rest : List UInt8),
    bs = be32 size ++ (blocks.flatMap Block.encode ++ rest)
      ∧
    blocks.length < size.toNat ∧ size.toNat ≤ bs.length ∧ OverlongStr rest

def Overlong (bs : List UInt8) : Prop :=
  ∃ argc rest, bs = be32 messageVersion ++ (be32 argc ++ rest) ∧
    (OverlongStrvec rest ∨
      ∃ argv rest', rest = BlockVec.encode argv ++ rest' ∧
        (OverlongStrvec rest' ∨
          ∃ envp rest'', rest' = BlockVec.encode envp ++ rest'' ∧ OverlongStr rest''))

theorem returns_loadU32 {i : UInt32} (h : Window mem len p (be32 i ++ rest))
    (hk : (be32 i ++ rest).length = k) (s : LoadState)
    : Returns len (loadU32 mem p k) s (some (i, 4)) (s.record (.read p 4)) := by
  rw [List.length_append, be32_length] at hk
  unfold loadU32
  rw [if_neg (by omega)]
  apply Returns.bind (h.returns_readAt s)
  rw [ofBE32_be32]
  apply Returns.pure

theorem returns_loadU32_none (hk : k < 4) (s : LoadState)
    : Returns len (loadU32 mem p k) s none s := by
  unfold loadU32
  rw [if_pos hk]
  apply Returns.pure

theorem returns_header {i : UInt32} (h : Window mem len p (be32 i ++ rest))
    (hk : (be32 i ++ rest).length = k) (hlt : k < 2 ^ 64) (s : LoadState)
    : ∃ s', Returns len (load (loadU32 mem) p k 0) s (some (i, 4)) s' ∧ s'.heap = s.heap := by
  have hlen := hk
  rw [List.length_append, be32_length] at hlen
  have hload := returns_loadU32 h hk (s.record (.window 0 k))
  exact ⟨_, Returns.load_some p (Nat.zero_le k) hlt (by omega) hload, rfl⟩

theorem returns_header_none (hk : k < 4) (s : LoadState)
    : Returns len (load (loadU32 mem) p k 0) s none (s.record (.window 0 k)) := by
  apply Returns.load_none p (Nat.zero_le k) (by omega)
  apply returns_loadU32_none (by omega)

section Str

theorem returns_loadStr (b : Block) (h : Window mem len p (b.encode ++ rest))
    (hk : (b.encode ++ rest).length = k) (hlt : k < 2 ^ 64) (s : LoadState)
    : ∃ str s',
        Returns len (loadStr mem p k) s (some (str, b.encode.length)) s'
          ∧
        str.bytes = b.bytes
          ∧
        s.heap.Allocates s'.heap [str.addr]
          ∧
        (b.bytes.length + 1 < 2 ^ 32 → s'.heap.badStores = s.heap.badStores) := by
  have hlen := hk
  simp only [List.length_append, Block.encode_length] at hlen
  simp only [Block.encode, List.append_assoc] at h hk
  obtain ⟨s₁, hheader, hheap₁⟩ := returns_header h hk hlt s
  have hread := h.advance.returns_readAt
    { s₁ with heap := s₁.heap.malloc (wrap32 (b.size.toNat + 1)) }
  rw [be32_length, ← Block.toNat_size] at hread
  refine ⟨⟨s.heap.next, b.bytes⟩, ?_⟩
  apply Exists.intro
  refine ⟨?run, rfl, ?alloc, ?stores⟩
  case run =>
    unfold loadStr
    apply Returns.bind hheader
    dsimp
    rw [if_neg (by rw [Block.toNat_size]; omega)]
    apply Returns.bind (Returns.malloc _ _ _)
    apply Returns.bind hread
    apply Returns.bind (Returns.store _ _ _ _)
    rw [Block.toNat_size, Block.encode_length, hheap₁]
    apply Returns.pure
  case alloc =>
    apply (Heap.Allocates.malloc _ _).andStore _ _
  case stores =>
    intro hsmall
    dsimp [LoadState.record]
    have hsize : wrap32 (b.bytes.length + 1) = b.bytes.length + 1 := Nat.mod_eq_of_lt hsmall
    have hlive : (s.heap.malloc (wrap32 (b.bytes.length + 1))).live s.heap.next
        = some (b.bytes.length + 1) := by
      simp [hsize]
    rw [Heap.store_of_le hlive (Nat.le_refl _)]
    simp

theorem strays_loadStr (h : Window mem len p bs) (hk : bs.length = k) (hlt : k < 2 ^ 64)
    (hover : OverlongStr bs) (s : LoadState)
    : Strays mem len (loadStr mem p k) s := by
  obtain ⟨size, rest, rfl, hrest, hlimit⟩ := hover
  obtain ⟨s₁, hheader, _⟩ := returns_header h hk hlt s
  unfold loadStr
  apply Strays.bind_right hheader
  dsimp
  rw [if_neg (by omega)]
  apply Strays.bind_right (Returns.malloc _ _ _)
  apply Strays.bind_left (h.advance.strays_readAt hrest _)
  intro _
  apply Monotone.bind (Monotone.store _ _) (fun _ => Monotone.pure _)

theorem loadStr_cases (h : Window mem len p bs) (hk : bs.length = k) (hlt : k < 2 ^ 64)
    : (∃ (b : Block) (rest : List UInt8), bs = b.encode ++ rest)
        ∨
      OverlongStr bs
        ∨
      ∀ s, ∃ s', Returns len (loadStr mem p k) s none s' := by
  by_cases hshort : k < 4
  . right; right
    intro s
    apply Exists.intro
    unfold loadStr
    apply Returns.bind (returns_header_none hshort s)
    apply Returns.bind (Returns.free _ _ _)
    apply Returns.pure _ _ _
  . have hbs := eq_be32_append_drop bs (by omega)
    generalize ofBE32 (bs.take 4) = size at hbs
    generalize bs.drop 4 = rest at hbs
    subst hbs
    have hlen := hk
    rw [List.length_append, be32_length] at hlen
    by_cases hfits : size.toNat ≤ rest.length
    . left
      have htake : (rest.take size.toNat).length = size.toNat := by simp [hfits]
      refine ⟨⟨rest.take size.toNat, ?_⟩, rest.drop size.toNat, ?_⟩
      . rw [htake]
        apply size.toNat_lt
      . simp only [Block.encode, Block.size, htake, UInt32.ofNat_toNat, List.append_assoc,
          List.take_append_drop]
    . right
      by_cases hlimit : size.toNat ≤ k
      . left
        exact ⟨size, rest, rfl, by omega, by omega⟩
      . right
        intro s
        obtain ⟨s₁, hheader, _⟩ := returns_header h hk hlt s
        refine ⟨s₁, ?_⟩
        unfold loadStr
        apply Returns.bind hheader
        dsimp
        rw [if_pos (by omega)]
        apply Returns.pure _ _ _

end Str

theorem returns_freeStale (len veclen : Nat) (s : LoadState)
    : ∃ s', Returns len (freeStale veclen) s () s' := by
  induction veclen generalizing s with
  | zero => exact ⟨s, Returns.pure _ _ _⟩
  | succ n ih =>
    obtain ⟨s', hrest⟩ := ih { s with heap := s.heap.free (.foreign .stale) }
    exact ⟨s', Returns.bind (Returns.free _ _ _) hrest⟩

section Strs

variable {front : List UInt8} {vec veclen : Nat}

theorem returns_load_loadStr (b : Block)
    (h : Window mem len p (front ++ (b.encode ++ rest)))
    (hk : (front ++ (b.encode ++ rest)).length = k) (hlt : k < 2 ^ 64) (s : LoadState)
    : ∃ str s',
        Returns len (load (loadStr mem) p k front.length) s
            (some (str, (front ++ b.encode).length)) s'
          ∧
        str.bytes = b.bytes
          ∧
        s.heap.Allocates s'.heap [str.addr]
          ∧
        (b.bytes.length + 1 < 2 ^ 32 → s'.heap.badStores = s.heap.badStores) := by
  rw [List.length_append] at hk
  have hle : b.encode.length ≤ k - front.length := by
    rw [List.length_append] at hk
    omega
  obtain ⟨str, s₁, hstr, hspec⟩ := returns_loadStr b (k := k - front.length) h.advance (by omega)
    (by omega) (s.record (.window front.length k))
  rw [List.length_append]
  exact ⟨str, _, Returns.load_some p (by omega) hlt hle hstr, hspec⟩

theorem returns_loadStrs (vec veclen : Nat) (blocks : List Block)
    (h : Window mem len p (front ++ (blocks.flatMap Block.encode ++ rest)))
    (hk : (front ++ (blocks.flatMap Block.encode ++ rest)).length = k) (hlt : k < 2 ^ 64)
    (s : LoadState)
    : ∃ strs s',
        Returns len (loadStrs mem p k vec veclen blocks.length front.length) s
            (some (strs, (front ++ blocks.flatMap Block.encode).length)) s'
          ∧
        strs.map (·.bytes) = blocks.map (·.bytes)
          ∧
        s.heap.Allocates s'.heap (strs.map (·.addr))
          ∧
        ((∀ b ∈ blocks, b.bytes.length + 1 < 2 ^ 32) → s.heap.live vec = some (8 * (veclen + 1)) →
          s'.heap.badStores = s.heap.badStores) := by
  induction blocks generalizing front s with
  | nil =>
    refine ⟨[], s, ?_, rfl, Heap.Allocates.refl _, ?_⟩
    . unfold loadStrs
      simpa using Returns.pure _ _ _
    . intro _ _
      rfl
  | cons b blocks ih =>
    simp only [List.flatMap_cons, List.append_assoc] at h hk
    obtain ⟨str, s₁, hstr, hbytesStr, hallocStr, hstoresStr⟩ := returns_load_loadStr b h hk hlt
      { s with heap := s.heap.store vec (8 * (veclen - blocks.length)) }
    rw [← List.append_assoc] at h hk
    obtain ⟨strs, s₂, hstrs, hbytes, hallocStrs, hstoresStrs⟩ := ih h hk s₁
    refine ⟨str :: strs, s₂, ?run, ?bytes, ?alloc, ?stores⟩
    case run =>
      rw [List.length_cons]
      unfold loadStrs
      apply Returns.bind (Returns.store _ _ _ _)
      apply Returns.bind hstr
      dsimp
      apply Returns.bind hstrs
      simpa using Returns.pure _ _ _
    case bytes =>
      simp [hbytesStr, hbytes]
    case alloc =>
      apply (Heap.Allocates.store _ _ _).trans (hallocStr.trans hallocStrs)
    case stores =>
      intro hsmall hlive
      have hvec : vec < s.heap.next := Heap.lt_next_of_live hlive
      have hstore : s.heap.store vec (8 * (veclen - blocks.length)) = s.heap :=
        Heap.store_of_le hlive (by omega)
      rw [hstore] at hallocStr hstoresStr
      rw [hstoresStrs (fun b' hb' => hsmall b' (by simp [hb']))]
      . exact hstoresStr (hsmall b (by simp))
      . rw [hallocStr.live_of_lt hvec]
        exact hlive

theorem strays_loadStrs (vec veclen : Nat) (blocks : List Block) {n : Nat} (hn : blocks.length < n)
    (h : Window mem len p (front ++ (blocks.flatMap Block.encode ++ rest)))
    (hk : (front ++ (blocks.flatMap Block.encode ++ rest)).length = k) (hlt : k < 2 ^ 64)
    (hover : OverlongStr rest) (s : LoadState)
    : Strays mem len (loadStrs mem p k vec veclen n front.length) s := by
  induction blocks generalizing front n s with
  | nil =>
    obtain ⟨n, rfl⟩ : ∃ m, n = m + 1 := ⟨n - 1, by rw [List.length_nil] at hn; omega⟩
    simp only [List.flatMap_nil, List.nil_append] at h hk
    have hsplit := hk
    rw [List.length_append] at hsplit
    have hstr := strays_loadStr (k := k - front.length) h.advance (by omega) (by omega) hover
    unfold loadStrs
    apply Strays.bind_right (Returns.store _ _ _ _)
    apply Strays.bind_left (Strays.load p (by omega) hlt (hstr _))
    intro o
    cases o with
    | none =>
      apply Monotone.bind (Monotone.free _)
      intro _
      apply Monotone.bind (Monotone.freeStale _) (fun _ => Monotone.pure _)
    | some r =>
      apply Monotone.bind (Monotone.loadStrs _ _ _ _ _ _ _)
      intro o
      cases o with
      | none => exact Monotone.pure _
      | some r => exact Monotone.pure _
  | cons b blocks ih =>
    obtain ⟨n, rfl⟩ : ∃ m, n = m + 1 := ⟨n - 1, by rw [List.length_cons] at hn; omega⟩
    simp only [List.flatMap_cons, List.append_assoc] at h hk
    obtain ⟨str, s₁, hstr, _⟩ := returns_load_loadStr b h hk hlt
      { s with heap := s.heap.store vec (8 * (veclen - n)) }
    rw [← List.append_assoc] at h hk
    have hrest := ih (n := n) (by simpa using hn) h hk s₁
    unfold loadStrs
    apply Strays.bind_right (Returns.store _ _ _ _)
    apply Strays.bind_right hstr
    apply Strays.bind_left hrest
    intro o
    cases o with
    | none => exact Monotone.pure _
    | some r => exact Monotone.pure _

theorem loadStrs_cases (n : Nat) (h : Window mem len p (front ++ bs))
    (hk : (front ++ bs).length = k) (hlt : k < 2 ^ 64)
    : (∃ (blocks : List Block) (rest : List UInt8),
          blocks.length = n ∧ bs = blocks.flatMap Block.encode ++ rest)
        ∨
      (∃ (blocks : List Block) (rest : List UInt8),
          blocks.length < n ∧ bs = blocks.flatMap Block.encode ++ rest ∧ OverlongStr rest)
        ∨
      ∀ vec veclen s, ∃ s',
        Returns len (loadStrs mem p k vec veclen n front.length) s none s' := by
  induction n generalizing front bs with
  | zero =>
    left
    exact ⟨[], bs, rfl, by simp⟩
  | succ n ih =>
    have hsplit := hk
    rw [List.length_append] at hsplit
    rcases loadStr_cases (k := k - front.length) h.advance (by omega) (by omega)
      with ⟨b, rest, rfl⟩ | hover | hnone
    . have h' := h
      have hk' := hk
      rw [← List.append_assoc] at h' hk'
      rcases ih h' hk' with ⟨blocks, rest', hlen, rfl⟩ | ⟨blocks, rest', hlen, rfl, hover⟩ | hnone
      . left
        exact ⟨b :: blocks, rest', by simp [hlen], by simp⟩
      . right; left
        exact ⟨b :: blocks, rest', by simp [hlen], by simp, hover⟩
      . right; right
        intro vec veclen s
        obtain ⟨str, s₁, hstr, _⟩ := returns_load_loadStr b h hk hlt
          { s with heap := s.heap.store vec (8 * (veclen - n)) }
        obtain ⟨s₂, hrest⟩ := hnone vec veclen s₁
        refine ⟨s₂, ?_⟩
        unfold loadStrs
        apply Returns.bind (Returns.store _ _ _ _)
        apply Returns.bind hstr
        dsimp
        apply Returns.bind hrest
        apply Returns.pure
    . right; left
      exact ⟨[], bs, by simp, by simp, hover⟩
    . right; right
      intro vec veclen s
      obtain ⟨s₁, hstr⟩ := hnone
        (LoadState.record { s with heap := s.heap.store vec (8 * (veclen - n)) }
          (.window front.length k))
      obtain ⟨s₂, hstale⟩ := returns_freeStale len veclen
        { s₁ with heap := s₁.heap.free (.block vec) }
      refine ⟨s₂, ?_⟩
      unfold loadStrs
      apply Returns.bind (Returns.store _ _ _ _)
      apply Returns.bind (Returns.load_none p (by omega) hlt hstr)
      dsimp
      apply Returns.bind (Returns.free _ _ _)
      apply Returns.bind hstale
      apply Returns.pure _ _ _

end Strs

section Strvec

def Strvec.addrs (v : Strvec) : List Nat := v.addr :: v.strings.map (·.addr)

theorem strings_of_slots (addr : Nat) (strs : List Str)
    : (Strvec.mk addr (strs.map some ++ [none])).strings = strs := by
  unfold Strvec.strings
  induction strs with
  | nil => rfl
  | cons str strs ih => simp [Strvec.strings.go, ih]

structure Strvec.Loaded (v : Strvec) (w : BlockVec) : Prop where
  terminated : v.slots = v.strings.map some ++ [none]
  bytes : v.strings.map (·.bytes) = w.blocks.map (·.bytes)

theorem returns_loadStrvec (w : BlockVec) (h : Window mem len p (w.encode ++ rest))
    (hk : (w.encode ++ rest).length = k) (hlt : k < 2 ^ 64) (s : LoadState)
    : ∃ v s',
        Returns len (loadStrvec mem p k) s (some (v, w.encode.length)) s'
          ∧
        v.Loaded w
          ∧
        s.heap.Allocates s'.heap v.addrs
          ∧
        (w.blocks.length + 1 < 2 ^ 32 → (∀ b ∈ w.blocks, b.bytes.length + 1 < 2 ^ 32) →
          s'.heap.badStores = s.heap.badStores) := by
  have hlimit := w.length_le_encode_length
  have hlen := hk
  rw [List.length_append] at hlen
  simp only [BlockVec.encode, List.append_assoc] at h hk
  obtain ⟨s₁, hheader, hheap₁⟩ := returns_header h hk hlt s
  obtain ⟨strs, s₂, hstrs, hbytes, halloc, hstores⟩ := 
    returns_loadStrs s.heap.next w.blocks.length w.blocks h hk hlt
    { s₁ with heap := s₁.heap.malloc (8 * wrap32 (w.size.toNat + 1)) }
  rw [be32_length, ← BlockVec.toNat_size] at hstrs
  refine ⟨⟨s.heap.next, strs.map some ++ [none]⟩, ?_⟩
  apply Exists.intro
  refine ⟨?run, ?loaded, ?alloc, ?stores⟩
  case run =>
    unfold loadStrvec
    apply Returns.bind hheader
    dsimp
    rw [if_neg (by rw [BlockVec.toNat_size]; omega)]
    apply Returns.bind (Returns.malloc _ _ _)
    rw [hheap₁] at hstrs ⊢
    apply Returns.bind hstrs
    dsimp
    apply Returns.bind (Returns.store _ _ _ _)
    apply Returns.pure _ _ _
  case loaded =>
    constructor
    . rw [strings_of_slots]
    . rw [strings_of_slots]
      exact hbytes
  case alloc =>
    dsimp
    rw [Strvec.addrs, strings_of_slots]
    rw [hheap₁] at halloc
    exact ((Heap.Allocates.malloc _ _).trans halloc).andStore _ _
  case stores =>
    intro hcount hsmall
    dsimp
    have hsize : wrap32 (w.size.toNat + 1) = w.blocks.length + 1 := by
      rw [BlockVec.toNat_size]
      apply Nat.mod_eq_of_lt hcount
    rw [hheap₁, hsize] at halloc hstores
    have hlive : (s.heap.malloc (8 * (w.blocks.length + 1))).live s.heap.next
        = some (8 * (w.blocks.length + 1)) := by
      simp
    have hlive₂ : s₂.heap.live s.heap.next = some (8 * (w.blocks.length + 1)) := by
      rw [halloc.live_of_lt (by simp), hlive]
    rw [BlockVec.toNat_size, Heap.store_of_le hlive₂ (Nat.le_refl _), hstores hsmall hlive]
    simp

theorem strays_loadStrvec (h : Window mem len p bs) (hk : bs.length = k) (hlt : k < 2 ^ 64)
    (hover : OverlongStrvec bs) (s : LoadState)
    : Strays mem len (loadStrvec mem p k) s := by
  obtain ⟨size, blocks, rest, rfl, hcount, hlimit, hover⟩ := hover
  obtain ⟨s₁, hheader, _⟩ := returns_header h hk hlt s
  have hstrs := strays_loadStrs s₁.heap.next size.toNat blocks hcount h hk hlt hover
  unfold loadStrvec
  apply Strays.bind_right hheader
  dsimp
  rw [if_neg (by omega)]
  apply Strays.bind_right (Returns.malloc _ _ _)
  apply Strays.bind_left (hstrs _)
  intro o
  cases o with
  | none => exact Monotone.pure _
  | some r => exact Monotone.bind (Monotone.store _ _) (fun _ => Monotone.pure _)

theorem loadStrvec_cases (h : Window mem len p bs) (hk : bs.length = k) (hlt : k < 2 ^ 64)
    : (∃ (w : BlockVec) (rest : List UInt8), bs = w.encode ++ rest)
        ∨
      OverlongStrvec bs
        ∨
      ∀ s, ∃ s', Returns len (loadStrvec mem p k) s none s' := by
  by_cases hshort : k < 4
  . right; right
    intro s
    apply Exists.intro
    unfold loadStrvec
    apply Returns.bind (returns_header_none hshort s)
    apply Returns.bind (Returns.free _ _ _)
    exact Returns.pure _ _ _
  . have hbs := eq_be32_append_drop bs (by omega)
    generalize ofBE32 (bs.take 4) = size at hbs
    generalize bs.drop 4 = rest at hbs
    subst hbs
    by_cases hlimit : size.toNat ≤ k
    . rcases loadStrs_cases size.toNat h hk hlt with hfits | hover | hnone
      . left
        obtain ⟨blocks, rest', hcount, rfl⟩ := hfits
        refine ⟨⟨blocks, ?_⟩, rest', ?_⟩
        . rw [hcount]
          exact size.toNat_lt
        . simp [BlockVec.encode, BlockVec.size, hcount]
      . right; left
        obtain ⟨blocks, rest', hcount, rfl, hover⟩ := hover
        exact ⟨size, blocks, rest', rfl, hcount, by omega, hover⟩
      . right; right
        intro s
        obtain ⟨s₁, hheader, _⟩ := returns_header h hk hlt s
        obtain ⟨s₂, hstrs⟩ := hnone s₁.heap.next size.toNat
          { s₁ with heap := s₁.heap.malloc (8 * wrap32 (size.toNat + 1)) }
        refine ⟨s₂, ?_⟩
        unfold loadStrvec
        apply Returns.bind hheader
        dsimp
        rw [if_neg (by omega)]
        apply Returns.bind (Returns.malloc _ _ _)
        apply Returns.bind hstrs
        apply Returns.pure
    . right; right
      intro s
      obtain ⟨s₁, hheader, _⟩ := returns_header h hk hlt s
      refine ⟨s₁, ?_⟩
      unfold loadStrvec
      apply Returns.bind hheader
      dsimp
      rw [if_pos (by omega)]
      apply Returns.pure

end Strvec

end Protocol
end Runes
