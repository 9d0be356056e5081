import Mathlib.Algebra.Group.Nat.Defs
import Mathlib.Data.List.Basic
import Runes.Wire.PrefixCode

/-!
This module contains 32 bit integers in network byte order and the byte blocks and block vectors
that are announced by such an integer.
-/

namespace Wire

def be32 (i : UInt32) : List UInt8 :=
  [.ofNat (i.toNat / 2 ^ 24), .ofNat (i.toNat / 2 ^ 16), .ofNat (i.toNat / 2 ^ 8), .ofNat i.toNat]

def ofBE32 (bs : List UInt8) : UInt32 :=
  match bs with
  | a :: b :: c :: d :: _ =>
    .ofNat (a.toNat * 2 ^ 24 + b.toNat * 2 ^ 16 + c.toNat * 2 ^ 8 + d.toNat)
  | _ => 0

@[simp]
theorem be32_length (i : UInt32) : (be32 i).length = 4 := rfl

@[simp]
theorem ofBE32_be32_append (i : UInt32) (rest : List UInt8) : ofBE32 (be32 i ++ rest) = i := by
  have hlt := i.toNat_lt
  apply UInt32.toNat_inj.mp
  simp only [be32, List.cons_append, ofBE32, UInt8.toNat_ofNat', UInt32.toNat_ofNat']
  omega

@[simp]
theorem ofBE32_be32 (i : UInt32) : ofBE32 (be32 i) = i := by
  simpa using ofBE32_be32_append i []

theorem be32_ofBE32 (bs : List UInt8) (h : bs.length = 4) : be32 (ofBE32 bs) = bs := by
  match bs, h with
  | [a, b, c, d], _ =>
    have ha := a.toNat_lt
    have hb := b.toNat_lt
    have hc := c.toNat_lt
    have hd := d.toNat_lt
    have hsum : a.toNat * 2 ^ 24 + b.toNat * 2 ^ 16 + c.toNat * 2 ^ 8 + d.toNat < 2 ^ 32 := by omega
    simp only [ofBE32, be32, UInt32.toNat_ofNat', Nat.mod_eq_of_lt hsum, List.cons.injEq, and_true]
    refine ⟨?_, ?_, ?_, ?_⟩
    all_goals
      apply UInt8.toNat_inj.mp
      rw [UInt8.toNat_ofNat']
      omega

theorem prefixCode_be32 : PrefixCode be32 := by
  apply PrefixCode.of_length 4 be32_length
  intro x y h
  rw [← ofBE32_be32 x, h, ofBE32_be32]

theorem eq_be32_append_drop (bs : List UInt8) (h : 4 ≤ bs.length)
    : bs = be32 (ofBE32 (bs.take 4)) ++ bs.drop 4 := by
  rw [be32_ofBE32]
  . simp
  . simp [h]

def lengthHeader (xs : List α) : List UInt8 := be32 (.ofNat xs.length)

theorem toNat_ofNat_length (xs : List α) (h : xs.length < 2 ^ 32)
    : (UInt32.ofNat xs.length).toNat = xs.length := by
  rw [UInt32.toNat_ofNat']
  omega

@[simp]
theorem lengthHeader_length (xs : List α) : (lengthHeader xs).length = 4 := rfl

theorem lengthHeader_inj {xs ys : List α} {r s : List UInt8} (hx : xs.length < 2 ^ 32)
    (hy : ys.length < 2 ^ 32) (h : lengthHeader xs ++ r = lengthHeader ys ++ s)
    : xs.length = ys.length ∧ r = s := by
  have heq := prefixCode_be32 _ _ _ _ h
  refine ⟨?_, heq.right⟩
  rw [← toNat_ofNat_length xs hx, ← toNat_ofNat_length ys hy, heq.left]

structure Block where
  bytes : List UInt8
  length_lt : bytes.length < 2 ^ 32
  deriving DecidableEq

namespace Block

def size (b : Block) : UInt32 := .ofNat b.bytes.length

@[simp]
theorem toNat_size (b : Block) : b.size.toNat = b.bytes.length :=
  toNat_ofNat_length b.bytes b.length_lt

def encode (b : Block) : List UInt8 := be32 b.size ++ b.bytes

@[simp]
theorem encode_length (b : Block) : b.encode.length = 4 + b.bytes.length := by
  simp [encode]

theorem prefixCode_encode : PrefixCode encode := by
  intro x y r s h
  simp only [encode, List.append_assoc] at h
  have hlen := lengthHeader_inj x.length_lt y.length_lt h
  have hsplit := List.append_inj hlen.right hlen.left
  cases x
  cases y
  simp_all

end Block

structure BlockVec where
  blocks : List Block
  length_lt : blocks.length < 2 ^ 32
  deriving DecidableEq

namespace BlockVec

def size (v : BlockVec) : UInt32 := .ofNat v.blocks.length

@[simp]
theorem toNat_size (v : BlockVec) : v.size.toNat = v.blocks.length :=
  toNat_ofNat_length v.blocks v.length_lt

def encode (v : BlockVec) : List UInt8 := be32 v.size ++ v.blocks.flatMap Block.encode

theorem prefixCode_encode : PrefixCode encode := by
  intro x y r s h
  simp only [encode, List.append_assoc] at h
  have hlen := lengthHeader_inj x.length_lt y.length_lt h
  have hitems := Block.prefixCode_encode.flatMap _ _ _ _ hlen.left hlen.right
  cases x
  cases y
  simp_all

theorem length_le_encode_length (v : BlockVec) : 4 * v.blocks.length + 4 ≤ v.encode.length := by
  have hblocks : ∀ bs : List Block, 4 * bs.length ≤ (bs.flatMap Block.encode).length := by
    intro bs
    induction bs with
    | nil => simp
    | cons b bs ih =>
      simp only [List.flatMap_cons, List.length_append, List.length_cons, Block.encode_length]
      omega
  have := hblocks v.blocks
  simp only [encode, List.length_append, be32_length]
  omega

theorem size_lt_encode_length (v : BlockVec)
    : ∀ b ∈ v.blocks, b.bytes.length + 4 < v.encode.length := by
  intro b hb
  have hmem : b.encode.length ≤ (v.blocks.flatMap Block.encode).length := by
    have hsub : b.encode <:+: v.blocks.flatMap Block.encode := by
      rw [List.flatMap_def]
      apply List.infix_of_mem_flatten (List.mem_map_of_mem hb)
    apply hsub.length_le
  simp only [encode, List.length_append, be32_length]
  rw [Block.encode_length] at hmem
  omega

end BlockVec

end Wire
