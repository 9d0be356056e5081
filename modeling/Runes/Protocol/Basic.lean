import Mathlib.Algebra.Group.Int.Defs
import Mathlib.Data.List.TakeWhile
import Runes.Wire.BigEndian

/-!
This module contains the messages of the daemon protocol, as the client has them in memory and as
they lie on the wire.
-/

namespace Runes
namespace Protocol

open Wire

def messageVersion : UInt32 := 1

def maxPacketSize : Nat := 1024 * 1024

def intOfU32 (i : UInt32) : Int := if i.toNat < 2 ^ 31 then i.toNat else i.toNat - 2 ^ 32

def u32OfInt (i : Int) : UInt32 := .ofNat (i % 2 ^ 32).toNat

-- What a `char *` points to up to its terminator.
structure CString where
  bytes : List UInt8
  nul_free : 0 ∉ bytes
  deriving DecidableEq

def CString.ofBytes (bytes : List UInt8) : CString where
  bytes := bytes.takeWhile (· ≠ 0)
  nul_free := by
    intro h
    simpa using List.mem_takeWhile_imp h

@[simp]
theorem CString.ofBytes_bytes (s : CString) : CString.ofBytes s.bytes = s := by
  have hall : ∀ b ∈ s.bytes, decide (b ≠ 0) = true := by
    intro b hb
    have : b ≠ 0 := fun heq => s.nul_free (heq ▸ hb)
    simpa using this
  cases s
  simp only [ofBytes, mk.injEq]
  apply List.takeWhile_eq_self_iff.mpr hall

structure NewTermMessage where
  argc : UInt32
  argv : List CString
  envp : List CString
  cwd : CString
  deriving DecidableEq

/--
What a well formed packet carries: the fields of a message whose strings are arbitrary bytes.
-/
structure WireMessage where
  argc : UInt32
  argv : BlockVec
  envp : BlockVec
  cwd : Block
  deriving DecidableEq

namespace WireMessage

def encode (m : WireMessage) : List UInt8 :=
  be32 messageVersion
    ++ (be32 m.argc ++ (m.argv.encode ++ (m.envp.encode ++ m.cwd.encode)))

theorem prefixCode_encode : PrefixCode encode := by
  intro x y r s h
  simp only [encode, List.append_assoc] at h
  have hversion := prefixCode_be32 _ _ _ _ h
  have hargc := prefixCode_be32 _ _ _ _ hversion.right
  have hargv := BlockVec.prefixCode_encode _ _ _ _ hargc.right
  have henvp := BlockVec.prefixCode_encode _ _ _ _ hargv.right
  have hcwd := Block.prefixCode_encode _ _ _ _ henvp.right
  cases x
  cases y
  simp_all

def view (m : WireMessage) : NewTermMessage where
  argc := m.argc
  argv := m.argv.blocks.map (fun b => .ofBytes b.bytes)
  envp := m.envp.blocks.map (fun b => .ofBytes b.bytes)
  cwd := .ofBytes m.cwd.bytes

end WireMessage

end Protocol
end Runes
