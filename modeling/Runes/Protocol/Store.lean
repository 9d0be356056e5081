import Runes.Protocol.Basic

/-!
This module contains the encoder of the client. The array that it appends to is a list of bytes, a
result of `none` is the `0` that the C functions return. The definitions have the names of the
functions of `protocol.c`, without `runes_` and in camel case, and so on in the other modules.
-/

namespace Runes
namespace Protocol

open Wire

def storeU32 (buf : List UInt8) (i : UInt32) : Option (List UInt8) :=
  some (buf ++ be32 i)

def storeStr (buf : List UInt8) (str : CString) : Option (List UInt8) := do
  let len := str.bytes.length
  if len > maxPacketSize then
    none
  else
    let buf ← storeU32 buf (.ofNat len)
    return buf ++ str.bytes

def storeStrs (buf : List UInt8) (vec : List CString) : Option (List UInt8) :=
  match vec with
  | [] => some buf
  | str :: vec => do
    let buf ← storeStr buf str
    storeStrs buf vec

def storeStrvec (buf : List UInt8) (vec : List CString) : Option (List UInt8) := do
  let len := vec.length
  if len > maxPacketSize then
    none
  else
    let buf ← storeU32 buf (.ofNat len)
    storeStrs buf vec

def createNewTermMessage (msg : NewTermMessage) : Option (List UInt8) := do
  let buf ← storeU32 [] messageVersion
  let buf ← storeU32 buf msg.argc
  let buf ← storeStrvec buf msg.argv
  let buf ← storeStrvec buf msg.envp
  storeStr buf msg.cwd

structure NewTermMessage.Storable (msg : NewTermMessage) : Prop where
  argv_length : msg.argv.length ≤ maxPacketSize
  argv_size : ∀ str ∈ msg.argv, str.bytes.length ≤ maxPacketSize
  envp_length : msg.envp.length ≤ maxPacketSize
  envp_size : ∀ str ∈ msg.envp, str.bytes.length ≤ maxPacketSize
  cwd_size : msg.cwd.bytes.length ≤ maxPacketSize

def encodeStr (str : CString) : List UInt8 := lengthHeader str.bytes ++ str.bytes

def encodeStrvec (vec : List CString) : List UInt8 := lengthHeader vec ++ vec.flatMap encodeStr

def NewTermMessage.encode (msg : NewTermMessage) : List UInt8 :=
  be32 messageVersion
    ++ (be32 msg.argc ++ (encodeStrvec msg.argv ++ (encodeStrvec msg.envp ++ encodeStr msg.cwd)))

theorem storeStr_eq (buf : List UInt8) (str : CString)
    : storeStr buf str
        =
      if str.bytes.length ≤ maxPacketSize then some (buf ++ encodeStr str) else none := by
  unfold storeStr storeU32 encodeStr lengthHeader
  dsimp
  split
  . rw [if_neg (by omega)]
  . rw [if_pos (by omega)]
    simp

theorem storeStrs_of_le (buf : List UInt8) (vec : List CString)
    (h : ∀ str ∈ vec, str.bytes.length ≤ maxPacketSize)
    : storeStrs buf vec = some (buf ++ vec.flatMap encodeStr) := by
  induction vec generalizing buf with
  | nil => simp [storeStrs]
  | cons str vec ih =>
    unfold storeStrs
    rw [storeStr_eq, if_pos (h str (by simp))]
    simp only [Option.bind_eq_bind, Option.bind_some]
    rw [ih]
    . simp
    . intro str hstr
      exact h str (by simp [hstr])

theorem le_of_storeStrs {buf buf' : List UInt8} {vec : List CString}
    (h : storeStrs buf vec = some buf')
    : ∀ str ∈ vec, str.bytes.length ≤ maxPacketSize := by
  induction vec generalizing buf with
  | nil => simp
  | cons str vec ih =>
    unfold storeStrs at h
    rw [storeStr_eq] at h
    split at h
    . next hle =>
      intro s hs
      rcases List.mem_cons.mp hs with rfl | hs
      . exact hle
      . exact ih h s hs
    . simp at h

theorem storeStrvec_of_le (buf : List UInt8) (vec : List CString)
    (hlen : vec.length ≤ maxPacketSize) (h : ∀ str ∈ vec, str.bytes.length ≤ maxPacketSize)
    : storeStrvec buf vec = some (buf ++ encodeStrvec vec) := by
  unfold storeStrvec storeU32
  dsimp
  rw [if_neg (by omega), storeStrs_of_le _ _ h]
  simp [encodeStrvec, lengthHeader]

theorem le_of_storeStrvec {buf buf' : List UInt8} {vec : List CString}
    (h : storeStrvec buf vec = some buf')
    : vec.length ≤ maxPacketSize ∧ ∀ str ∈ vec, str.bytes.length ≤ maxPacketSize := by
  unfold storeStrvec storeU32 at h
  dsimp at h
  split at h
  . simp at h
  . next hlen => exact ⟨by omega, le_of_storeStrs h⟩

theorem createNewTermMessage_eq_some_iff (msg : NewTermMessage) (buf : List UInt8)
    : createNewTermMessage msg = some buf ↔ msg.Storable ∧ msg.encode = buf := by
  constructor
  . intro h
    have hfields := h
    simp only [createNewTermMessage, storeU32, Option.bind_eq_bind, Option.bind_some,
      Option.bind_eq_some_iff] at hfields
    obtain ⟨buf₁, hargv, buf₂, henvp, hcwd⟩ := hfields
    have hcwdLe : msg.cwd.bytes.length ≤ maxPacketSize := by
      rw [storeStr_eq] at hcwd
      split at hcwd
      . assumption
      . simp at hcwd
    have hstorable : msg.Storable :=
      {
        argv_length := (le_of_storeStrvec hargv).left
        argv_size := (le_of_storeStrvec hargv).right
        envp_length := (le_of_storeStrvec henvp).left
        envp_size := (le_of_storeStrvec henvp).right
        cwd_size := hcwdLe
      }
    refine ⟨hstorable, ?_⟩
    rw [storeStrvec_of_le _ _ hstorable.argv_length hstorable.argv_size] at hargv
    injection hargv with hargv
    rw [storeStrvec_of_le _ _ hstorable.envp_length hstorable.envp_size] at henvp
    injection henvp with henvp
    rw [storeStr_eq, if_pos hcwdLe] at hcwd
    injection hcwd with hcwd
    rw [← hcwd, ← henvp, ← hargv]
    simp [NewTermMessage.encode]
  . rintro ⟨hstorable, rfl⟩
    simp only [createNewTermMessage, storeU32, Option.bind_eq_bind, Option.bind_some]
    rw [storeStrvec_of_le _ _ hstorable.argv_length hstorable.argv_size]
    simp only [Option.bind_some]
    rw [storeStrvec_of_le _ _ hstorable.envp_length hstorable.envp_size]
    simp only [Option.bind_some]
    rw [storeStr_eq, if_pos hstorable.cwd_size]
    simp [NewTermMessage.encode]

end Protocol
end Runes
