import Runes.Protocol.ParseLemmas
import Runes.Protocol.Store

/-!
This module contains the connection between the messages of the client and the packets that carry
them.
-/

namespace Runes
namespace Protocol

open Wire

structure SendableStr (b : Block) : Prop where
  nul_free : 0 ∉ b.bytes
  size : b.bytes.length ≤ maxPacketSize

structure SendableStrvec (v : BlockVec) : Prop where
  length : v.blocks.length ≤ maxPacketSize
  strs : ∀ b ∈ v.blocks, SendableStr b

structure WireMessage.Sendable (m : WireMessage) : Prop where
  argv : SendableStrvec m.argv
  envp : SendableStrvec m.envp
  cwd : SendableStr m.cwd

section ToWire

theorem exists_block_of_str (str : CString) (h : str.bytes.length ≤ maxPacketSize)
    : ∃ b : Block, SendableStr b ∧ CString.ofBytes b.bytes = str ∧ b.encode = encodeStr str := by
  have hlt : str.bytes.length < 2 ^ 32 := by
    unfold maxPacketSize at h
    omega
  exact ⟨⟨str.bytes, hlt⟩, ⟨str.nul_free, h⟩, by simp, rfl⟩

theorem exists_blocks_of_strs (strs : List CString)
    (h : ∀ str ∈ strs, str.bytes.length ≤ maxPacketSize)
    : ∃ blocks : List Block,
        (∀ b ∈ blocks, SendableStr b)
          ∧
        blocks.map (fun b => CString.ofBytes b.bytes) = strs
          ∧
        blocks.flatMap Block.encode = strs.flatMap encodeStr := by
  induction strs with
  | nil => exact ⟨[], by simp, rfl, rfl⟩
  | cons str strs ih =>
    obtain ⟨b, hsend, hview, hencode⟩ := exists_block_of_str str (h str (by simp))
    obtain ⟨bs, hsends, hviews, hencodes⟩ := ih (fun str' hstr => h str' (by simp [hstr]))
    refine ⟨b :: bs, ?_, ?_, ?_⟩
    . intro b' hb'
      rcases List.mem_cons.mp hb' with rfl | hb'
      . exact hsend
      . exact hsends b' hb'
    . simp [hview, hviews]
    . simp [hencode, hencodes]

theorem exists_blockVec_of_strvec (vec : List CString) (hlen : vec.length ≤ maxPacketSize)
    (h : ∀ str ∈ vec, str.bytes.length ≤ maxPacketSize)
    : ∃ v : BlockVec,
        SendableStrvec v
          ∧
        v.blocks.map (fun b => CString.ofBytes b.bytes) = vec
          ∧
        v.encode = encodeStrvec vec := by
  obtain ⟨blocks, hsend, hview, hencode⟩ := exists_blocks_of_strs vec h
  have hcount : blocks.length = vec.length := by rw [← hview, List.length_map]
  have hlt : blocks.length < 2 ^ 32 := by
    unfold maxPacketSize at hlen
    omega
  refine ⟨⟨blocks, hlt⟩, ⟨hcount ▸ hlen, hsend⟩, hview, ?_⟩
  simp [BlockVec.encode, BlockVec.size, encodeStrvec, lengthHeader, hcount, hencode]

theorem NewTermMessage.Storable.exists_wire {msg : NewTermMessage} (h : msg.Storable)
    : ∃ m : WireMessage, m.Sendable ∧ m.view = msg ∧ m.encode = msg.encode := by
  obtain ⟨argv, hargv, hargvView, hargvEncode⟩ :=
    exists_blockVec_of_strvec msg.argv h.argv_length h.argv_size
  obtain ⟨envp, henvp, henvpView, henvpEncode⟩ :=
    exists_blockVec_of_strvec msg.envp h.envp_length h.envp_size
  obtain ⟨cwd, hcwd, hcwdView, hcwdEncode⟩ := exists_block_of_str msg.cwd h.cwd_size
  refine ⟨⟨msg.argc, argv, envp, cwd⟩, ⟨hargv, henvp, hcwd⟩, ?_, ?_⟩
  . simp [WireMessage.view, hargvView, henvpView, hcwdView]
  . simp [WireMessage.encode, NewTermMessage.encode, hargvEncode, henvpEncode, hcwdEncode]

end ToWire

section FromWire

theorem SendableStr.ofBytes_bytes {b : Block} (h : SendableStr b)
    : (CString.ofBytes b.bytes).bytes = b.bytes := by
  have := CString.ofBytes_bytes ⟨b.bytes, h.nul_free⟩
  rw [this]

theorem SendableStr.encodeStr_eq {b : Block} (h : SendableStr b)
    : encodeStr (.ofBytes b.bytes) = b.encode := by
  simp [encodeStr, Block.encode, Block.size, lengthHeader, h.ofBytes_bytes]

theorem encodeStrs_eq (blocks : List Block) (h : ∀ b ∈ blocks, SendableStr b)
    : (blocks.map (fun b => CString.ofBytes b.bytes)).flatMap encodeStr
        =
      blocks.flatMap Block.encode := by
  induction blocks with
  | nil => rfl
  | cons b blocks ih =>
    rw [List.map_cons, List.flatMap_cons, List.flatMap_cons]
    rw [(h b (by simp)).encodeStr_eq]
    rw [ih (fun b' hb' => h b' (by simp [hb']))]

theorem SendableStrvec.encodeStrvec_eq {v : BlockVec} (h : SendableStrvec v)
    : encodeStrvec (v.blocks.map (fun b => CString.ofBytes b.bytes)) = v.encode := by
  simp only [encodeStrvec, lengthHeader, List.length_map]
  rw [encodeStrs_eq v.blocks h.strs]
  rfl

theorem SendableStrvec.size_le {v : BlockVec} (h : SendableStrvec v)
    : ∀ str ∈ v.blocks.map (fun b => CString.ofBytes b.bytes),
        str.bytes.length ≤ maxPacketSize := by
  intro str hstr
  obtain ⟨b, hb, rfl⟩ := List.mem_map.mp hstr
  rw [(h.strs b hb).ofBytes_bytes]
  apply (h.strs b hb).size

theorem WireMessage.Sendable.storable {m : WireMessage} (h : m.Sendable) : m.view.Storable where
  argv_length := by simpa [WireMessage.view] using h.argv.length
  argv_size := h.argv.size_le
  envp_length := by simpa [WireMessage.view] using h.envp.length
  envp_size := h.envp.size_le
  cwd_size := by
    have hsize := h.cwd.size
    rw [← h.cwd.ofBytes_bytes] at hsize
    exact hsize

theorem WireMessage.Sendable.encode_view {m : WireMessage} (h : m.Sendable)
    : m.view.encode = m.encode := by
  simp only [NewTermMessage.encode, WireMessage.view, WireMessage.encode]
  rw [h.argv.encodeStrvec_eq, h.envp.encodeStrvec_eq, h.cwd.encodeStr_eq]

theorem WireMessage.Sendable.create_eq_some {m : WireMessage} (h : m.Sendable)
    : createNewTermMessage m.view = some m.encode :=
  (createNewTermMessage_eq_some_iff m.view m.encode).mpr ⟨h.storable, h.encode_view⟩

end FromWire

/--
The image of the encoder consists of the sendable layouts.
-/
theorem exists_wire_of_create {msg : NewTermMessage} {buf : List UInt8}
    (h : createNewTermMessage msg = some buf)
    : ∃ m : WireMessage, m.Sendable ∧ m.view = msg ∧ m.encode = buf := by
  obtain ⟨hstorable, rfl⟩ := (createNewTermMessage_eq_some_iff msg buf).mp h
  apply hstorable.exists_wire

theorem Strvec.Loaded.view {v : Strvec} {w : BlockVec} (h : v.Loaded w)
    : v.strings.map (fun str => CString.ofBytes str.bytes)
        =
      w.blocks.map (fun b => CString.ofBytes b.bytes) := by
  have := congrArg (List.map CString.ofBytes) h.bytes
  simpa [Function.comp_def] using this

theorem LoadedMessage.Loaded.view {msg : LoadedMessage} {m : WireMessage} (h : msg.Loaded m)
    : msg.view = m.view := by
  simp [LoadedMessage.view, WireMessage.view, h.argc, h.argv.view, h.envp.view, h.cwd]

section Size

theorem length_le_encodeStrvec (vec : List CString)
    : vec.length ≤ (encodeStrvec vec).length
        ∧
      ∀ str ∈ vec, str.bytes.length ≤ (encodeStrvec vec).length := by
  induction vec with
  | nil => simp
  | cons s vec ih =>
    simp only [encodeStrvec, List.length_append, lengthHeader_length] at ih
    simp only [encodeStrvec, encodeStr, List.flatMap_cons, List.length_append, List.length_cons,
      lengthHeader_length]
    constructor
    . omega
    . intro str hstr
      rcases List.mem_cons.mp hstr with rfl | hstr
      . omega
      . have := ih.right str hstr
        omega

theorem NewTermMessage.storable_of_encode_le {msg : NewTermMessage}
    (h : msg.encode.length ≤ maxPacketSize)
    : msg.Storable := by
  have hargv := length_le_encodeStrvec msg.argv
  have henvp := length_le_encodeStrvec msg.envp
  simp only [NewTermMessage.encode, encodeStr, List.length_append, be32_length] at h
  constructor
  . omega
  . intro str hstr
    have := hargv.right str hstr
    omega
  . omega
  . intro str hstr
    have := henvp.right str hstr
    omega
  . omega

end Size

end Protocol
end Runes
