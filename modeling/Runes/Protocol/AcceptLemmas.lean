import Runes.Protocol.LoadLemmas

/-!
This module contains what can be said about a packet from the fact alone that the parser accepts it,
also when the parser leaves the packet on its way.
-/

namespace Runes
namespace Protocol

open Wire Exec

variable {α : Type} {loader : Nat → Nat → LoadM (Option (α × Nat))} {mem : List UInt8}
variable {buf p len offset n : Nat} {s s' : LoadState}

theorem of_run_load {a : α} (h : (load loader buf len offset).run s = .ok (some (a, n)) s')
    : ∃ m s₁ s₂,
        (loader (buf + offset) (sizeSub len offset)).run s₁ = .ok (some (a, m)) s₂
          ∧
        n = offset + m := by
  unfold load at h
  obtain ⟨_, s₁, _, h⟩ := of_run_bind_ok h
  obtain ⟨o, s₂, hloader, h⟩ := of_run_bind_ok h
  cases o with
  | none => cases h
  | some r =>
    obtain ⟨b, m⟩ := r
    obtain ⟨_, s₃, _, h⟩ := of_run_bind_ok h
    cases h
    exact ⟨m, s₁, s₂, hloader, rfl⟩

theorem of_run_loadField {next : α → Nat → LoadM (Option LoadedMessage)} {msg : LoadedMessage}
    (h : (loadField loader len offset next).run s = .ok (some msg) s')
    : ∃ a m s₁ s₂ s₃,
        (loader offset (sizeSub len offset)).run s₁ = .ok (some (a, m)) s₂
          ∧
        (next a (offset + m)).run s₃ = .ok (some msg) s' := by
  unfold loadField at h
  obtain ⟨o, s₁, hload, h⟩ := of_run_bind_ok h
  cases o with
  | none => cases h
  | some r =>
    obtain ⟨a, n⟩ := r
    obtain ⟨m, s₂, s₃, hloader, rfl⟩ := of_run_load hload
    rw [Nat.zero_add] at hloader
    exact ⟨a, m, s₂, s₃, s₁, hloader, h⟩

theorem of_run_loadU32 {i : UInt32} (h : (loadU32 mem p len).run s = .ok (some (i, n)) s')
    : 4 ≤ len ∧ n = 4 ∧ i = ofBE32 ((mem.drop p).take 4) := by
  unfold loadU32 at h
  split at h
  . cases h
  . obtain ⟨hi, s₁, hread, h⟩ := of_run_bind_ok h
    rw [run_readAt] at hread
    split at hread
    . cases hread
      cases h
      exact ⟨by omega, rfl, rfl⟩
    . cases hread

theorem of_run_loadStrs {vec veclen m k : Nat} {strs : List Str}
    (h : (loadStrs mem p len vec veclen m offset).run s = .ok (some (strs, k)) s')
    : strs.length = m := by
  induction m generalizing offset s strs k with
  | zero =>
    cases h
    rfl
  | succ m ih =>
    unfold loadStrs at h
    obtain ⟨_, s₁, _, h⟩ := of_run_bind_ok h
    obtain ⟨o, s₂, _, h⟩ := of_run_bind_ok h
    cases o with
    | none =>
      obtain ⟨_, s₃, _, h⟩ := of_run_bind_ok h
      obtain ⟨_, s₄, _, h⟩ := of_run_bind_ok h
      cases h
    | some r =>
      obtain ⟨o, s₃, hrest, h⟩ := of_run_bind_ok h
      cases o with
      | none => cases h
      | some r =>
        cases h
        rw [List.length_cons, ih hrest]

theorem of_run_loadStrvec {v : Strvec} (h : (loadStrvec mem p len).run s = .ok (some (v, n)) s')
    : 4 ≤ len ∧ v.strings.length = (ofBE32 ((mem.drop p).take 4)).toNat := by
  unfold loadStrvec at h
  obtain ⟨o, s₁, hheader, h⟩ := of_run_bind_ok h
  cases o with
  | none =>
    obtain ⟨_, s₂, _, h⟩ := of_run_bind_ok h
    cases h
  | some r =>
    obtain ⟨veclen, offset⟩ := r
    obtain ⟨m, s₂, s₃, hu32, _⟩ := of_run_load hheader
    obtain ⟨hlen, _, rfl⟩ := of_run_loadU32 hu32
    dsimp only at h
    split at h
    . cases h
    . obtain ⟨vec, s₄, _, h⟩ := of_run_bind_ok h
      obtain ⟨o, s₅, hstrs, h⟩ := of_run_bind_ok h
      cases o with
      | none => cases h
      | some r =>
        obtain ⟨_, s₆, _, h⟩ := of_run_bind_ok h
        cases h
        unfold sizeSub at hlen
        rw [strings_of_slots, of_run_loadStrs hstrs]
        exact ⟨by omega, rfl⟩

theorem of_run_parseNewTermMessage {msg : LoadedMessage}
    (h : (parseNewTermMessage mem len).run s = .ok (some msg) s') (hlt : len < 2 ^ 64)
    : 12 ≤ len
        ∧
      msg.argc = ofBE32 ((mem.drop 4).take 4)
        ∧
      msg.argv.strings.length = (ofBE32 ((mem.drop 8).take 4)).toNat := by
  unfold parseNewTermMessage at h
  obtain ⟨version, n, _, _, s₁, hversion, h⟩ := of_run_loadField h
  obtain ⟨hlen₁, rfl, _⟩ := of_run_loadU32 hversion
  split at h
  . cases h
  . obtain ⟨argc, n, _, _, s₂, hargc, h⟩ := of_run_loadField h
    obtain ⟨hlen₂, rfl, rfl⟩ := of_run_loadU32 hargc
    obtain ⟨argv, n₃, _, _, s₃, hargv, h⟩ := of_run_loadField h
    obtain ⟨hlen₃, hcount⟩ := of_run_loadStrvec hargv
    obtain ⟨envp, n₄, _, _, s₄, _, h⟩ := of_run_loadField h
    obtain ⟨cwd, n₅, _, _, s₅, _, h⟩ := of_run_loadField h
    cases h
    simp only [sizeSub] at hlen₁ hlen₂ hlen₃
    exact ⟨by omega, rfl, hcount⟩

end Protocol
end Runes
