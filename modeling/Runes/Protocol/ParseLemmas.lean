import Runes.Protocol.LoadLemmas

/-!
This module contains what the parser of the daemon does with a whole packet.
-/

namespace Runes
namespace Protocol

open Wire Exec

def Fails (len : Nat) (m : LoadM (Option LoadedMessage)) : Prop :=
  ∀ s, ∃ s', Returns len m s none s' ∧ .foreign .outmsg ∈ s'.heap.badFrees

theorem fails_parseFail (len : Nat) : Fails len parseFail := by
  intro s
  refine ⟨_, Returns.bind (Returns.free _ _ _) (Returns.pure _ _ _), ?_⟩
  simp

section Field

variable {α : Type} {loader : Nat → Nat → LoadM (Option (α × Nat))}
variable {next : α → Nat → LoadM (Option LoadedMessage)}
variable {mem bs : List UInt8} {len offset n : Nat} {s s' s'' : LoadState}

theorem Returns.field (h : Window mem len offset bs) (hlt : len < 2 ^ 64)
    (hload : Returns len (loader offset bs.length) (s.record (.window offset len)) (some (a, n)) s')
    (hn : n ≤ bs.length)
    (hnext : Returns len (next a (offset + n)) (s'.record (.incr bs.length n)) r s'')
    : Returns len (loadField loader len offset next) s r s'' := by
  have hstop := h.stop
  have hsub : bs.length = len - offset := by omega
  rw [hsub] at hload hn hnext
  unfold loadField
  apply Returns.bind (Returns.load_some 0 (by omega) hlt hn (by simpa using hload))
  exact hnext

theorem Fails.field_none (h : Window mem len offset bs) (hlt : len < 2 ^ 64)
    (hload : ∀ s, ∃ s', Returns len (loader offset bs.length) s none s')
    : Fails len (loadField loader len offset next) := by
  have hstop := h.stop
  have hsub : bs.length = len - offset := by omega
  intro s
  obtain ⟨s₁, hnone⟩ := hload (s.record (.window offset len))
  rw [hsub] at hnone
  obtain ⟨s₂, hfail, hfreed⟩ := fails_parseFail len s₁
  refine ⟨s₂, ?_, hfreed⟩
  unfold loadField
  apply Returns.bind (Returns.load_none 0 (by omega) hlt (by simpa using hnone))
  exact hfail

theorem Fails.field_some (h : Window mem len offset bs) (hlt : len < 2 ^ 64)
    (hn : n ≤ bs.length)
    (hload : ∀ s, ∃ a s', Returns len (loader offset bs.length) s (some (a, n)) s'
      ∧ Fails len (next a (offset + n)))
    : Fails len (loadField loader len offset next) := by
  intro s
  obtain ⟨a, s₁, hsome, hnext⟩ := hload (s.record (.window offset len))
  obtain ⟨s₂, hfail, hfreed⟩ := hnext (s₁.record (.incr bs.length n))
  exact ⟨s₂, Returns.field h hlt hsome hn hfail, hfreed⟩

theorem Monotone.field (hloader : ∀ p k, Monotone (loader p k))
    (hnext : ∀ a n, Monotone (next a n)) (len offset : Nat)
    : Monotone (loadField loader len offset next) := by
  unfold loadField
  apply Monotone.bind (Monotone.load hloader _ _ _)
  intro o
  cases o with
  | none => exact Monotone.parseFail
  | some r => exact hnext _ _

theorem Strays.field (h : Window mem len offset bs) (hlt : len < 2 ^ 64)
    (hload : ∀ s, Strays mem len (loader offset bs.length) s)
    (hnext : ∀ a n, Monotone (next a n)) (s : LoadState)
    : Strays mem len (loadField loader len offset next) s := by
  have hstop := h.stop
  have hsub : bs.length = len - offset := by omega
  have hstray := hload (s.record (.window offset len))
  rw [hsub] at hstray
  unfold loadField
  apply Strays.bind_left (Strays.load 0 (by omega) hlt (by simpa using hstray))
  intro o
  cases o with
  | none => exact Monotone.parseFail
  | some r => exact hnext _ _

theorem Strays.field_some (h : Window mem len offset bs) (hlt : len < 2 ^ 64)
    (hn : n ≤ bs.length)
    (hload : ∀ s, ∃ a s', Returns len (loader offset bs.length) s (some (a, n)) s'
      ∧ ∀ s, Strays mem len (next a (offset + n)) s)
    (s : LoadState)
    : Strays mem len (loadField loader len offset next) s := by
  have hstop := h.stop
  have hsub : bs.length = len - offset := by omega
  obtain ⟨a, s₁, hsome, hnext⟩ := hload (s.record (.window offset len))
  rw [hsub] at hsome hn
  unfold loadField
  apply Strays.bind_right
    (Returns.load_some 0 (by omega) hlt hn (by simpa using hsome))
  exact hnext _

end Field

section Parse

variable {mem bs rest : List UInt8} {len p : Nat}

theorem Window.start (bs tail : List UInt8) : Window (bs ++ tail) bs.length 0 bs where
  drop := by simp
  stop := by simp

def LoadedMessage.addrs (msg : LoadedMessage) : List Nat :=
  msg.argv.addrs ++ (msg.envp.addrs ++ [msg.cwd.addr])

structure LoadedMessage.Loaded (msg : LoadedMessage) (m : WireMessage) : Prop where
  argc : msg.argc = m.argc
  argv : msg.argv.Loaded m.argv
  envp : msg.envp.Loaded m.envp
  cwd : msg.cwd.bytes = m.cwd.bytes

structure WireMessage.Allocatable (m : WireMessage) : Prop where
  argv : m.argv.blocks.length + 1 < 2 ^ 32 ∧ ∀ b ∈ m.argv.blocks, b.bytes.length + 1 < 2 ^ 32
  envp : m.envp.blocks.length + 1 < 2 ^ 32 ∧ ∀ b ∈ m.envp.blocks, b.bytes.length + 1 < 2 ^ 32
  cwd : m.cwd.bytes.length + 1 < 2 ^ 32

theorem Window.advance32 {i : UInt32} (h : Window mem len p (be32 i ++ bs))
    : Window mem len (p + 4) bs := h.advance

theorem Window.lt (h : Window mem len p bs) (hlt : len < 2 ^ 64) : bs.length < 2 ^ 64 := by
  have := h.stop
  omega

theorem returns_parseNewTermMessage (m : WireMessage) (h : Window mem len 0 (m.encode ++ rest))
    (hlt : len < 2 ^ 64) (s : LoadState)
    : ∃ msg s',
        Returns len (parseNewTermMessage mem len) s (some msg) s'
          ∧
        msg.Loaded m
          ∧
        s.heap.Allocates s'.heap msg.addrs
          ∧
        (m.Allocatable → s'.heap.badStores = s.heap.badStores) := by
  simp only [WireMessage.encode, List.append_assoc] at h
  have h₁ := h.advance32
  have h₂ := h₁.advance32
  have h₃ := h₂.advance
  have h₄ := h₃.advance
  obtain ⟨argv, s₃, hargv, hloadedArgv, hallocArgv, hstoresArgv⟩ :=
    returns_loadStrvec m.argv h₂ rfl (h₂.lt hlt) _
  obtain ⟨envp, s₄, henvp, hloadedEnvp, hallocEnvp, hstoresEnvp⟩ :=
    returns_loadStrvec m.envp h₃ rfl (h₃.lt hlt) _
  obtain ⟨cwd, s₅, hcwd, hloadedCwd, hallocCwd, hstoresCwd⟩ :=
    returns_loadStr m.cwd h₄ rfl (h₄.lt hlt) _
  refine ⟨⟨m.argc, argv, envp, cwd⟩, ?_⟩
  apply Exists.intro
  refine ⟨?run, ⟨rfl, hloadedArgv, hloadedEnvp, hloadedCwd⟩, ?alloc, ?stores⟩
  case run =>
    unfold parseNewTermMessage
    apply Returns.field h hlt (returns_loadU32 h rfl _) (by simp)
    rw [if_neg (by simp)]
    apply Returns.field h₁ hlt (returns_loadU32 h₁ rfl _) (by simp)
    apply Returns.field h₂ hlt hargv (by simp)
    apply Returns.field h₃ hlt henvp (by simp)
    apply Returns.field h₄ hlt hcwd (by simp)
    apply Returns.pure _ _ _
  case alloc =>
    apply hallocArgv.trans (hallocEnvp.trans hallocCwd)
  case stores =>
    intro hsmall
    have hfst := hstoresArgv hsmall.argv.left hsmall.argv.right
    have hsnd := hstoresEnvp hsmall.envp.left hsmall.envp.right
    have hthd := hstoresCwd hsmall.cwd
    exact hthd.trans (hsnd.trans hfst)

theorem strays_parseNewTermMessage (h : Window mem len 0 bs) (hlt : len < 2 ^ 64)
    (hover : Overlong bs) (s : LoadState)
    : Strays mem len (parseNewTermMessage mem len) s := by
  obtain ⟨argc, rest, rfl, hover⟩ := hover
  have h₁ := h.advance32
  have h₂ := h₁.advance32
  have hcwd : ∀ (argv envp : Strvec) (offset : Nat),
      Monotone (loadField (loadStr mem) len offset fun cwd _ =>
        return some ⟨argc, argv, envp, cwd⟩) :=
    fun _ _ _ => Monotone.field (Monotone.loadStr mem) (fun _ _ => Monotone.pure _) _ _
  unfold parseNewTermMessage
  apply Strays.field_some (n := 4) h hlt (by simp)
  intro s
  refine ⟨_, _, returns_loadU32 h rfl s, ?_⟩
  intro s
  rw [if_neg (by simp)]
  apply Strays.field_some (n := 4) h₁ hlt (by simp)
  intro s
  refine ⟨_, _, returns_loadU32 h₁ rfl s, ?_⟩
  intro s
  rcases hover with hover | ⟨argv, rest', rfl, hover⟩
  . apply Strays.field h₂ hlt (strays_loadStrvec h₂ rfl (h₂.lt hlt) hover)
    intro _ _
    apply Monotone.field (Monotone.loadStrvec mem) (fun _ _ => hcwd _ _ _) _ _
  . have h₃ := h₂.advance
    apply Strays.field_some (n := argv.encode.length) h₂ hlt (by simp)
    intro s
    obtain ⟨v, s₁, hargv, _⟩ := returns_loadStrvec argv h₂ rfl (h₂.lt hlt) s
    refine ⟨v, s₁, hargv, ?_⟩
    intro s
    rcases hover with hover | ⟨envp, rest'', rfl, hover⟩
    . exact Strays.field h₃ hlt (strays_loadStrvec h₃ rfl (h₃.lt hlt) hover)
        (fun _ _ => hcwd _ _ _) _
    . have h₄ := h₃.advance
      apply Strays.field_some (n := envp.encode.length) h₃ hlt (by simp)
      intro s
      obtain ⟨w, s₂, henvp, _⟩ := returns_loadStrvec envp h₃ rfl (h₃.lt hlt) s
      refine ⟨w, s₂, henvp, ?_⟩
      exact Strays.field h₄ hlt (strays_loadStr h₄ rfl (h₄.lt hlt) hover)
        (fun _ _ => Monotone.pure _)

theorem parse_fields_cases (argc : UInt32) {offset : Nat} (h : Window mem len offset bs)
    (hlt : len < 2 ^ 64)
    : (∃ (argv envp : BlockVec) (cwd : Block) (rest : List UInt8),
          bs = argv.encode ++ (envp.encode ++ (cwd.encode ++ rest)))
        ∨
      (OverlongStrvec bs ∨
        ∃ argv rest', bs = BlockVec.encode argv ++ rest' ∧
          (OverlongStrvec rest' ∨
            ∃ envp rest'', rest' = BlockVec.encode envp ++ rest'' ∧ OverlongStr rest''))
        ∨
      Fails len (
        loadField (loadStrvec mem) len offset fun argv offset =>
        loadField (loadStrvec mem) len offset fun envp offset =>
        loadField (loadStr mem) len offset fun cwd _ =>
        return some ⟨argc, argv, envp, cwd⟩) := by
  rcases loadStrvec_cases h rfl (h.lt hlt) with ⟨argv, rest, rfl⟩ | hover | hnone
  . have hargv := returns_loadStrvec argv h rfl (h.lt hlt)
    have h₁ := h.advance
    rcases loadStrvec_cases h₁ rfl (h₁.lt hlt) with ⟨envp, rest, rfl⟩ | hover | hnone
    . have henvp := returns_loadStrvec envp h₁ rfl (h₁.lt hlt)
      have h₂ := h₁.advance
      rcases loadStr_cases h₂ rfl (h₂.lt hlt) with ⟨cwd, rest, rfl⟩ | hover | hnone
      . left
        exact ⟨argv, envp, cwd, rest, rfl⟩
      . right; left; right
        exact ⟨argv, _, rfl, .inr ⟨envp, _, rfl, hover⟩⟩
      . right; right
        apply Fails.field_some (n := argv.encode.length) h hlt (by simp)
        intro s
        obtain ⟨v, s₁, hv, _⟩ := hargv s
        refine ⟨v, s₁, hv, ?_⟩
        apply Fails.field_some (n := envp.encode.length) h₁ hlt (by simp)
        intro s
        obtain ⟨w, s₂, hw, _⟩ := henvp s
        exact ⟨w, s₂, hw, Fails.field_none h₂ hlt hnone⟩
    . right; left; right
      exact ⟨argv, _, rfl, .inl hover⟩
    . right; right
      apply Fails.field_some (n := argv.encode.length) h hlt (by simp)
      intro s
      obtain ⟨v, s₁, hv, _⟩ := hargv s
      exact ⟨v, s₁, hv, Fails.field_none h₁ hlt hnone⟩
  . right; left; left
    exact hover
  . right; right
    apply Fails.field_none h hlt hnone

/--
The bytes of a packet decide between the three ways in which the parser can end.
-/
theorem parseNewTermMessage_cases (h : Window mem len 0 bs) (hlt : len < 2 ^ 64)
    : (∃ (m : WireMessage) (rest : List UInt8), bs = m.encode ++ rest)
        ∨
      Overlong bs
        ∨
      Fails len (parseNewTermMessage mem len) := by
  by_cases hshort : bs.length < 4
  . right; right
    apply Fails.field_none h hlt (fun s => ⟨s, returns_loadU32_none hshort s⟩)
  . have hbs := eq_be32_append_drop bs (by omega)
    generalize ofBE32 (bs.take 4) = version at hbs
    generalize bs.drop 4 = rest at hbs
    subst hbs
    have hversion := fun s => returns_loadU32 h rfl s
    have h₁ := h.advance32
    by_cases hmatch : version = messageVersion
    . by_cases hshort₁ : rest.length < 4
      . right; right
        apply Fails.field_some (n := 4) h hlt (by simp)
        intro s
        refine ⟨_, _, hversion s, ?_⟩
        rw [if_neg (by simp [hmatch])]
        exact Fails.field_none h₁ hlt (fun s => ⟨s, returns_loadU32_none hshort₁ s⟩)
      . have hrest := eq_be32_append_drop rest (by omega)
        generalize ofBE32 (rest.take 4) = argc at hrest
        generalize rest.drop 4 = rest' at hrest
        subst hrest
        subst hmatch
        have hargc := fun s => returns_loadU32 h₁ rfl s
        have h₂ := h₁.advance32
        rcases parse_fields_cases argc h₂ hlt with hfits | hover | hfails
        . left
          obtain ⟨argv, envp, cwd, rest, rfl⟩ := hfits
          exact ⟨⟨argc, argv, envp, cwd⟩, rest, by simp [WireMessage.encode]⟩
        . right; left
          exact ⟨argc, rest', rfl, hover⟩
        . right; right
          apply Fails.field_some (n := 4) h hlt (by simp)
          intro s
          refine ⟨_, _, hversion s, ?_⟩
          rw [if_neg (by simp)]
          apply Fails.field_some (n := 4) h₁ hlt (by simp)
          intro s
          exact ⟨_, _, hargc s, hfails⟩
    . right; right
      apply Fails.field_some (n := 4) h hlt (by simp)
      intro s
      refine ⟨_, _, hversion s, ?_⟩
      rw [if_pos (by simp [hmatch])]
      apply fails_parseFail len

end Parse

end Protocol
end Runes
