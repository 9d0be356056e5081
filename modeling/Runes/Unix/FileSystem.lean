import Mathlib.Logic.Function.Basic
import Runes.Exec.EState
import Runes.Unix.Paths

/-!
This module contains a file system as one process sees it, and the system calls that make, remove
and look up what is in it. What the system refuses for other reasons, such as a permission or a full
disk, is an argument.
-/

namespace Unix

inductive Errno where
  | eexist
  | enoent
  | enotdir
  | eloop
  | eisdir
  | eaddrinuse
  | other (n : Nat)
  deriving DecidableEq

inductive Entry where
  | dir (d : Nat)
  | link (target : Path)
  | file
  deriving DecidableEq

-- What a path leads to once all links have been followed.
inductive Node where
  | dir (d : Nat)
  | file
  deriving DecidableEq

inductive Request where
  | search (d : Nat) (name : Name)
  | mkdir (d : Nat) (name : Name)
  | unlink (d : Nat) (name : Name)
  | bind (d : Nat) (name : Name)
  | chmod (path : Path)
  deriving DecidableEq

/--
A directory is a place in `dirs`, where it has the entries `.` and `..` like any other. A number
that is not a place there stands for a directory that has been removed.
-/
structure FileSystem where
  root : Nat
  cwd : Nat
  dirs : List (Name → Option Entry)
  denies : Request → Option Errno

def newDirectory (self parent : Nat) (name : Name) : Option Entry :=
  if name = dot then
    some (.dir self)
  else if name = dotdot then
    some (.dir parent)
  else
    none

-- How many links the lookup of one path may follow.
def maxLinks : Nat := 40

namespace FileSystem

def entry (fs : FileSystem) (d : Nat) (name : Name) : Option Entry :=
  (fs.dirs[d]?).bind (fun dir => dir name)

def put (fs : FileSystem) (d : Nat) (name : Name) (e : Option Entry) : FileSystem :=
  { fs with dirs := fs.dirs.modify d (fun dir => Function.update dir name e) }

def addDirectory (fs : FileSystem) (d : Nat) (name : Name) : FileSystem :=
  let fs' := fs.put d name (some (.dir fs.dirs.length))
  { fs' with dirs := fs'.dirs ++ [newDirectory fs.dirs.length d] }

def check (fs : FileSystem) (request : Request) : Except Errno Unit :=
  match fs.denies request with
  | some errno => .error errno
  | none => .ok ()

def lookup (fs : FileSystem) (d : Nat) (name : Name) : Except Errno (Option Entry) := do
  fs.check (.search d name)
  return fs.entry d name

-- Where the lookup of a path begins that stands in directory `d`.
def start (fs : FileSystem) (d : Nat) (path : Path) : Nat :=
  if path.head? = some slash then fs.root else d

def walk (fs : FileSystem) (onLink : Nat → List Name → Except Errno Node) (d : Nat)
    (names : List Name)
    : Except Errno Node :=
  match names with
  | [] => .ok (.dir d)
  | name :: names =>
    match fs.lookup d name with
    | .error errno => .error errno
    | .ok none => .error .enoent
    | .ok (some (.dir d')) => fs.walk onLink d' names
    | .ok (some (.link target)) => onLink (fs.start d target) (components target ++ names)
    | .ok (some .file) => if names = [] then .ok .file else .error .enotdir

def follow (fs : FileSystem) (links : Nat) : Nat → List Name → Except Errno Node :=
  match links with
  | 0 => fs.walk (fun _ _ => .error .eloop)
  | links + 1 => fs.walk (fs.follow links)

/-- The node that `stat` looks at. -/
def resolve (fs : FileSystem) (path : Path) : Except Errno Node :=
  if path = [] then
    .error .enoent
  else do
    let node ← fs.follow maxLinks (fs.start fs.cwd path) (components path)
    if node = .file ∧ path.getLast? = some slash then
      throw .enotdir
    else
      return node

/-- The directory that a path has its last name in, and that name. -/
def parentOf (fs : FileSystem) (path : Path) : Except Errno (Nat × Name) :=
  match (components path).getLast? with
  | none => .error (if path = [] then .enoent else .eexist)
  | some name =>
    match fs.follow maxLinks (fs.start fs.cwd path) (components path).dropLast with
    | .error errno => .error errno
    | .ok .file => .error .enotdir
    | .ok (.dir d) => .ok (d, name)

def mkdir (fs : FileSystem) (path : Path) : Except Errno FileSystem := do
  let (d, name) ← fs.parentOf path
  match ← fs.lookup d name with
  | some _ => throw .eexist
  | none =>
    fs.check (.mkdir d name)
    if d < fs.dirs.length then
      return fs.addDirectory d name
    else
      throw .enoent

-- Only a directory can have a slash behind its name.
def hasSlash (path : Path) : Bool := path.getLast? = some slash

def unlink (fs : FileSystem) (path : Path) : Except Errno FileSystem :=
  if path ≠ [] ∧ components path = [] then
    .error .eisdir
  else do
    let (d, name) ← fs.parentOf path
    match ← fs.lookup d name with
    | none => throw .enoent
    | some (.dir _) => throw .eisdir
    | some _ =>
      if hasSlash path then
        throw .enotdir
      else
        fs.check (.unlink d name)
        return fs.put d name none

-- The socket is a file at the place that it is bound to.
def bind (fs : FileSystem) (path : Path) : Except Errno ((Nat × Name) × FileSystem) :=
  if path ≠ [] ∧ components path = [] then
    .error .eaddrinuse
  else do
    let (d, name) ← fs.parentOf path
    match ← fs.lookup d name with
    | some _ => throw .eaddrinuse
    | none =>
      if hasSlash path then
        throw .enoent
      else
        fs.check (.bind d name)
        if d < fs.dirs.length then
          return ((d, name), fs.put d name (some .file))
        else
          throw .enoent

def chmod (fs : FileSystem) (path : Path) : Except Errno Unit := do
  let _ ← fs.resolve path
  fs.check (.chmod path)

/-- A path from directory `d` through `names`, with at most `links` links. -/
inductive Leads (fs : FileSystem) : Nat → Nat → List Name → Node → Prop where
  | here {links d : Nat} : Leads fs links d [] (.dir d)
  | dir {links d d' : Nat} {name : Name} {names : List Name} {node : Node}
      (hsearch : fs.denies (.search d name) = none) (hentry : fs.entry d name = some (.dir d'))
      (h : Leads fs links d' names node)
      : Leads fs links d (name :: names) node
  | link {links d : Nat} {name : Name} {names : List Name} {target : Path} {node : Node}
      (hsearch : fs.denies (.search d name) = none) (hentry : fs.entry d name = some (.link target))
      (h : Leads fs links (fs.start d target) (components target ++ names) node)
      : Leads fs (links + 1) d (name :: names) node
  | file {links d : Nat} {name : Name} (hsearch : fs.denies (.search d name) = none)
      (hentry : fs.entry d name = some .file)
      : Leads fs links d [name] .file

/-- A file system after directories have been added, and nothing has been removed. -/
structure Extends (fs fs' : FileSystem) : Prop where
  root : fs'.root = fs.root
  cwd : fs'.cwd = fs.cwd
  denies : fs'.denies = fs.denies
  entry : ∀ {d name e}, fs.entry d name = some e → fs'.entry d name = some e

section

variable {fs fs' fs'' : FileSystem} {links d d' : Nat} {name : Name} {names names' : List Name}
variable {node : Node} {path : Path}

theorem lookup_eq_ok {e : Option Entry}
    : fs.lookup d name = .ok e ↔ fs.denies (.search d name) = none ∧ fs.entry d name = e := by
  unfold lookup check
  cases fs.denies (.search d name) with
  | none => simp [Bind.bind, Except.bind, Pure.pure, Except.pure]
  | some errno => simp [Bind.bind, Except.bind]

theorem walk_eq_ok {onLink : Nat → List Name → Except Errno Node}
    (honLink : ∀ d target names, onLink (fs.start d target) (components target ++ names) = .ok node
      → 0 < links ∧ fs.Leads (links - 1) (fs.start d target) (components target ++ names) node)
    (h : fs.walk onLink d names = .ok node)
    : fs.Leads links d names node := by
  induction names generalizing d with
  | nil =>
    cases h
    exact .here
  | cons name names ih =>
    unfold walk at h
    split at h
    . cases h
    . cases h
    . next d' hlookup =>
      rw [lookup_eq_ok] at hlookup
      exact .dir hlookup.left hlookup.right (ih h)
    . next target hlookup =>
      rw [lookup_eq_ok] at hlookup
      have ⟨hpos, hleads⟩ := honLink d target names h
      obtain ⟨links, rfl⟩ := Nat.exists_eq_add_of_lt hpos
      rw [Nat.zero_add] at hleads ⊢
      exact .link hlookup.left hlookup.right hleads
    . next hlookup =>
      rw [lookup_eq_ok] at hlookup
      split at h
      . next hnil =>
        cases h
        subst hnil
        exact .file hlookup.left hlookup.right
      . cases h

theorem leads_of_follow (h : fs.follow links d names = .ok node) : fs.Leads links d names node := by
  induction links generalizing d names with
  | zero =>
    apply walk_eq_ok _ h
    intro d target names h
    cases h
  | succ links ih =>
    apply walk_eq_ok _ h
    intro d target names h
    exact ⟨Nat.succ_pos links, ih h⟩

theorem Leads.follow_eq (h : fs.Leads links d names node) : fs.follow links d names = .ok node := by
  induction h with
  | here => unfold follow; split <;> rfl
  | dir hsearch hentry h ih =>
    rename_i links d d' name names node
    have hlookup := lookup_eq_ok.mpr ⟨hsearch, hentry⟩
    cases links with
    | zero => rw [follow, walk, hlookup]; exact ih
    | succ links => rw [follow, walk, hlookup]; exact ih
  | link hsearch hentry h ih =>
    rw [follow, walk, lookup_eq_ok.mpr ⟨hsearch, hentry⟩]
    exact ih
  | file hsearch hentry =>
    rename_i links d name
    have hlookup := lookup_eq_ok.mpr ⟨hsearch, hentry⟩
    cases links with
    | zero => rw [follow, walk, hlookup]; rfl
    | succ links => rw [follow, walk, hlookup]; rfl

theorem follow_eq_ok : fs.follow links d names = .ok node ↔ fs.Leads links d names node :=
  ⟨leads_of_follow, Leads.follow_eq⟩

theorem Leads.unique {node' : Node} (h : fs.Leads links d names node)
    (h' : fs.Leads links d names node')
    : node = node' := by
  have := h.follow_eq.symm.trans h'.follow_eq
  exact Except.ok.inj this

end

end FileSystem

end Unix
