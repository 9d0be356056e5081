import Runes.Unix.Extends

/-!
This module contains how the daemon opens its socket: it makes the directory of the socket with
`runes_mkdir_p`, and binds the socket in it.
-/

namespace Runes
namespace Socket

open Libc Unix Exec

-- What `runes_die` prints: a format and its arguments.
structure Died where
  format : String
  path : Option Path
  errno : Option Errno
  deriving DecidableEq

/--
The file system, what `socket` and `listen` answer, and the places that sockets have been bound to.
-/
structure Sys where
  fs : FileSystem
  socket : Except Errno Unit
  listen : Except Errno Unit
  bound : List (Nat × Name)

abbrev SysM := EStateM Died Sys

-- `sizeof(struct sockaddr_un) - offsetof(struct sockaddr_un, sun_path)`
def maxSocketPathLen : Nat := 108

def populateSockaddr (path : Path) : SysM Unit :=
  if path.length + 1 > maxSocketPathLen then
    throw ⟨"socket path %s is too long", some path, none⟩
  else
    return ()

def makeDirectory (newPath : Path) : SysM Unit := do
  let s ← get
  match s.fs.mkdir newPath with
  | .ok fs => set { s with fs := fs }
  | .error errno =>
    if errno ≠ .eexist then
      throw ⟨"couldn't create directory %s: %s", some newPath, some errno⟩
    else
      return ()

def mkdirComponents (partialPath tokStr : Path) : SysM Path :=
  match _htok : strtok tokStr slash with
  | none => return partialPath
  | some (pathComponent, save) => do
    let newPath := partialPath ++ pathComponent ++ [slash]
    makeDirectory newPath
    mkdirComponents newPath save
termination_by tokStr.length
decreasing_by exact length_strtok _htok

def mkdirP (dir : Path) : SysM Unit := do
  let partialPath ← mkdirComponents [slash] dir
  let s ← get
  match s.fs.resolve partialPath with
  | .error errno => throw ⟨"couldn't stat %s: %s", some partialPath, some errno⟩
  | .ok .file => throw ⟨"couldn't create directory %s: %s", some partialPath, some .eexist⟩
  | .ok (.dir _) => return ()

-- What is in front of the last slash.
def dirname (path : Path) : Option Path := (strrchr path slash).map (fun i => path.take i)

-- Whether there was something to remove does not matter.
def unlink (path : Path) : SysM Unit := do
  let s ← get
  match s.fs.unlink path with
  | .ok fs => set { s with fs := fs }
  | .error _ => return ()

/-- Everything that `runes_socket_server_open` does before it binds the socket. -/
def openToBind (path : Path) : SysM Unit := do
  populateSockaddr path
  match dirname path with
  | none => throw ⟨"socket path %s must be an absolute path", some path, none⟩
  | some dir =>
    mkdirP dir
    unlink path
    let s ← get
    match s.socket with
    | .error errno => throw ⟨"couldn't create socket: %s", none, some errno⟩
    | .ok () => return ()

def bindSocket (path : Path) : SysM Unit := do
  let s ← get
  match s.fs.bind path with
  | .error errno => throw ⟨"couldn't bind to socket %s: %s", some path, some errno⟩
  | .ok (place, fs) => set { s with fs := fs, bound := s.bound ++ [place] }

def serverOpen (path : Path) : SysM Unit := do
  openToBind path
  bindSocket path
  let s ← get
  match s.fs.chmod path with
  | .error errno => throw ⟨"couldn't chmod socket %s: %s", some path, some errno⟩
  | .ok () =>
    match s.listen with
    | .error errno => throw ⟨"couldn't listen on socket %s: %s", some path, some errno⟩
    | .ok () => return ()

end Socket
end Runes
