import HistoryKeeper.Data.Table
import HistoryKeeper.Disk.Path
import HistoryKeeper.Text.Utf8

/-!
# The disk

A `Disk` is a tree of files and directories as a value, with the advisory locks that are held on its
files. A location is the list of names from the root down; the root is always a directory. Each file
has a number of its own that stays with it when it is renamed, and a lock belongs to the number, not
to the name.

Paths are resolved name by name: every step has to start from a directory. An operation that fails
leaves the disk as it was, except for `createDirs`, which keeps the directories it made before.
-/

namespace HistoryKeeper

/-- Why the operating system refuses a request. -/
inductive IoFault where
  | notFound
  | busy
  | exists
  | notDirectory
  | isDirectory
  | nameTooLong
  | nulInPath
  | noTree
  | other (text : String)
  deriving DecidableEq, Repr

def IoFault.message : IoFault → String
  | .notFound => "No such file or directory (os error 2)"
  | .busy => "Device or resource busy (os error 16)"
  | .exists => "File exists (os error 17)"
  | .notDirectory => "Not a directory (os error 20)"
  | .isDirectory => "Is a directory (os error 21)"
  | .nameTooLong => "File name too long (os error 36)"
  | .nulInPath => "file name contained an unexpected NUL byte"
  | .noTree => "failed to create whole tree"
  | .other text => text

/-- Names from the root down. -/
abbrev Location := List String

/-- The number of a file, for as long as it exists. -/
abbrev FileId := Nat

inductive Node where
  | file (id : FileId) (content : Bytes)
  | directory
  deriving Repr

structure Disk where
  nodes : Table Location Node
  /-- Where relative paths start. -/
  home : Location
  /-- The number of the process at work, part of the names of its temporary files. -/
  processId : Nat
  nextId : FileId
  /-- Files on which someone holds the lock. -/
  locked : List FileId

namespace Disk

/-- A disk with one directory, in which relative paths start, and the directories above it. -/
def empty (home : Location) (processId : Nat) : Disk :=
  { nodes := (List.range home.length).foldl
      (fun t n => t.insert (home.take (n + 1)) .directory) []
    home
    processId
    nextId := 0
    locked := [] }

def node? (d : Disk) (location : Location) : Option Node :=
  if location.isEmpty then some .directory else d.nodes.get? location

/-! ### Resolving paths -/

def longestName : Nat := 255

def longestPath : Nat := 4095

/-- One step from a directory. -/
def step (d : Disk) (location : Location) (segment : String) : Except IoFault Location :=
  match d.node? location with
  | none => .error .notFound
  | some (.file _ _) => .error .notDirectory
  | some .directory =>
    if segment = "." then .ok location
    else if segment = ".." then .ok location.dropLast
    else if longestName < segment.utf8ByteSize then .error .nameTooLong
    else .ok (location ++ [segment])

def steps (d : Disk) : Location → List String → Except IoFault Location
  | location, [] => .ok location
  | location, segment :: segments => do
    let next ← d.step location segment
    steps d next segments

/-- What a path leads to. Everything but the last name has to exist. -/
structure Target where
  location : Location
  /-- The path ends in a slash. -/
  slash : Bool
  /-- The path ends in dots, so that it can only name a directory that exists. -/
  dots : Bool

def resolve (d : Disk) (p : Path) : Except IoFault Target :=
  if p.text.toList.contains '\x00' then .error .nulInPath
  else if p.text.isEmpty then .error .notFound
  else if longestPath < p.text.utf8ByteSize then .error .nameTooLong
  else do
    let segments := p.segments
    let location ← d.steps (if p.isAbsolute then [] else d.home) segments
    let last := segments.getLast?
    return { location
             slash := p.hasTrailingSlash
             dots := last = some "." || last = some ".." || segments.isEmpty }

/-! ### Looking -/

def stat (d : Disk) (p : Path) : Except IoFault Node := do
  let target ← d.resolve p
  match d.node? target.location with
  | none => throw .notFound
  | some .directory => return .directory
  | some (.file id content) => if target.slash then throw .notDirectory else return .file id content

def pathExists (d : Disk) (p : Path) : Bool :=
  match d.stat p with
  | .ok _ => true
  | .error _ => false

def isDirectory (d : Disk) (p : Path) : Bool :=
  match d.stat p with
  | .ok .directory => true
  | _ => false

def read (d : Disk) (p : Path) : Except IoFault Bytes := do
  match ← d.stat p with
  | .file _ content => return content
  | .directory => throw .isDirectory

/-! ### Changing -/

def makeDir (d : Disk) (p : Path) : Except IoFault Disk := do
  let target ← d.resolve p
  match d.node? target.location with
  | some _ => throw .exists
  | none => return { d with nodes := d.nodes.insert target.location .directory }

/-- Open a file for writing, making an empty one if there is none; its content stays. -/
def openFile (d : Disk) (p : Path) : Except IoFault (Location × FileId × Disk) := do
  let target ← d.resolve p
  if target.slash then throw .isDirectory
  match d.node? target.location with
  | some .directory => throw .isDirectory
  | some (.file id _) => return (target.location, id, d)
  | none =>
    let nodes := d.nodes.insert target.location (.file d.nextId [])
    return (target.location, d.nextId, { d with nodes, nextId := d.nextId + 1 })

/-- Give a file, which is made if there is none, this content. -/
def write (d : Disk) (p : Path) (content : Bytes) : Except IoFault Disk := do
  let (location, id, d) ← d.openFile p
  return { d with nodes := d.nodes.insert location (.file id content) }

def remove (d : Disk) (p : Path) : Except IoFault Disk := do
  let target ← d.resolve p
  match d.node? target.location with
  | none => throw .notFound
  | some .directory => throw .isDirectory
  | some (.file _ _) =>
    if target.slash then throw .notDirectory
    return { d with nodes := d.nodes.erase target.location }

/-- Move a file onto another name, replacing a file of that name. -/
def rename (d : Disk) (source destination : Path) : Except IoFault Disk := do
  let start ← d.resolve source
  let target ← d.resolve destination
  if target.dots then throw .busy
  match d.node? start.location with
  | none => throw .notFound
  | some .directory => throw .isDirectory
  | some (.file id content) =>
    if target.slash then throw .notDirectory
    match d.node? target.location with
    | some .directory => throw .isDirectory
    | _ =>
      return { d with
        nodes := (d.nodes.erase start.location).insert target.location (.file id content) }

end Disk

/-- Requests to the operating system in turn. What was done before a failure stays done. -/
abbrev DiskOp := EStateM IoFault Disk

namespace Disk

/-- Make a directory; that it is there already is fine. -/
def ensureDir (p : Path) : DiskOp Unit := fun d =>
  match d.makeDir p with
  | .ok d => .ok () d
  | .error e => if d.isDirectory p then .ok () d else .error e d

def createDirsWithin : (fuel : Nat) → Path → DiskOp Unit
  | 0, _ => throw .noTree
  | fuel + 1, p => fun d =>
    if p.text.isEmpty then .ok () d
    else match d.makeDir p with
    | .ok d => .ok () d
    | .error .notFound =>
      match p.parent? with
      | none => .error .noTree d
      | some parent =>
        match createDirsWithin fuel parent d with
        | .ok _ d => ensureDir p d
        | .error e d => .error e d
    | .error e => if d.isDirectory p then .ok () d else .error e d

/-- Make a directory and those above it as needed. -/
def createDirs (p : Path) : DiskOp Unit :=
  createDirsWithin (p.components.length + 1) p

/-! ### Locks -/

def isLocked (d : Disk) (id : FileId) : Bool :=
  d.locked.contains id

def lock (d : Disk) (id : FileId) : Disk :=
  { d with locked := id :: d.locked }

def unlock (d : Disk) (id : FileId) : Disk :=
  { d with locked := d.locked.erase id }

/-! ### Listings -/

/-- What lies below a location: names from there down, with the content of files. -/
def listing (d : Disk) (base : Location) : List (Location × Option Bytes) :=
  d.nodes.filterMap fun (location, node) =>
    if base.isPrefixOf location && base.length < location.length then
      let content := match node with
        | .file _ content => some content
        | .directory => none
      some (location.drop base.length, content)
    else none

end Disk

end HistoryKeeper
