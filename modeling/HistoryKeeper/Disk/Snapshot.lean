import HistoryKeeper.Disk.Basic

/-!
# Snapshots

A program that runs on a `Disk` takes a snapshot of the real tree first and carries out the changes
afterwards. A snapshot holds what the given paths lead through, and nothing else. `Disk.changes` is
what has to be done to the tree, parents before children.
-/

namespace HistoryKeeper

/-- The locations that a path leads through, if all of them are there. -/
def Path.trail (p : Path) (home : Location) : List Location :=
  let start : Location := if p.isAbsolute then [] else home
  let next (trail : List Location × Location) (segment : String) : List Location × Location :=
    let location :=
      if segment = "." then trail.2
      else if segment = ".." then trail.2.dropLast
      else trail.2 ++ [segment]
    (trail.1 ++ [location], location)
  (p.segments.foldl next ([start], start)).1

/-- What is found at a location. -/
inductive Sight where
  | absent
  | directory
  | file (content : Bytes)

namespace Disk

/-- A disk on which something has been found. -/
def record (d : Disk) (location : Location) (sight : Sight) : Disk :=
  match sight with
  | .absent => d
  | .directory => { d with nodes := d.nodes.insert location .directory }
  | .file content =>
    { d with
      nodes := d.nodes.insert location (.file d.nextId content)
      nextId := d.nextId + 1 }

inductive Change where
  | makeDir (location : Location)
  | write (location : Location) (content : Bytes)
  | remove (location : Location)
  deriving DecidableEq, Repr

/-- What makes one disk out of another: what is new or has other content, and what is gone. -/
def changes (before after : Disk) : List Change :=
  let made := after.nodes.filterMap fun (location, node) =>
    match before.nodes.get? location, node with
    | some .directory, .directory => none
    | some (.file _ old), .file _ content =>
      if old = content then none else some (.write location content)
    | _, .directory => some (.makeDir location)
    | _, .file _ content => some (.write location content)
  let gone := before.nodes.filterMap fun (location, _) =>
    match after.nodes.get? location with
    | none => some (.remove location)
    | some _ => none
  made ++ gone

end Disk

end HistoryKeeper
