import HistoryKeeper.Text.Pieces

/-!
# Paths

A path is its text. Its components leave out empty segments and dots, so two spellings can have the
same components; `Path.same` compares those. What a path names is decided by the disk.
-/

namespace HistoryKeeper

structure Path where
  text : String
  deriving DecidableEq, Repr, Inhabited

namespace Path

inductive Component where
  | root
  /-- The dot at the front of a relative path. -/
  | here
  | up
  | name (s : String)
  deriving DecidableEq, Repr

/-- The text between slashes, empty pieces left out. -/
def segments (p : Path) : List String :=
  ((Text.pieces '/' p.text.toList).filter (!·.isEmpty)).map String.ofList

def isAbsolute (p : Path) : Bool :=
  p.text.toList.head? = some '/'

def hasTrailingSlash (p : Path) : Bool :=
  p.text.toList.getLast? = some '/'

def componentOf (segment : String) : Option Component :=
  if segment = "." then none
  else if segment = ".." then some .up
  else some (.name segment)

def components (p : Path) : List Component :=
  let front :=
    if p.isAbsolute then [Component.root]
    else if p.segments.head? = some "." then [Component.here] else []
  front ++ p.segments.filterMap componentOf

/-- Whether two paths have the same components. -/
def same (p q : Path) : Bool :=
  p.components = q.components

/-- `rest` below `base`; an absolute `rest` stands for itself. -/
def join (base : Path) (rest : String) : Path :=
  if (Path.mk rest).isAbsolute then ⟨rest⟩
  else if base.text.isEmpty || base.hasTrailingSlash then ⟨base.text ++ rest⟩
  else ⟨base.text ++ "/" ++ rest⟩

def ofComponents (cs : List Component) : Path :=
  cs.foldl (fun p c =>
    match c with
    | .root => ⟨"/"⟩
    | .here => p.join "."
    | .up => p.join ".."
    | .name s => p.join s) ⟨""⟩

/-- The path without its last component; the root has none. -/
def parent? (p : Path) : Option Path :=
  match p.components.reverse with
  | [] | .root :: _ => none
  | _ :: rest => some (ofComponents rest.reverse)

/-- The last component, if it is a name. -/
def fileName? (p : Path) : Option String :=
  match p.components.getLast? with
  | some (.name s) => some s
  | _ => none

/-- The path with its last name replaced; a path that ends in no name gets one more. -/
def withFileName (p : Path) (name : String) : Path :=
  match p.fileName?, p.parent? with
  | some _, some parent => parent.join name
  | _, _ => p.join name

/-- Text without the slashes and dots at its front that are no components. -/
def trimFront : List Char → List Char
  | '/' :: cs => trimFront cs
  | '.' :: '/' :: cs => trimFront cs
  | cs => cs

/-- The path as seen from a directory, if its text begins with that directory's. -/
def below (p base : Path) : String :=
  if base.text.toList.isPrefixOf p.text.toList then
    String.ofList (trimFront (p.text.toList.drop base.text.toList.length))
  else p.text

end Path

end HistoryKeeper
