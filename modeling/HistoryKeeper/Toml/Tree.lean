import HistoryKeeper.Toml.Value

/-!
# Tables under construction

Each key of a TOML text may be set once, and a table may be defined once: by a header, by dotted
keys, or as an inline value, which is closed at once. A header or a dotted key makes the tables
above its last name as needed; such a table is implicit and a header may still define it. `Tree`
keeps what is needed to refuse the rest.
-/

namespace HistoryKeeper.Toml

/-- How a table came about. -/
structure Origin where
  /-- Not defined by a header of its own. -/
  implicit : Bool
  /-- Made by a dotted key. -/
  dotted : Bool
  deriving DecidableEq, Repr

inductive Tree where
  | leaf (v : Value)
  | table (origin : Origin) (entries : List (String × Tree))
  /-- The tables of an array of tables, the newest first. -/
  | tables (items : List (List (String × Tree)))
  deriving Repr, Inhabited

/-- The entries of a table in the order in which they were set. -/
abbrev Branches := List (String × Tree)

namespace Branches

def get? (bs : Branches) (key : String) : Option Tree :=
  bs.lookup key

/-- Set an entry, in its place if there is one. -/
def set (bs : Branches) (key : String) (t : Tree) : Branches :=
  match bs with
  | [] => [(key, t)]
  | (k, t') :: bs => if k = key then (key, t) :: bs else (k, t') :: set bs key t

def erase (bs : Branches) (key : String) : Branches :=
  bs.filter (·.1 ≠ key)

/-- Change the table that a path leads to, making tables on the way as needed. `change` is told
whether the table was made by a dotted key. -/
def update (dotted : Bool) (path : List String)
    (change : (dotted : Bool) → Branches → Option Branches) (here : Bool) (bs : Branches) :
    Option Branches :=
  match path with
  | [] => change here bs
  | key :: path =>
    match bs.get? key with
    | none => do
      let inner ← update dotted path change dotted []
      return bs.set key (.table ⟨true, dotted⟩ inner)
    | some (.leaf _) => none
    | some (.tables []) => none
    | some (.tables (newest :: older)) => do
      let inner ← update dotted path change false newest
      return bs.set key (.tables (inner :: older))
    | some (.table origin inner) => do
      if dotted && !origin.implicit then none
      let inner ← update dotted path change origin.dotted inner
      return bs.set key (.table origin inner)

/-- Set a key that is not set yet. With a dotted key its table has to be one made by dotted keys,
and the other way round. -/
def assign (path : List String) (key : String) (v : Value) (bs : Branches) : Option Branches :=
  bs.update true path (fun dotted inner =>
    if dotted = path.isEmpty then none
    else if (inner.get? key).isSome then none
    else some (inner.set key (.leaf v))) false

end Branches

/-- The outer tables, and the table that the last header began. -/
structure Building where
  root : Branches
  /-- The path of the last header, none before the first. -/
  path : List String
  isArray : Bool
  current : Branches

namespace Building

def start : Building :=
  { root := [], path := [], isArray := false, current := [] }

/-- Put the table of the last header in its place. -/
def finish (b : Building) : Option Branches :=
  match b.path.getLast? with
  | none => some b.current
  | some key =>
    b.root.update false b.path.dropLast (fun _ inner =>
      if b.isArray then
        match inner.get? key with
        | none => some (inner.set key (.tables [b.current]))
        | some (.tables items) => some (inner.set key (.tables (b.current :: items)))
        | some _ => none
      else
        match inner.get? key with
        | none => some (inner.set key (.table ⟨false, false⟩ b.current))
        | some (.table origin _) =>
          if origin.implicit then some (inner.set key (.table ⟨false, false⟩ b.current)) else none
        | some _ => none) false

/-- A table header. The table may be there already if it is implicit and not made by dotted keys. -/
def beginTable (b : Building) (path : List String) : Option Building := do
  let root ← b.finish
  let key ← path.getLast?
  -- the entries of an implicit table move into the one that begins
  let found ← lookup root path.dropLast
  let current ←
    match found.get? key with
    | none => some []
    | some (.table origin entries) =>
      if origin.implicit && !origin.dotted then some entries else none
    | some _ => none
  let root ← root.update false path.dropLast (fun _ inner => some (inner.erase key)) false
  return { root, path, isArray := false, current }
where
  /-- The table that a path leads to, empty if it is still to be made. -/
  lookup (bs : Branches) : List String → Option Branches
    | [] => some bs
    | key :: path =>
      match bs.get? key with
      | none => some []
      | some (.leaf _) => none
      | some (.tables []) => none
      | some (.tables (newest :: _)) => lookup newest path
      | some (.table _ inner) => lookup inner path

/-- A header of an array of tables, which begins one more table in it. -/
def beginItem (b : Building) (path : List String) : Option Building := do
  let root ← b.finish
  let key ← path.getLast?
  let root ← root.update false path.dropLast (fun _ inner =>
    match inner.get? key with
    | none => some (inner.set key (.tables []))
    | some (.tables _) => some inner
    | some _ => none) false
  return { root, path, isArray := true, current := [] }

def assign (b : Building) (path : List String) (key : String) (v : Value) : Option Building := do
  let current ← b.current.assign path key v
  return { b with current }

end Building

mutual

def Tree.toValue : Tree → Value
  | .leaf v => v
  | .table _ entries => .table (entriesToValues entries)
  | .tables items => .array (itemsToValues items).reverse

def entriesToValues : List (String × Tree) → List (String × Value)
  | [] => []
  | (key, t) :: entries => (key, t.toValue) :: entriesToValues entries

def itemsToValues : List (List (String × Tree)) → List Value
  | [] => []
  | entries :: items => .table (entriesToValues entries) :: itemsToValues items

end

end HistoryKeeper.Toml
