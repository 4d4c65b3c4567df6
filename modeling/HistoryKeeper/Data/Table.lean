/-!
# Tables

A table is an association list in strictly ascending order of its keys, so equal content is equal
data. `insert` and `erase` keep the order (`Ordered`).
-/

namespace HistoryKeeper

abbrev Table (κ α : Type) := List (κ × α)

namespace Table

variable {κ α β : Type} [LT κ] [DecidableEq κ] [DecidableLT κ]

/-- Keys ascend strictly, so each occurs once. -/
def Ordered (t : Table κ α) : Prop :=
  t.Pairwise fun x y => x.1 < y.1

def get? (t : Table κ α) (k : κ) : Option α :=
  match t with
  | [] => none
  | (k', v) :: t => if k = k' then some v else get? t k

def insert (t : Table κ α) (k : κ) (v : α) : Table κ α :=
  match t with
  | [] => [(k, v)]
  | (k', v') :: t =>
    if k = k' then (k, v) :: t
    else if k < k' then (k, v) :: (k', v') :: t
    else (k', v') :: insert t k v

def erase (t : Table κ α) (k : κ) : Table κ α :=
  match t with
  | [] => []
  | (k', v') :: t => if k = k' then t else (k', v') :: erase t k

def contains (t : Table κ α) (k : κ) : Bool :=
  (t.get? k).isSome

/-- Entries in the order in which they are written; of two with one key the later stays. -/
def ofList (entries : List (κ × α)) : Table κ α :=
  entries.foldl (fun t (k, v) => t.insert k v) []

def mapValues (f : α → β) (t : Table κ α) : Table κ β :=
  t.map fun (k, v) => (k, f v)

end Table

end HistoryKeeper
