import HistoryKeeper.Toml.Numeral
import HistoryKeeper.Toml.Text
import HistoryKeeper.Toml.Tree

/-!
# TOML texts

`Toml.parse` reads a text of TOML 1.0, or refuses it. Arrays and inline tables lie inside one
another at most `nestingLimit` deep, and a key has no more dots than that.
-/

namespace HistoryKeeper.Toml

open Digits Scan

def nestingLimit : Nat := 79

/-! ### Keys -/

def isBareKey (c : Char) : Bool :=
  ('A' ≤ c && c ≤ 'Z') || ('a' ≤ c && c ≤ 'z') || isDigit c || c = '-' || c = '_'

def simpleKey : Scan String := do
  match ← peek with
  | some '"' | some '\'' => shortString
  | _ => return String.ofList (← span1 isBareKey)

/-- Names with dots between them; blanks may stand around each. -/
def names : (fuel : Nat) → Scan (List String)
  | 0 => refuse
  | fuel + 1 => do
    blanks
    let name ← simpleKey
    blanks
    if ← optional ['.'] then return name :: (← names fuel) else return [name]

/-- A key: the names before its last, and the last. -/
def key : Scan (List String × String) := do
  let ns ← names ((← get).length + 1)
  if nestingLimit < ns.length then refuse
  match ns.getLast? with
  | some last => return (ns.dropLast, last)
  | none => refuse

/-! ### Values -/

/-- The items of an array behind its opening bracket. -/
def items (item : Scan Value) : (fuel : Nat) → Scan (List Value)
  | 0 => refuse
  | fuel + 1 => do
    filler ((← get).length + 1)
    if ← optional [']'] then return []
    let v ← item
    filler ((← get).length + 1)
    if ← optional [','] then return v :: (← items item fuel)
    char ']'
    return [v]

/-- The entries of an inline table from a key on. -/
def entries (value : Scan Value) : (fuel : Nat) → Branches → Scan Branches
  | 0, _ => refuse
  | fuel + 1, bs => do
    let (path, name) ← key
    char '='
    blanks
    let v ← value
    blanks
    match bs.assign path name v with
    | none => refuse
    | some bs =>
      if ← optional [','] then entries value fuel bs
      else
        char '\x7d'
        return bs

/-- An inline table behind its opening brace. -/
def inlineTable (value : Scan Value) : Scan Value := do
  blanks
  if ← optional ['\x7d'] then return .table []
  let bs ← entries value ((← get).length + 1) []
  return .table (entriesToValues bs)

/-- A value whose items are read by `inner`, if there may be any. -/
def valueWith (inner : Option (Scan Value)) : Scan Value := do
  match ← peek, inner with
  | some '"', _ | some '\'', _ => return .string (← string)
  | some '[', some inner =>
    char '['
    return .array (← items inner ((← get).length + 1))
  | some '\x7b', some inner =>
    char '\x7b'
    inlineTable inner
  | some 't', _ => word ['t', 'r', 'u', 'e']; return .boolean true
  | some 'f', _ => word ['f', 'a', 'l', 's', 'e']; return .boolean false
  | some 'i', _ | some 'n', _ =>
    match ← special false with
    | some v => return v
    | none => refuse
  | some c, _ => if isDigit c || c = '+' || c = '-' then numeral else refuse
  | none, _ => refuse

def valueWithin : (depth : Nat) → Scan Value
  | 0 => valueWith none
  | depth + 1 => valueWith (some (valueWithin depth))

/-! ### Lines -/

/-- A header behind its first bracket. -/
def header (b : Building) : Scan Building := do
  let isArray ← optional ['[']
  let (path, name) ← key
  word (if isArray then [']', ']'] else [']'])
  lineRest
  let path := path ++ [name]
  match if isArray then b.beginItem path else b.beginTable path with
  | some b => return b
  | none => refuse

def assignment (b : Building) : Scan Building := do
  let (path, name) ← key
  char '='
  blanks
  let v ← valueWithin nestingLimit
  lineRest
  match b.assign path name v with
  | some b => return b
  | none => refuse

/-- Expressions up to the end of the text. -/
def expressions : (fuel : Nat) → Building → Scan Building
  | 0, _ => refuse
  | fuel + 1, b => do
    blanks
    match ← peek with
    | none => return b
    | some '#' => lineRest; expressions fuel b
    | some '[' =>
      char '['
      let b ← header b
      expressions fuel b
    | some _ =>
      if ← newline then expressions fuel b
      else
        let b ← assignment b
        expressions fuel b

/-- The table that a text describes. A byte order mark at its front is passed over. -/
def parse (text : String) : Option Value := do
  let scan : Scan Building := do
    let _ ← optional ['\uFEFF']
    expressions ((← get).length + 2) .start
  let (b, _) ← scan.run text.toList
  let bs ← b.finish
  return .table (entriesToValues bs)

end HistoryKeeper.Toml
