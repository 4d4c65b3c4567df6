import HistoryKeeper.Json.Literal
import HistoryKeeper.Json.Numeral

/-!
# Reading JSON text

A `Reader` takes a value off the front of the bytes. Readers want a kind of value, so a value of the
wrong kind is refused where it stands, before the text behind it is looked at: of two faults the
earlier one is reported.

`head` reads a scalar or an opening bracket; every reader starts with it and then decides.
`Json.anyValue` reads a value of any kind, with at most `nestingLimit` arrays and objects inside one
another, `skipValue` passes over one.
-/

namespace HistoryKeeper.Json

abbrev Reader := StateT Bytes (Except Fault)

namespace Reader

def fail {α : Type} (fault : Fault) : Reader α :=
  throw fault

/-- Run a plain function on the bytes. -/
def lift {α : Type} (f : Bytes → Except Fault (α × Bytes)) : Reader α :=
  f

/-- The first byte, left where it is. -/
def peek : Reader (Option UInt8) := do
  return (← get).head?

/-- Pass over one byte. -/
def advance : Reader Unit :=
  modify List.tail

def isBlank (b : UInt8) : Bool :=
  b = 0x20 || b = 0x0A || b = 0x09 || b = 0x0D

def skipBlanks : Reader Unit :=
  modify (·.dropWhile isBlank)

/-- The first byte that is not blank, left where it is. -/
def peekToken : Reader (Option UInt8) := do
  skipBlanks
  peek

/-- The letters of a word such as `null`, the first of which was already seen. -/
def word : List UInt8 → Reader Unit
  | [] => pure ()
  | expected :: letters => do
    match ← peek with
    | none => fail .endInValue
    | some b =>
      advance
      if b = expected then word letters else fail .expectedWord

/-- Nothing but blanks up to the end of the bytes. -/
def finish : Reader Unit := do
  match ← peekToken with
  | none => pure ()
  | some _ => fail .trailingCharacters

/-- Read all of the bytes. -/
def readAll {α : Type} (reader : Reader α) (bytes : Bytes) : Except Fault α := do
  let (value, rest) ← reader.run bytes
  let _ ← finish.run rest
  return value

/-! ### Heads of values -/

/-- A scalar, or the bracket that opens an array or an object. -/
inductive Head where
  | null
  | bool (b : Bool)
  | number (n : Number)
  | string (s : String)
  | openArray
  | openObject
  deriving Repr

def Head.found : Head → Found
  | .null => .null
  | .bool b => .boolean b
  | .number (.integer n) => .integer n
  | .number (.float x) => .float x
  | .string s => .string s
  | .openArray => .sequence
  | .openObject => .map

def head : Reader Head := do
  match ← peekToken with
  | none => fail .endInValue
  | some 110 => advance; word [117, 108, 108]; return .null
  | some 116 => advance; word [114, 117, 101]; return .bool true
  | some 102 => advance; word [97, 108, 115, 101]; return .bool false
  | some 45 => advance; return .number (← lift (readNumeral true))
  | some 34 => advance; return .string (← lift readLiteral)
  | some 91 => advance; return .openArray
  | some 123 => advance; return .openObject
  | some b => if isDigit b then return .number (← lift (readNumeral false)) else fail .expectedValue

def wrongType {α : Type} (head : Head) (expected : String) : Reader α :=
  fail (.invalidType head.found expected)

/-! ### Scalars -/

/-- A whole number from 0 to `bound - 1`. -/
def natural (bound : Nat) (expected : String) : Reader Nat := do
  match ← head with
  | .number (.integer n) =>
    if 0 ≤ n && n < bound then return n.toNat else fail (.invalidValue (.integer n) expected)
  | h => wrongType h expected

/-- A whole number from `low` to `high`. -/
def integer (low high : Int) (expected : String) : Reader Int := do
  match ← head with
  | .number (.integer n) =>
    if low ≤ n && n ≤ high then return n else fail (.invalidValue (.integer n) expected)
  | h => wrongType h expected

/-- A double; an integer is rounded to one. -/
def float (expected : String) : Reader Binary64 := do
  match ← head with
  | .number (.integer n) => return .ofInt n
  | .number (.float x) => return x
  | h => wrongType h expected

def boolean (expected : String) : Reader Bool := do
  match ← head with
  | .bool b => return b
  | h => wrongType h expected

def string (expected : String) : Reader String := do
  match ← head with
  | .string s => return s
  | h => wrongType h expected

/-! ### Arrays and objects -/

/-- Whether an array goes on: its closing bracket is left where it is, a comma before a further item
is passed. -/
def moreItems (first : Bool) : Reader Bool := do
  match ← peekToken with
  | none => fail .endInList
  | some 93 => return false
  | some b =>
    if first then return true
    else if b = 44 then
      advance
      match ← peekToken with
      | none => fail .endInValue
      | some 93 => fail .trailingComma
      | some _ => return true
    else fail .expectedCommaInList

/-- The closing bracket of an array that should end here. -/
def closeArray : Reader Unit := do
  match ← peekToken with
  | none => fail .endInList
  | some 93 => advance
  | some 44 =>
    advance
    match ← peekToken with
    | some 93 => fail .trailingComma
    | _ => fail .trailingCharacters
  | some _ => fail .trailingCharacters

/-- Items up to the closing bracket; `fuel` bounds their number. -/
def items {α : Type} (item : Reader α) : (fuel : Nat) → (first : Bool) → Reader (List α)
  | 0, _ => fail .endInList
  | fuel + 1, first => do
    if ← moreItems first then
      let x ← item
      let xs ← items item fuel false
      return x :: xs
    else
      closeArray
      return []

/-- The items of an array behind its opening bracket. -/
def arrayBody {α : Type} (item : Reader α) : Reader (List α) := do
  items item ((← get).length + 1) true

/-- The next key of an object; none at the closing brace, which is left where it is. -/
def nextKey (first : Bool) : Reader (Option String) := do
  match ← peekToken with
  | none => fail .endInObject
  | some 125 => return none
  | some b =>
    if first then
      if b = 34 then advance; return some (← lift readLiteral) else fail .keyNotString
    else if b = 44 then
      advance
      match ← peekToken with
      | none => fail .endInValue
      | some 34 => advance; return some (← lift readLiteral)
      | some 125 => fail .trailingComma
      | some _ => fail .keyNotString
    else fail .expectedCommaInObject

def colon : Reader Unit := do
  match ← peekToken with
  | none => fail .endInObject
  | some 58 => advance
  | some _ => fail .expectedColon

/-- The closing brace of an object that should end here. -/
def closeObject : Reader Unit := do
  match ← peekToken with
  | none => fail .endInObject
  | some 125 => advance
  | some 44 => fail .trailingComma
  | some _ => fail .trailingCharacters

/-- The fields of an object up to its closing brace, folded into a result. `field` gets each key and
reads what follows it, the colon included; `fuel` bounds their number. -/
def fields {σ : Type} (field : String → σ → Reader σ) :
    (fuel : Nat) → (first : Bool) → σ → Reader σ
  | 0, _, _ => fail .endInObject
  | fuel + 1, first, acc => do
    match ← nextKey first with
    | some key =>
      let acc ← field key acc
      fields field fuel false acc
    | none => return acc

/-- The fields of an object behind its opening brace. -/
def objectBody {σ : Type} (field : String → σ → Reader σ) (acc : σ) : Reader σ := do
  fields field ((← get).length + 1) true acc

/-- An object whose values are of one kind, as a table: of two fields with one key the later
stays. -/
def tableBody {α : Type} (value : Reader α) : Reader (Table String α) := do
  let table ← objectBody (fun key (table : Table String α) => do
    colon
    let v ← value
    return table.insert key v) []
  closeObject
  return table

def array {α : Type} (item : Reader α) (expected : String) : Reader (List α) := do
  match ← head with
  | .openArray => arrayBody item
  | h => wrongType h expected

def table {α : Type} (value : Reader α) (expected : String) : Reader (Table String α) := do
  match ← head with
  | .openObject => tableBody value
  | h => wrongType h expected

/-! ### Values of any kind -/

/-- Arrays and objects may lie inside one another this deep. -/
def nestingLimit : Nat := 127

/-- A value whose items and fields are read by `inner`; without it neither arrays nor objects are
allowed any more. -/
def valueWith (inner : Option (Reader Json)) : Reader Json := do
  match ← head, inner with
  | .null, _ => return .null
  | .bool b, _ => return .bool b
  | .number n, _ => return .number n
  | .string s, _ => return .string s
  | .openArray, some inner => return .array (← arrayBody inner)
  | .openObject, some inner => return .object (← tableBody inner)
  | _, none => fail .tooDeep

/-- A value with at most `depth` arrays and objects inside one another. -/
def valueWithin : (depth : Nat) → Reader Json
  | 0 => valueWith none
  | depth + 1 => valueWith (some (valueWithin depth))

def anyValue : Reader Json :=
  valueWithin nestingLimit

/-! ### Passing over a value -/

/-- Digits, at least one. -/
def skipDigits : Reader Unit := do
  match spanDigits (← get) with
  | ([], _) => fail .invalidNumber
  | (_, rest) => set rest

def skipExponent : Reader Unit := do
  match ← peek with
  | some 43 | some 45 => advance
  | _ => pure ()
  skipDigits

def skipPower : Reader Unit := do
  match ← peek with
  | some 101 | some 69 => advance; skipExponent
  | _ => pure ()

/-- A number literal behind its sign, of any size. -/
def skipNumeral : Reader Unit := do
  match spanDigits (← get) with
  | ([], _) => fail .invalidNumber
  | (0 :: _ :: _, _) => fail .invalidNumber
  | (_, rest) =>
    set rest
    match ← peek with
    | some 46 => advance; skipDigits; skipPower
    | _ => skipPower

def skipString : Reader Unit :=
  lift fun bytes => ((), ·) <$> skipLiteral bytes

/-- The rest of an array behind an item. -/
def skipItems (value : Reader Unit) : (fuel : Nat) → Reader Unit
  | 0 => fail .endInList
  | fuel + 1 => do
    value
    match ← peekToken with
    | none => fail .endInList
    | some 44 => advance; skipItems value fuel
    | some 93 => advance
    | some _ => fail .expectedCommaInList

/-- The rest of an object from a key on. -/
def skipFields (value : Reader Unit) : (fuel : Nat) → Reader Unit
  | 0 => fail .endInObject
  | fuel + 1 => do
    match ← peekToken with
    | none => fail .endInObject
    | some 34 =>
      advance
      skipString
      colon
      value
      match ← peekToken with
      | none => fail .endInObject
      | some 44 => advance; skipFields value fuel
      | some 125 => advance
      | some _ => fail .expectedCommaInObject
    | some _ => fail .keyNotString

/-- A value that is not wanted, nested up to `fuel` deep; `fuel` bounds its items as well. -/
def skipWithin : (fuel : Nat) → Reader Unit
  | 0 => fail .endInValue
  | fuel + 1 => do
    match ← peekToken with
    | none => fail .endInValue
    | some 110 => advance; word [117, 108, 108]
    | some 116 => advance; word [114, 117, 101]
    | some 102 => advance; word [97, 108, 115, 101]
    | some 45 => advance; skipNumeral
    | some 34 => advance; skipString
    | some 91 =>
      advance
      match ← peekToken with
      | none => fail .endInList
      | some 93 => advance
      | some _ => skipItems (skipWithin fuel) fuel
    | some 123 =>
      advance
      match ← peekToken with
      | none => fail .endInObject
      | some 125 => advance
      | some _ => skipFields (skipWithin fuel) fuel
    | some b => if isDigit b then skipNumeral else fail .expectedValue

/-- Pass over a value of any kind and depth. -/
def skipValue : Reader Unit := do
  skipWithin ((← get).length + 1)

end Reader

/-- A JSON text of any kind of value. -/
def parse (bytes : Bytes) : Except Fault Json :=
  Reader.anyValue.readAll bytes

end HistoryKeeper.Json
