import HistoryKeeper.Data.Table
import HistoryKeeper.Number.Binary64

/-!
# JSON values

Numbers keep whether they are whole: an integer between -2^63 and 2^64 - 1, or a finite double. The
fields of an object are a table, ascending by key. `Json.WellFormed` collects what the reader
guarantees of every value it returns.
-/

namespace HistoryKeeper

namespace Json

inductive Number where
  | integer (n : Int)
  | float (x : Binary64)
  deriving DecidableEq, Repr

end Json

inductive Json where
  | null
  | bool (b : Bool)
  | number (n : Json.Number)
  | string (s : String)
  | array (items : List Json)
  | object (fields : List (String × Json))
  deriving Repr, Inhabited

namespace Json

def ofInt (n : Int) : Json := number (.integer n)

def ofNat (n : Nat) : Json := ofInt n

/-- A double as a value; what is not finite has no number and becomes null. -/
def ofBinary64 (x : Binary64) : Json :=
  if x.isFinite then number (.float x) else null

/-- The value of a field of an object; of anything else, none. -/
def get? (j : Json) (key : String) : Option Json :=
  match j with
  | object fields => Table.get? fields key
  | _ => none

/-- A whole number from 0 to 2^64 - 1. -/
def natural? : Json → Option Nat
  | number (.integer n) => if 0 ≤ n then some n.toNat else none
  | _ => none

def string? : Json → Option String
  | string s => some s
  | _ => none

def bool? : Json → Option Bool
  | bool b => some b
  | _ => none

def array? : Json → Option (List Json)
  | array items => some items
  | _ => none

/-- The value of a name path, `none` where a step has no such field. -/
def getPath? (j : Json) : List String → Option Json
  | [] => some j
  | key :: path => (j.get? key).bind (getPath? · path)

def Number.InRange : Number → Prop
  | .integer n => -Word.size63 ≤ n ∧ n < Word.size64
  | .float x => x.isFinite = true

mutual

/-- Numbers are in range and the fields of every object are ordered by key. -/
def WellFormed : Json → Prop
  | number n => n.InRange
  | array items => WellFormedItems items
  | object fields => Table.Ordered fields ∧ WellFormedFields fields
  | _ => True

def WellFormedItems : List Json → Prop
  | [] => True
  | item :: items => item.WellFormed ∧ WellFormedItems items

def WellFormedFields : List (String × Json) → Prop
  | [] => True
  | (_, value) :: fields => value.WellFormed ∧ WellFormedFields fields

end

mutual

/-- How many arrays and objects are nested, the value itself included. -/
def depth : Json → Nat
  | array items => depthItems items + 1
  | object fields => depthFields fields + 1
  | _ => 0

def depthItems : List Json → Nat
  | [] => 0
  | item :: items => max item.depth (depthItems items)

def depthFields : List (String × Json) → Nat
  | [] => 0
  | (_, value) :: fields => max value.depth (depthFields fields)

end

mutual

/-- Whether a double occurs in the value. -/
def HasFloat : Json → Prop
  | number (.float _) => True
  | array items => HasFloatItems items
  | object fields => HasFloatFields fields
  | _ => False

def HasFloatItems : List Json → Prop
  | [] => False
  | item :: items => item.HasFloat ∨ HasFloatItems items

def HasFloatFields : List (String × Json) → Prop
  | [] => False
  | (_, value) :: fields => value.HasFloat ∨ HasFloatFields fields

end

end Json

end HistoryKeeper
