import HistoryKeeper.Json.Basic
import HistoryKeeper.Number.Decimal

/-!
# TOML values

What a TOML text says, with dates and times in the text they are shown in, and its JSON form.
-/

namespace HistoryKeeper.Toml

inductive Value where
  | string (s : String)
  | integer (n : Int)
  | float (x : Binary64)
  | boolean (b : Bool)
  | datetime (text : String)
  | array (items : List Value)
  | table (entries : List (String × Value))
  deriving Repr, Inhabited

mutual

/-- The JSON form: a date is its text, and a float that is not finite is null. -/
def Value.toJson : Value → Json
  | .string s => .string s
  | .integer n => .ofInt n
  | .float x => .ofBinary64 x
  | .boolean b => .bool b
  | .datetime text => .string text
  | .array items => .array (itemsToJson items)
  | .table entries => .object (Table.ofList (entriesToJson entries))

def itemsToJson : List Value → List Json
  | [] => []
  | v :: vs => v.toJson :: itemsToJson vs

def entriesToJson : List (String × Value) → List (String × Json)
  | [] => []
  | (key, v) :: entries => (key, v.toJson) :: entriesToJson entries

end

end HistoryKeeper.Toml
