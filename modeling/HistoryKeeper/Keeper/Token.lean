/-!
# Tokens

Each read has a token of its own, so two reads of one key can be told apart. A token is a number of
130 bits at most; its text has 26 digits to the base 32 in lower case, without the letters i, l, o
and u.
-/

namespace HistoryKeeper

structure Token where
  number : Nat
  deriving DecidableEq, Repr

namespace Token

/-- The digits to the base 32. -/
def alphabet : List Char :=
  "0123456789abcdefghjkmnpqrstvwxyz".toList

def textLength : Nat := 26

/-- `places` digits of a number, the last ones. -/
def digits : (places : Nat) → Nat → List Char
  | 0, _ => []
  | places + 1, n => digits places (n / 32) ++ [alphabet.getD (n % 32) '0']

def text (t : Token) : String :=
  String.ofList (digits textLength t.number)

/-- Whether a text has the form of a token's. -/
def isWellFormed (s : String) : Bool :=
  s.length = textLength && s.toList.all alphabet.contains

/-- Fresh tokens, from a number on. -/
def fresh (first count : Nat) : List Token :=
  (List.range count).map fun n => ⟨first + n⟩

end Token

end HistoryKeeper
