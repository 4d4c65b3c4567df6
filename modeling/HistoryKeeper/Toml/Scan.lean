import HistoryKeeper.Number.Digits
import HistoryKeeper.Toml.Value

/-!
# Scanning TOML text

A `Scan` takes something off the front of the text or refuses it. This module has the parts that all
the rest is made of: characters, blanks, comments and line ends.
-/

namespace HistoryKeeper.Toml

abbrev Scan := StateT (List Char) Option

namespace Scan

def refuse {α : Type} : Scan α :=
  fun _ => none

def peek : Scan (Option Char) := do
  return (← get).head?

/-- The longest run of characters of a class. -/
def span (p : Char → Bool) : Scan (List Char) := do
  let cs ← get
  set (cs.dropWhile p)
  return cs.takeWhile p

/-- The same, but at least one. -/
def span1 (p : Char → Bool) : Scan (List Char) := do
  let cs ← span p
  if cs.isEmpty then refuse
  return cs

/-- One character of a class. -/
def one (p : Char → Bool) : Scan Char := do
  match ← get with
  | c :: cs => if p c then set cs; return c else refuse
  | [] => refuse

def char (c : Char) : Scan Unit := do
  let _ ← one (· = c)

/-- The given characters, if they are next. -/
def optional (expected : List Char) : Scan Bool := do
  let cs ← get
  if expected.isPrefixOf cs then
    set (cs.drop expected.length)
    return true
  else return false

def word (expected : List Char) : Scan Unit := do
  if !(← optional expected) then refuse

/-- A sign, if there is one: whether it is a minus. -/
def sign : Scan Bool := do
  if ← optional ['-'] then return true
  let _ ← optional ['+']
  return false

/-! ### Character classes -/

def isBlank (c : Char) : Bool := c = ' ' || c = '\t'

/-- Any character but the control characters; a tab is fine. -/
def isPlain (c : Char) : Bool := c = '\t' || (' ' ≤ c && c ≠ '\x7f')

/-! ### Blanks, comments, line ends -/

def blanks : Scan Unit := do
  let _ ← span isBlank

/-- A line feed, with or without a carriage return before it. -/
def newline : Scan Bool := do
  if ← optional ['\n'] then return true
  optional ['\r', '\n']

/-- A comment, if there is one, up to the end of its line. -/
def comment : Scan Bool := do
  if ← optional ['#'] then
    let _ ← span isPlain
    return true
  else return false

/-- The end of a line or of the text. -/
def lineEnd : Scan Unit := do
  if (← get).isEmpty then return
  if !(← newline) then refuse

/-- What may follow an expression on its line. -/
def lineRest : Scan Unit := do
  blanks
  let _ ← comment
  lineEnd

/-- Blanks and line ends, as many as there are; `fuel` bounds them. -/
def blankLines : (fuel : Nat) → Scan Unit
  | 0 => pure ()
  | fuel + 1 => do
    blanks
    if ← newline then blankLines fuel

/-- Blanks, line ends and comments, each comment with its line end. -/
def filler : (fuel : Nat) → Scan Unit
  | 0 => pure ()
  | fuel + 1 => do
    blanks
    if ← newline then filler fuel
    else if ← comment then
      if !(← newline) then refuse
      filler fuel

end Scan

end HistoryKeeper.Toml
