import HistoryKeeper.Toml.Scan

/-!
# TOML strings

Basic strings have escapes, literal strings have none. A string between three quotes may span lines:
a line end in it counts as a line feed, one right behind the opening quotes is dropped, and in a
basic string a backslash at the end of a line joins it to the next text.
-/

namespace HistoryKeeper.Toml

open Digits Scan

def toChar? (n : Nat) : Option Char :=
  if h : n.isValidChar then some (Char.ofNatAux n h) else none

/-- The code point written in `count` hexadecimal digits. -/
def codePoint (count : Nat) : Scan Char := do
  let cs ← get
  let digits := (cs.take count).filterMap hexValue?
  if digits.length ≠ count then refuse
  set (cs.drop count)
  match toChar? (number 16 digits) with
  | some c => return c
  | none => refuse

/-- What follows a backslash. -/
def escape : Scan Char := do
  match ← one fun _ => true with
  | 'b' => return '\x08'
  | 't' => return '\t'
  | 'n' => return '\n'
  | 'f' => return '\x0c'
  | 'r' => return '\r'
  | '"' => return '"'
  | '\\' => return '\\'
  | 'u' => codePoint 4
  | 'U' => codePoint 8
  | _ => refuse

/-- A basic string behind its opening quote. -/
def basicBody : (fuel : Nat) → Scan (List Char)
  | 0 => refuse
  | fuel + 1 => do
    let c ← one isPlain
    if c = '"' then return []
    let c ← if c = '\\' then escape else pure c
    return c :: (← basicBody fuel)

/-- A literal string behind its opening quote. -/
def literalBody : Scan (List Char) := do
  let cs ← span fun c => isPlain c && c ≠ '\''
  char '\''
  return cs

/-- Whether only blanks stand between a backslash and the end of its line. -/
def joinsLines (cs : List Char) : Bool :=
  let rest := cs.dropWhile isBlank
  ['\n'].isPrefixOf rest || ['\r', '\n'].isPrefixOf rest

/-- A string of several lines behind its opening quotes. One or two quotes belong to the text; up to
two more may stand before the closing three. -/
def longBody (quote : Char) (escapes : Bool) : (fuel : Nat) → Scan (List Char)
  | 0 => refuse
  | fuel + 1 => do
    if ← newline then return '\n' :: (← longBody quote escapes fuel)
    match ← peek with
    | none => refuse
    | some c =>
      if c = quote then
        let quotes ← span (· = quote)
        if quotes.length < 3 then return quotes ++ (← longBody quote escapes fuel)
        else if quotes.length ≤ 5 then return quotes.drop 3
        else refuse
      else if escapes && c = '\\' then
        char '\\'
        if joinsLines (← get) then
          blankLines (← get).length
          longBody quote escapes fuel
        else
          let c ← escape
          return c :: (← longBody quote escapes fuel)
      else
        let c ← one isPlain
        return c :: (← longBody quote escapes fuel)

/-- A string of one line. -/
def shortString : Scan String := do
  if ← optional ['"'] then return String.ofList (← basicBody ((← get).length + 1))
  char '\''
  return String.ofList (← literalBody)

def longString (quote : Char) : Scan String := do
  let _ ← newline
  return String.ofList (← longBody quote (quote = '"') ((← get).length + 1))

def string : Scan String := do
  if ← optional ['"', '"', '"'] then longString '"'
  else if ← optional ['\'', '\'', '\''] then longString '\''
  else shortString

end HistoryKeeper.Toml
