import HistoryKeeper.Text.Printable

/-!
# Quoted text

Text between double quotes, so that what is blank, invisible or combining can be seen: a quote and
a backslash are escaped, common control characters have a letter, and any other character that is
not printable or would combine with the one before it is written `\u` with its code point in braces.
-/

namespace HistoryKeeper.Text.Quoted

/-- Lower-case hexadecimal digits of a number, no leading zeros. -/
def hex (n : Nat) : List Char :=
  Nat.toDigits 16 n

def codePoint (c : Char) : List Char :=
  ['\\', 'u', '\x7b'] ++ hex c.toNat ++ ['\x7d']

/-- One character of quoted text; the characters in `quotes` are escaped as the backslash is. -/
def escape (quotes : List Char) (c : Char) : List Char :=
  if quotes.contains c || c = '\\' then ['\\', c]
  else match c with
  | '\x00' => ['\\', '0']
  | '\t' => ['\\', 't']
  | '\n' => ['\\', 'n']
  | '\r' => ['\\', 'r']
  | c => if extendsGrapheme c || !isPrintable c then codePoint c else [c]

/-- Text as messages show it. -/
def text (s : String) : String :=
  String.ofList ('"' :: s.toList.flatMap (escape ['"']) ++ ['"'])

/-- A path as messages show it: a single quote is escaped as well. -/
def path (s : String) : String :=
  String.ofList ('"' :: s.toList.flatMap (escape ['"', '\'']) ++ ['"'])

end HistoryKeeper.Text.Quoted
