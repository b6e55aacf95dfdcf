/-!
# Quoted text

A quoted text stands between double quotes, and each character inside is
written by a rule that may escape it.  The formats of the printers differ
in that rule only.
-/

namespace Flick.Text

/-- The text between double quotes, each character written by `escape`. -/
def quoted (escape : Char → List Char) (text : String) : String :=
  String.ofList ('\x22' :: (text.toList.flatMap escape ++ ['\x22']))

/-- A backslash and one more character. -/
def backslash (c : Char) : List Char := ['\\', c]

/-- The hexadecimal digits of a number, in lower case and without leading
zeros. -/
def hexDigits (n : Nat) : List Char := Nat.toDigits 16 n

/-- The rule that escapes the two characters which quoting gives a
meaning, and the characters that have a short name in JSON. -/
def shortEscape? (c : Char) : Option (List Char) :=
  if c = '\x22' then some (backslash '\x22')
  else if c = '\\' then some (backslash '\\')
  else if c = '\x08' then some (backslash 'b')
  else if c = '\x0c' then some (backslash 'f')
  else if c = '\n' then some (backslash 'n')
  else if c = '\r' then some (backslash 'r')
  else if c = '\t' then some (backslash 't')
  else none

end Flick.Text
