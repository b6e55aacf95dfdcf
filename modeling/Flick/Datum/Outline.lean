import Flick.Datum
import Flick.Text.Extending
import Flick.Text.Invisible
import Flick.Text.Quoted

/-!
# Data as an outline

A record is its name and, between braces, its fields.  Fields and list
items stand on lines of their own, four spaces deeper than what encloses
them, and each ends with a comma.  The empty list is `[]`.

Texts are quoted so that every character can be told from the others on
paper: a character that cannot be seen, or that is drawn onto the one
before it, is written by its code point.
-/

namespace Flick.Datum

open Text

/-- A character in a quoted text of an outline. -/
def outlineEscape (c : Char) : List Char :=
  if c = '\x00' then backslash '0'
  else if c = '\t' then backslash 't'
  else if c = '\n' then backslash 'n'
  else if c = '\r' then backslash 'r'
  else if c = '\x22' then backslash '\x22'
  else if c = '\\' then backslash '\\'
  else if isInvisible c || isExtending c then
    ['\\', 'u', '\x7b'] ++ hexDigits c.toNat ++ ['\x7d']
  else [c]

/-- A text of an outline. -/
def outlineString (text : String) : String := quoted outlineEscape text

/-- One line of an outline: indentation, the entry and a comma. -/
def outlineLine (indent : Nat) (entry : String) : String :=
  String.ofList (List.replicate indent ' ') ++ entry ++ ",\n"

/-- The entries between an opening and a closing bracket, each on lines
of its own. -/
def outlined (opening closing : String) (indent : Nat) (entries : List String) : String :=
  if entries.isEmpty then opening ++ closing
  else
    opening ++ "\n" ++ String.join (entries.map (outlineLine (indent + 4))) ++
      String.ofList (List.replicate indent ' ') ++ closing

mutual

/-- The value as an outline, for a place that is indented by `indent`. -/
def outline (indent : Nat) : Datum → String
  | .text value => outlineString value
  | .list items => outlined "[" "]" indent (outlineItems (indent + 4) items)
  | .record name fields =>
    outlined (name ++ " \x7b") "\x7d" indent (outlineFields (indent + 4) fields)

/-- The items of a list, one by one. -/
def outlineItems (indent : Nat) : List Datum → List String
  | [] => []
  | item :: items => item.outline indent :: outlineItems indent items

/-- The fields of a record, one by one. -/
def outlineFields (indent : Nat) : List (String × Datum) → List String
  | [] => []
  | (name, value) :: fields =>
    (name ++ ": " ++ value.outline indent) :: outlineFields indent fields

end

end Flick.Datum
