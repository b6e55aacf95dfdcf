import Flick.Datum
import Flick.Text.Quoted

/-!
# Data as JSON

A record is an object.  Its first member is `type`, the name of the
record, and the fields follow in order.  Members and list items stand on
lines of their own, two spaces deeper than what encloses them.  The empty
list is `[]`.
-/

namespace Flick.Datum

open Text

/-- A character in a JSON string.  Short names first, then four
hexadecimal digits for the other controls, and all else as it is. -/
def jsonEscape (c : Char) : List Char :=
  match shortEscape? c with
  | some escaped => escaped
  | none =>
    if c.toNat < 0x20 then
      ['\\', 'u', '0', '0', Nat.digitChar (c.toNat / 16), Nat.digitChar (c.toNat % 16)]
    else [c]

/-- A JSON string. -/
def jsonString (text : String) : String := quoted jsonEscape text

/-- A line end and the indentation of the next line. -/
def lineBreak (indent : Nat) : String := "\n" ++ String.ofList (List.replicate indent ' ')

/-- The parts between an opening and a closing bracket.  Each part has a
line of its own, and commas stand between them. -/
def enclosed (opening closing : String) (indent : Nat) (parts : List String) : String :=
  if parts.isEmpty then opening ++ closing
  else
    opening ++ lineBreak (indent + 2) ++
      String.intercalate ("," ++ lineBreak (indent + 2)) parts ++
      lineBreak indent ++ closing

mutual

/-- The value as JSON, for a place that is indented by `indent`. -/
def json (indent : Nat) : Datum → String
  | .text value => jsonString value
  | .list items => enclosed "[" "]" indent (jsonItems (indent + 2) items)
  | .record name fields =>
    enclosed "\x7b" "\x7d" indent
      (("\"type\": " ++ jsonString name) :: jsonMembers (indent + 2) fields)

/-- The items of a list as JSON, one by one. -/
def jsonItems (indent : Nat) : List Datum → List String
  | [] => []
  | item :: items => item.json indent :: jsonItems indent items

/-- The fields of a record as members of a JSON object, one by one. -/
def jsonMembers (indent : Nat) : List (String × Datum) → List String
  | [] => []
  | (name, value) :: fields =>
    (jsonString name ++ ": " ++ value.json indent) :: jsonMembers indent fields

end

end Flick.Datum
