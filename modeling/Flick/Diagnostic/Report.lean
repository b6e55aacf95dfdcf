import Flick.Diagnostic
import Flick.Text.Quoted

/-!
# Reports

Two texts tell a diagnostic.  The narrated one is prose for a terminal.
The record is one line of JSON for a tool.
-/

namespace Flick.Diagnostic

open Text

/-! ## Prose -/

/-- The diagnostic in words, without a final line end. -/
def narrate (diagnostic : Diagnostic) : String :=
  diagnostic.message ++ "\n    Diagnostic severity: error" ++
    (match diagnostic.help with
      | some help => "\ndiagnostic help: " ++ help
      | none => "") ++
    "\ndiagnostic code: " ++ diagnostic.code

/-! ## One line of JSON -/

/-- A text of the record.  Only characters with a short name are escaped. -/
def recordString (text : String) : String :=
  quoted (fun c => (shortEscape? c).getD [c]) text

/-- A label of the record: the remark and the span that it is about. -/
def recordLabel (label : Label) : String :=
  "\x7b\"label\": " ++ recordString label.text ++ ",\"span\": \x7b\"offset\": " ++
    toString label.offset ++ ",\"length\": " ++ toString label.length ++ "\x7d\x7d"

/-- The diagnostic as a record.  The file is named only if there is a
place in it to point at. -/
def toRecord (diagnostic : Diagnostic) (file : String) : String :=
  "\x7b\"message\": " ++ recordString diagnostic.message ++
    ",\"code\": " ++ recordString diagnostic.code ++
    ",\"severity\": \"error\",\"causes\": []" ++
    (match diagnostic.help with
      | some help => ",\"help\": " ++ recordString help
      | none => "") ++
    ",\"filename\": " ++
    recordString (if diagnostic.labels.isEmpty then "" else file) ++
    ",\"labels\": [" ++
    String.intercalate "," (diagnostic.labels.map recordLabel) ++
    "],\"related\": []\x7d"

end Flick.Diagnostic
