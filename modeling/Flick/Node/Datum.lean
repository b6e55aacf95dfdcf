import Flick.Datum.Json
import Flick.Datum.Outline
import Flick.Node

/-!
# Trees as printable data

Each node is a record under the name of its variant, with the fields of
that variant.  `Program.format` prints a program in either format.
-/

namespace Flick

namespace Node

mutual

/-- The record of a node. -/
def toDatum : Node → Datum
  | .leaf kind text => .record kind.typeName [("value", .text text)]
  | .group form body => .record form.typeName [("body", .list (toData body))]
  | .assignment name body =>
    .record "AssignExpression" [("name", .text name), ("body", .list (toData body))]
  | .conditional condition body =>
    .record "IfStatement"
      [("condition", .list (toData condition)), ("body", .list (toData body))]
  | .operator symbol operand =>
    .record "Operator" [("value", .text symbol), ("operand", operand.toDatum)]

/-- The records of a body, in order. -/
def toData : List Node → List Datum
  | [] => []
  | node :: nodes => node.toDatum :: toData nodes

end

end Node

/-- The formats of a printed tree. -/
inductive TreeFormat where
  | outline
  | json
  deriving DecidableEq

namespace Program

/-- The record of a program. -/
def toDatum (program : Program) : Datum :=
  .record "Program" [("body", .list (Node.toData program.body))]

/-- The text of a program in a format. -/
def format (program : Program) : TreeFormat → String
  | .outline => program.toDatum.outline 0
  | .json => program.toDatum.json 0

end Program

end Flick
