import Flick.Vocabulary

/-!
# The syntax tree

A program is a list of nodes.  There is no node for a call: `print(x)` is
an identifier and then a bracketed group in the same body.  Literals keep
their source text.

The nodes come in five shapes.  A leaf holds text, a group holds a body,
an assignment also has a name, a conditional has a condition and a body,
and an operator has one operand.  `Node.typeName` gives the name of each
variant in printed trees.

`Node.children` are the direct children in source order.  `Node.preorder`
lists a node and all nodes below it, parents first.
-/

namespace Flick

/-- The leaves of the tree. -/
inductive Leaf where
  | string
  | number
  | ident
  deriving DecidableEq

/-- The groups: nodes that are nothing but a body. -/
inductive Form where
  /-- A function that no block encloses. -/
  | topLevelFunction
  /-- A function inside a block. -/
  | function
  | returnExpression
  | bracketed (bracket : Bracket)
  | elseStatement
  deriving DecidableEq

/-- A node of the syntax tree. -/
inductive Node where
  | leaf (kind : Leaf) (text : String)
  | group (form : Form) (body : List Node)
  | assignment (name : String) (body : List Node)
  | conditional (condition body : List Node)
  | operator (symbol : String) (operand : Node)

/-- The name of a leaf in printed trees. -/
def Leaf.typeName : Leaf → String
  | .string => "StringObj"
  | .number => "NumberObj"
  | .ident => "Ident"

/-- The name of a group in printed trees. -/
def Form.typeName : Form → String
  | .topLevelFunction => "TopLevelFuncDef"
  | .function => "FuncDef"
  | .returnExpression => "ReturnExpression"
  | .bracketed .square => "Array"
  | .bracketed .curly => "ArrayLiteral"
  | .bracketed .round => "ParenBlock"
  | .elseStatement => "ElseStatement"

namespace Node

/-- The name of the node's variant in printed trees. -/
def typeName : Node → String
  | .leaf kind _ => kind.typeName
  | .group form _ => form.typeName
  | .assignment .. => "AssignExpression"
  | .conditional .. => "IfStatement"
  | .operator .. => "Operator"

/-- The body of a node that has one. -/
def body? : Node → Option (List Node)
  | .leaf .. | .operator .. => none
  | .group _ body | .assignment _ body | .conditional _ body => some body

/-- The direct children in source order. -/
def children : Node → List Node
  | .leaf .. => []
  | .group _ body | .assignment _ body => body
  | .conditional condition body => condition ++ body
  | .operator _ operand => [operand]

/-! ## Walking the tree -/

mutual

/-- The node and all nodes below it, parents before children and siblings
in source order. -/
def preorder : Node → List Node
  | .leaf kind text => [.leaf kind text]
  | .group form body => .group form body :: preorderAll body
  | .assignment name body => .assignment name body :: preorderAll body
  | .conditional condition body =>
    .conditional condition body :: (preorderAll condition ++ preorderAll body)
  | .operator symbol operand => .operator symbol operand :: operand.preorder

/-- The nodes of several trees, one tree after the other. -/
def preorderAll : List Node → List Node
  | [] => []
  | node :: nodes => node.preorder ++ preorderAll nodes

end

theorem preorderAll_append (first second : List Node) :
    preorderAll (first ++ second) = preorderAll first ++ preorderAll second := by
  induction first with
  | nil => rfl
  | cons node first ih => simp [preorderAll, ih]

/-- A walk visits the node and then its children, in order. -/
theorem preorder_eq (node : Node) : node.preorder = node :: preorderAll node.children := by
  cases node <;> simp [preorder, children, preorderAll, preorderAll_append]

theorem preorderAll_singleton (node : Node) :
    preorderAll [node] = node :: preorderAll node.children := by
  rw [preorderAll, preorder_eq, preorderAll, List.append_nil]

/-! ## Equality -/

mutual

/-- Equality of nodes is decided shape by shape. -/
def decEq : (first second : Node) → Decidable (first = second)
  | .leaf a s, .leaf b t => decidable_of_iff (a = b ∧ s = t) (by simp)
  | .group a xs, .group b ys =>
    have := decEqAll xs ys
    decidable_of_iff (a = b ∧ xs = ys) (by simp)
  | .assignment s xs, .assignment t ys =>
    have := decEqAll xs ys
    decidable_of_iff (s = t ∧ xs = ys) (by simp)
  | .conditional xs zs, .conditional ys ws =>
    have := decEqAll xs ys
    have := decEqAll zs ws
    decidable_of_iff (xs = ys ∧ zs = ws) (by simp)
  | .operator s x, .operator t y =>
    have := decEq x y
    decidable_of_iff (s = t ∧ x = y) (by simp)
  | .leaf .., .group .. | .leaf .., .assignment .. | .leaf .., .conditional ..
  | .leaf .., .operator .. | .group .., .leaf .. | .group .., .assignment ..
  | .group .., .conditional .. | .group .., .operator .. | .assignment .., .leaf ..
  | .assignment .., .group .. | .assignment .., .conditional ..
  | .assignment .., .operator .. | .conditional .., .leaf .. | .conditional .., .group ..
  | .conditional .., .assignment .. | .conditional .., .operator ..
  | .operator .., .leaf .. | .operator .., .group .. | .operator .., .assignment ..
  | .operator .., .conditional .. => isFalse (by simp)

/-- Equality of bodies is decided node by node. -/
def decEqAll : (first second : List Node) → Decidable (first = second)
  | [], [] => isTrue rfl
  | [], _ :: _ | _ :: _, [] => isFalse (by simp)
  | x :: xs, y :: ys =>
    have := decEq x y
    have := decEqAll xs ys
    decidable_of_iff (x = y ∧ xs = ys) (by simp)

end

instance : DecidableEq Node := decEq

end Node

/-! ## Programs -/

/-- The root of a tree. -/
structure Program where
  body : List Node
  deriving DecidableEq

namespace Program

/-- All nodes of the program, parents before children. -/
def preorder (program : Program) : List Node := Node.preorderAll program.body

/-- The number of nodes below the root. -/
def nodeCount (program : Program) : Nat := program.preorder.length

end Program

end Flick
