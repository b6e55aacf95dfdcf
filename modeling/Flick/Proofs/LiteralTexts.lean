import Flick.Proofs.Renaming

/-!
# The texts of literals

The text of a string is copied into the tree, and the text of a comment is
dropped.  So if the texts of literals are changed in the tokens, the same
changes come out in the strings of the tree, and nothing else is different
(`parse_mapLiteral`).

`Token.mapLiteral` changes a token in this way and `Node.mapStrings` a tree.
Both are renamings that leave all names as they are.
-/

namespace Flick

/-- The token with its text changed if it is a literal. -/
def Token.mapLiteral (f : String → String) (token : Token) : Token :=
  match token.kind with
  | .string | .comment => { token with text := f token.text }
  | _ => token

namespace Node

mutual

/-- The tree with the texts of its strings changed. -/
def mapStrings (f : String → String) : Node → Node
  | .leaf .string text => .leaf .string (f text)
  | .leaf kind text => .leaf kind text
  | .group form body => .group form (mapStringsAll f body)
  | .assignment name body => .assignment name (mapStringsAll f body)
  | .conditional condition body =>
    .conditional (mapStringsAll f condition) (mapStringsAll f body)
  | .operator symbol operand => .operator symbol (operand.mapStrings f)

/-- The trees with the texts of their strings changed. -/
def mapStringsAll (f : String → String) : List Node → List Node
  | [] => []
  | node :: nodes => node.mapStrings f :: mapStringsAll f nodes

end

end Node

/-- The program with the texts of its strings changed. -/
def Program.mapStrings (f : String → String) (program : Program) : Program where
  body := Node.mapStringsAll f program.body

/-- The texts of literals changed, and all others kept. -/
def Renaming.ofLiterals (f : String → String) : Renaming where
  text
    | .string | .comment => f
    | _ => id
  operator_iff _ := Iff.rfl

theorem Token.mapLiteral_eq_rename (f : String → String) :
    Token.mapLiteral f = Token.rename (Renaming.ofLiterals f).text := by
  funext token
  obtain ⟨kind, text⟩ := token
  cases kind <;> rfl

namespace Node

mutual

/-- Comments have no node, so the strings are all that changes. -/
theorem rename_ofLiterals (f : String → String) :
    (node : Node) → node.rename (Renaming.ofLiterals f).text = node.mapStrings f
  | .leaf kind _ => by cases kind <;> simp [rename, mapStrings, Renaming.ofLiterals, Leaf.tokenKind]
  | .group _ body => by rw [rename, mapStrings, renameAll_ofLiterals f body]
  | .assignment _ body => by
    rw [rename, mapStrings, renameAll_ofLiterals f body]
    rfl
  | .conditional condition body => by
    rw [rename, mapStrings, renameAll_ofLiterals f condition, renameAll_ofLiterals f body]
  | .operator _ operand => by
    rw [rename, mapStrings, rename_ofLiterals f operand]
    rfl

theorem renameAll_ofLiterals (f : String → String) :
    (nodes : List Node) → renameAll (Renaming.ofLiterals f).text nodes = mapStringsAll f nodes
  | [] => rfl
  | node :: nodes => by
    rw [renameAll, mapStringsAll, rename_ofLiterals f node, renameAll_ofLiterals f nodes]

end

end Node

/-- To change the texts of the literals before parsing is to change the
strings of the program.  An error is the same. -/
theorem parse_mapLiteral (f : String → String) (tokens : List Token) :
    parse (tokens.map (.mapLiteral f)) = (parse tokens).map (.mapStrings f) := by
  rw [Token.mapLiteral_eq_rename, parse_map_rename]
  cases parse tokens with
  | ok program =>
    have hbody := Node.renameAll_ofLiterals f program.body
    exact congrArg (fun body => Except.ok (Program.mk body)) hbody
  | error error => cases error <;> rfl

end Flick
