import Flick.Node
import Flick.Parser

/-!
# From tokens to a tree

`item` looks at the next token, takes all that belongs to it and makes at
most one node.  Layout and punctuation that mean nothing by themselves
are taken without a node, so a body collects the nodes that there are.

Every construct that can hold further items is given the action that
reads one of them, and is entered through `Parser.nested`.  `item` ties
the knot.  It recurses on a bound that exceeds the nesting limit, so the
limit stops it first.  The loops recurse on a bound that exceeds the
tokens that are left, since each turn but the last takes at least one.

`Parser.parse` reads all that is left of the tokens, and `parse` reads a
whole token list.
-/

namespace Flick

/-- The most constructs that may be open inside each other. -/
def maxNesting : Nat := 128

/-- The identifiers that apply to the one item after them. -/
def prefixOperators : List String := ["+", "-", "*", "/", "^"]

namespace Parser

open Layout

/-! ## Sequences of items

In what follows, `item` is the action that reads one item, and `bound`
exceeds the number of tokens left. -/

/-- The nodes of the items in front of the first token that stops them,
which is left in place. -/
def items (construct : Construct) (stops : TokenKind → Bool)
    (item : ParserM (Option Node)) : (bound : Nat) → ParserM (List Node)
  | 0 => throw .exhausted
  | bound + 1 => do
    let token ← current construct
    if stops token.kind then return []
    else if token.kind = .endOfInput then fail (.unexpectedEnd construct)
    else
      let node ← item
      let nodes ← items construct stops item bound
      return node.toList ++ nodes

/-- The nodes of the lines of a block of this width, from inside its
first line on. -/
def lines (width : Nat) (line : ParserM (List Node)) : (bound : Nat) → ParserM (List Node)
  | 0 => throw .exhausted
  | bound + 1 => do
    let nodes ← line
    let parser ← get
    match continuation? width parser.rest with
    | none => return nodes
    | some rest =>
      moveTo rest
      let more ← lines width line bound
      return nodes ++ more

/-- The nodes of all items that are left. -/
def statements (item : ParserM (Option Node)) : (bound : Nat) → ParserM (List Node)
  | 0 => throw .exhausted
  | bound + 1 => do
    let parser ← get
    if parser.rest.isEmpty then return []
    else
      let node ← item
      let nodes ← statements item bound
      return node.toList ++ nodes

section Constructs

variable (item : ParserM (Option Node)) (bound : Nat)

/-- The nodes up to the end of the line, to a token of one of the kinds
`stops`, or to the bracket that closes the innermost open group. -/
def restOfLine (construct : Construct) (stops : List TokenKind) : ParserM (List Node) := do
  let parser ← get
  items construct
    (fun kind => kind.endsLine || stops.contains kind || parser.closes kind) item bound

/-- The body below a header line: the lines of the width of the first
one.  The header has ended, but for tabs. -/
def indentedBody (construct : Construct) : ParserM (List Node) := do
  let parser ← get
  let line := nextLine 0 parser.rest
  moveTo line.2
  inBlock (.indented line.1) (lines line.1 (restOfLine item bound construct []) bound)

/-! ## Constructs -/

/-- The body of a function: a block below if the header line ends at the
arrow, else the rest of the line. -/
def functionBody : ParserM (List Node) := do
  let parser ← get
  if startsWith .newline (afterTabs parser.rest) then indentedBody item bound .functionBody
  else inBlock .inline (restOfLine item bound .functionBody [])

/-- A function, from its arrow on.  It is a top-level one if no block is
open around it. -/
def function : ParserM Node := do
  let parser ← get
  advance
  let body ← functionBody item bound
  return .group (if parser.blocks.isEmpty then .topLevelFunction else .function) body

/-- A return with the rest of its line. -/
def returnExpression : ParserM Node := do
  advance
  let body ← restOfLine item bound .returnExpression []
  return .group .returnExpression body

/-- An assignment: the name, tabs, the sign and the rest of the line. -/
def assignment : ParserM Node := do
  let name ← current .assignment
  let parser ← get
  moveTo (afterTabs parser.rest.tail).tail
  let body ← restOfLine item bound .assignment []
  return .assignment name.text body

/-- The inside of a group up to its closing bracket, which is taken.
Line ends inside are nothing. -/
def groupBody (bracket : Bracket) : ParserM (List Node) := do
  let body ← items (.bracketed bracket) (· == .closing bracket) item bound
  advance
  return body

/-- A bracketed group, from its opening bracket on. -/
def bracketed (bracket : Bracket) : ParserM Node := do
  advance
  let body ← closedBy bracket (groupBody item bound bracket)
  return .group (.bracketed bracket) body

/-- An operator and the one item after it on its line. -/
def operator : ParserM Node := do
  let symbol ← current .operand
  let parser ← get
  moveTo (afterTrivia parser.rest.tail)
  let next ← current .operand
  if next.kind = .endOfInput then fail (.unexpectedEnd .operand)
  else if next.kind = .newline || parser.closes next.kind then
    fail (.missingOperand symbol.text)
  else
    match ← item with
    | some operand => return .operator symbol.text operand
    | none => fail (.missingOperand symbol.text)

/-- The body of an `if`: after `then` the rest of the line or what stands
before an `else`, else the block below. -/
def ifBody : ParserM (List Node) := do
  let parser ← get
  if startsWith .thenWord parser.rest then
    advance
    restOfLine item bound .ifBody [.elseWord]
  else indentedBody item bound .ifBody

/-- An `if`, from its keyword on. -/
def ifStatement : ParserM Node := do
  advance
  let condition ←
    items .ifCondition (fun kind => kind == .thenWord || kind == .newline) item bound
  let body ← ifBody item bound
  return .conditional condition body

/-- The body of an `else`: the block below if the line ends, else the
rest of the line. -/
def elseBody : ParserM (List Node) := do
  let next ← current .elseBody
  if next.kind = .newline then indentedBody item bound .elseBody
  else if next.kind = .endOfInput then fail (.unexpectedEnd .elseBody)
  else restOfLine item bound .elseBody []

/-- An `else`, from its keyword on. -/
def elseStatement : ParserM Node := do
  let parser ← get
  moveTo (afterTabs parser.rest.tail)
  let body ← elseBody item bound
  return .group .elseStatement body

/-! ## Items -/

/-- A leaf: the next token, whatever follows it. -/
def leaf (kind : Leaf) (token : Token) : ParserM (Option Node) := do
  advance
  return some (.leaf kind token.text)

/-- Whether the tokens after an identifier make it the target of an
assignment. -/
def assigns (tokens : List Token) : Bool := startsWith .assign (afterTabs tokens)

/-- An identifier begins an assignment, applies as an operator, or stands
for itself. -/
def identifier (limit : Nat) (token : Token) : ParserM (Option Node) := do
  let parser ← get
  if assigns parser.rest.tail then some <$> nested limit .assignment (assignment item bound)
  else if prefixOperators.contains token.text then
    some <$> nested limit .operand (operator item)
  else leaf .ident token

/-- Reads one item, given the action that reads the items inside it. -/
def itemOf (limit : Nat) : ParserM (Option Node) := do
  let token ← current .statement
  match token.kind with
  | .arrow => some <$> nested limit .functionBody (function item bound)
  | .returnMark => some <$> nested limit .returnExpression (returnExpression item bound)
  | .opening bracket =>
    some <$> nested limit (.bracketed bracket) (bracketed item bound bracket)
  | .ifWord => some <$> nested limit .ifBody (ifStatement item bound)
  | .elseWord => some <$> nested limit .elseBody (elseStatement item bound)
  | .ident => identifier item bound limit token
  | .string => leaf .string token
  | .number => leaf .number token
  | .newline =>
    modify fun parser => { parser with rest := afterNewlines parser.rest }
    return none
  | _ =>
    advance
    return none

end Constructs

/-- Reads one item.  `depth` bounds the recursion and has to exceed the
number of constructs that may still be opened. -/
def item (limit bound : Nat) : (depth : Nat) → ParserM (Option Node)
  | 0 => throw .exhausted
  | depth + 1 => itemOf (item limit bound depth) bound limit

/-! ## Programs -/

/-- Reads all that is left of the tokens, with at most `limit` constructs
open at once.  The parser that comes back can be asked again. -/
def parseWithin (limit : Nat) (parser : Parser) : Except ParseError Program × Parser :=
  let bound := parser.rest.length + 1
  match statements (item limit bound (limit + 1)) bound parser with
  | .ok body after => (.ok ⟨body⟩, after)
  | .error (.invalid error) after => (.error error, after)
  -- The bounds suffice, so no run ends here.
  | .error .exhausted after => (.error (.unexpectedEnd .statement), after)

/-- Reads all that is left of the tokens. -/
def parse (parser : Parser) : Except ParseError Program × Parser :=
  parser.parseWithin maxNesting

end Parser

/-- The program of a token list. -/
def parse (tokens : List Token) : Except ParseError Program :=
  (Parser.ofTokens tokens).parse.1

end Flick
