import Flick.Diagnostic
import Flick.Layout

/-!
# The parser's state

A parser reads a token list from front to back and keeps four things: the
tokens that are left, the blocks that it is inside of, the number of
constructs that are open, and the bracket that closes the innermost open
group.

The state outlives a failure.  A parser that failed stands at the token
where the error was found, with the blocks of that place still open, and
can be asked to go on.  The number of open constructs and the expected
bracket are put back on the way out, by `nested` and `closedBy`.

The loops and the recursion of the parser are bounded.  A bound that is
used up is a failure of its own, so no answer about the tokens is made up
for it.
-/

namespace Flick

/-- A parser over a token list.  `blocks` has the innermost block first. -/
structure Parser where
  rest : List Token
  blocks : List Block
  nesting : Nat
  closer : Option Bracket
  deriving DecidableEq

/-- Why an action of the parser has no value. -/
inductive Failure where
  /-- The tokens do not parse. -/
  | invalid (error : ParseError)
  /-- A bound on a loop or on the recursion was used up. -/
  | exhausted
  deriving DecidableEq

/-- An action of the parser: it may move the parser, and it may fail,
which leaves the parser where it failed. -/
abbrev ParserM := EStateM Failure Parser

namespace Parser

/-- A fresh parser at the front of the tokens. -/
def ofTokens (tokens : List Token) : Parser where
  rest := tokens
  blocks := []
  nesting := 0
  closer := none

/-- Whether a token of this kind closes the innermost open group. -/
def closes (parser : Parser) (kind : TokenKind) : Bool :=
  match parser.closer with
  | some bracket => kind == .closing bracket
  | none => false

/-- Reports an error where the parser stands. -/
def fail {α : Type} (error : ParseError) : ParserM α := throw (.invalid error)

/-! ## Moving -/

/-- The next token.  Where there is none, the input ended inside the
construct. -/
def current (construct : Construct) : ParserM Token := do
  let parser ← get
  match parser.rest with
  | [] => fail (.unexpectedEnd construct)
  | token :: _ => return token

/-- Goes on at these tokens. -/
def moveTo (tokens : List Token) : ParserM Unit :=
  modify fun parser => { parser with rest := tokens }

/-- Passes the next token. -/
def advance : ParserM Unit :=
  modify fun parser => { parser with rest := parser.rest.tail }

/-! ## Entering and leaving -/

/-- Runs the action as one more open construct, unless as many as the
limit allows are open already. -/
def nested {α : Type} (limit : Nat) (construct : Construct) (action : ParserM α) :
    ParserM α := fun parser =>
  if limit ≤ parser.nesting then .error (.invalid (.nestingTooDeep construct)) parser
  else
    match action { parser with nesting := parser.nesting + 1 } with
    | .ok value parser => .ok value { parser with nesting := parser.nesting - 1 }
    | .error failure parser => .error failure { parser with nesting := parser.nesting - 1 }

/-- Runs the action as the inside of a group that this bracket closes. -/
def closedBy {α : Type} (bracket : Bracket) (action : ParserM α) : ParserM α :=
  fun parser =>
    match action { parser with closer := some bracket } with
    | .ok value after => .ok value { after with closer := parser.closer }
    | .error failure after => .error failure { after with closer := parser.closer }

/-- Runs the action as the inside of a block.  A failure leaves the block
open. -/
def inBlock {α : Type} (block : Block) (action : ParserM α) : ParserM α := do
  modify fun parser => { parser with blocks := block :: parser.blocks }
  let value ← action
  modify fun parser => { parser with blocks := parser.blocks.tail }
  return value

end Parser

end Flick
