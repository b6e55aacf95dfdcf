import Flick.Vocabulary

/-!
# Diagnostics

What can go wrong with a source text, and how it is told.  Lexing has one
way to fail, a literal that is never closed.  Parsing has three: the
tokens run out inside a construct, an operator has nothing to apply to,
or constructs are nested too deeply.

Each cause is data.  `CompileError.diagnostic` is the one place that
holds the words.
-/

namespace Flick

/-! ## Causes -/

/-- The delimited literals: a string between apostrophes, a comment
between double quotes. -/
inductive Literal where
  | string
  | comment
  deriving DecidableEq

namespace Literal

/-- The character that opens and closes the literal. -/
def delimiter : Literal → Char
  | .string => '\x27'
  | .comment => '\x22'

/-- The literal in running text. -/
def describe : Literal → String
  | .string => "string"
  | .comment => "comment"

end Literal

/-- A literal without its closing delimiter.  `offset` and `length` are
the span from the opening delimiter to the end of the source, in bytes of
UTF-8. -/
structure UnterminatedLiteral where
  literal : Literal
  offset : Nat
  length : Nat
  deriving DecidableEq

/-- The constructs that the parser can be inside of. -/
inductive Construct where
  | statement
  | functionBody
  | returnExpression
  | assignment
  | bracketed (bracket : Bracket)
  | operand
  | ifCondition
  | ifBody
  | elseBody
  deriving DecidableEq

namespace Construct

/-- All constructs. -/
def all : List Construct :=
  [.statement, .functionBody, .returnExpression, .assignment, .bracketed .square,
    .bracketed .round, .bracketed .curly, .operand, .ifCondition, .ifBody, .elseBody]

/-- The construct in running text. -/
def describe : Construct → String
  | .statement => "statement"
  | .functionBody => "function body"
  | .returnExpression => "return expression"
  | .assignment => "assignment"
  | .bracketed .square => "array `[...]`"
  | .bracketed .round => "paren block `(...)`"
  | .bracketed .curly => "array literal `\x7b...\x7d`"
  | .operand => "operator operand"
  | .ifCondition => "if condition"
  | .ifBody => "if body"
  | .elseBody => "else body"

end Construct

/-- The ways in which a token stream fails to parse. -/
inductive ParseError where
  /-- The tokens ended while the construct was open. -/
  | unexpectedEnd (construct : Construct)
  /-- An operator has no operand on its line. -/
  | missingOperand (operator : String)
  /-- The construct would exceed the nesting limit. -/
  | nestingTooDeep (construct : Construct)
  deriving DecidableEq

/-- The ways in which a source text fails to compile. -/
inductive CompileError where
  | lex (error : UnterminatedLiteral)
  | parse (error : ParseError)
  deriving DecidableEq

/-! ## Words -/

/-- A stretch of the source, in bytes, and a remark on it. -/
structure Label where
  text : String
  offset : Nat
  length : Nat
  deriving DecidableEq

/-- What is told of an error: the message, a code to search for, advice
if there is any, and the places in the source. -/
structure Diagnostic where
  message : String
  code : String
  help : Option String
  labels : List Label
  deriving DecidableEq

/-- The report of an open literal points at the text from its opening
delimiter on. -/
def UnterminatedLiteral.diagnostic (error : UnterminatedLiteral) : Diagnostic where
  message := "unterminated " ++ error.literal.describe ++ " literal"
  code := "flick::lex::unterminated_literal"
  help := some "add the closing delimiter before the end of the file"
  labels := [⟨"opened here", error.offset, error.length⟩]

/-- The report of a parse error names the construct or the operator.
Tokens carry no position, so it points nowhere. -/
def ParseError.diagnostic : ParseError → Diagnostic
  | .unexpectedEnd construct =>
    { message := "unexpected end of input inside " ++ construct.describe
      code := "flick::parse::unexpected_end"
      help := none
      labels := [] }
  | .missingOperand operator =>
    { message := "operator `" ++ operator ++ "` is missing its operand"
      code := "flick::parse::missing_operand"
      help := some "prefix operators apply to exactly one following value on the same line"
      labels := [] }
  | .nestingTooDeep construct =>
    { message := construct.describe ++ " nested too deeply"
      code := "flick::parse::nesting_too_deep"
      help := some "split the expression into smaller assignments"
      labels := [] }

/-- The report of an error of either phase. -/
def CompileError.diagnostic : CompileError → Diagnostic
  | .lex error => error.diagnostic
  | .parse error => error.diagnostic

end Flick
