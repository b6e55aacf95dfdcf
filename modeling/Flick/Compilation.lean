import Flick.Parser.Grammar
import Flick.Token.Lexer

/-!
# Compiling a source text

Lexing runs to the end before parsing starts.  A compilation holds what
both made, and the first error stops it.
-/

namespace Flick

/-- What a source text compiles to: the tokens, comments included, and
the program. -/
structure Compilation where
  tokens : List Token
  program : Program
  deriving DecidableEq

/-- Lexes with the vocabulary and parses. -/
def Vocabulary.compile (vocabulary : Vocabulary) (source : String) :
    Except CompileError Compilation :=
  match vocabulary.lex source with
  | .error error => .error (.lex error)
  | .ok tokens =>
    match parse tokens with
    | .error error => .error (.parse error)
    | .ok program => .ok ⟨tokens, program⟩

/-- Compiles in the standard vocabulary. -/
def compile (source : String) : Except CompileError Compilation :=
  Vocabulary.standard.compile source

end Flick
