import Flick.Datum.Outline
import Flick.Token

/-!
# Token listings

A listing has one line per token: the name of the kind and the quoted
text.
-/

namespace Flick

/-- A token on one line, without the line end. -/
def Token.describe (token : Token) : String :=
  "Token \x7b kind: " ++ token.kind.name ++ ", text: " ++
    Datum.outlineString token.text ++ " \x7d"

/-- The lines of all tokens. -/
def Token.listing (tokens : List Token) : String :=
  String.join (tokens.map fun token => token.describe ++ "\n")

end Flick
