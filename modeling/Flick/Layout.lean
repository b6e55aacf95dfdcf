import Flick.Token

/-!
# Layout

Block structure comes from indentation.  The width of a line is the
number of `tab` tokens that start it.  A multi-line body lasts as long as
its lines have the width of its first line, and a line of nothing but
tabs is blank and does not count.

This module measures lines of a token list.  `nextLine` finds the next
line that is not blank, and `continuation?` decides whether that line
belongs to a block of a given width.
-/

namespace Flick

/-- A body that the parser is inside of. -/
inductive Block where
  /-- The body of a function on the header's own line.  It has no width. -/
  | inline
  /-- A body of whole lines, all of this width. -/
  | indented (width : Nat)
  deriving DecidableEq

namespace Layout

/-- Whether the next token is of this kind. -/
def startsWith (kind : TokenKind) : List Token → Bool
  | [] => false
  | token :: _ => token.kind == kind

/-- The tokens from the first one on that is not a tab. -/
def afterTabs (tokens : List Token) : List Token :=
  tokens.dropWhile (·.kind == .tab)

/-- The tokens from the first one on that is not a line end. -/
def afterNewlines (tokens : List Token) : List Token :=
  tokens.dropWhile (·.kind == .newline)

/-- The tokens from the first one on that is neither a tab nor a comment. -/
def afterTrivia (tokens : List Token) : List Token :=
  tokens.dropWhile (·.kind.isTrivia)

/-- The width of the next line that is not blank, and its tokens from the
first one on that is not a tab.  `width` counts the tabs that were passed
on the current line. -/
def nextLine (width : Nat) : List Token → Nat × List Token
  | [] => (width, [])
  | token :: rest =>
    if token.kind = .tab then nextLine (width + 1) rest
    else if token.kind = .newline then nextLine 0 rest
    else (width, token :: rest)

/-- Whether the input ends here. -/
def atEnd : List Token → Bool
  | [] => true
  | token :: _ => token.kind == .endOfInput

/-- The next line of a block of this width, from its first token that is
not a tab.  There is none if the current line has not ended, if the next
line has another width, or if the input ends. -/
def continuation? (width : Nat) (tokens : List Token) : Option (List Token) :=
  if startsWith .newline tokens then
    let line := nextLine 0 tokens
    if line.1 = width && !atEnd line.2 then some line.2 else none
  else none

end Layout

end Flick
