import Flick.Vocabulary

/-!
# Tokens

A token is a kind and the text that it stands for.  Tokens carry no
position: the parser looks at the kind, and at the text of identifiers
and literals only.

Kinds are coarser than symbols and keywords.  The sigil `^` and the word
`return` are one kind, and a space is a `tab` token like a tab character.
`TokenKind.ofSymbol` and `TokenKind.ofKeyword` say which kind each
reserved spelling has.
-/

namespace Flick

/-- The kinds of tokens. -/
inductive TokenKind where
  | methodMark
  | colon
  | semicolon
  | comma
  | newline
  | pipe
  | cascade
  | returnMark
  | doubleEquals
  | assign
  | opening (bracket : Bracket)
  | closing (bracket : Bracket)
  | tab
  | arrow
  | ifWord
  | thenWord
  | elseWord
  | number
  | string
  | comment
  | ident
  | endOfInput
  deriving DecidableEq

namespace TokenKind

/-- All kinds. -/
def all : List TokenKind :=
  [.methodMark, .colon, .semicolon, .comma, .newline, .pipe, .cascade, .returnMark,
    .doubleEquals, .assign, .opening .round, .closing .round, .opening .square,
    .closing .square, .opening .curly, .closing .curly, .tab, .arrow, .ifWord,
    .thenWord, .elseWord, .number, .string, .comment, .ident, .endOfInput]

/-- The name of a kind in token listings. -/
def name : TokenKind → String
  | .methodMark => "MethodDec"
  | .colon => "Colon"
  | .semicolon => "Semicolon"
  | .comma => "Comma"
  | .newline => "Newline"
  | .pipe => "Pipe"
  | .cascade => "Cascade"
  | .returnMark => "Return"
  | .doubleEquals => "Eq"
  | .assign => "Assign"
  | .opening .round => "LParen"
  | .closing .round => "RParen"
  | .opening .square => "LBracket"
  | .closing .square => "RBracket"
  | .opening .curly => "LBrace"
  | .closing .curly => "RBrace"
  | .tab => "Tab"
  | .arrow => "Func"
  | .ifWord => "If"
  | .thenWord => "Then"
  | .elseWord => "Else"
  | .number => "Number"
  | .string => "String"
  | .comment => "Comment"
  | .ident => "Ident"
  | .endOfInput => "EndOfInput"

/-- The kind of a symbol's token. -/
def ofSymbol : Symbol → TokenKind
  | .methodMark => .methodMark
  | .arrow => .arrow
  | .colon => .colon
  | .semicolon => .semicolon
  | .comma => .comma
  | .pipe => .pipe
  | .cascade => .cascade
  | .caret => .returnMark
  | .doubleEquals => .doubleEquals
  | .equals => .assign
  | .opening bracket => .opening bracket
  | .closing bracket => .closing bracket
  | .newline => .newline
  | .tab => .tab

/-- The kind of a keyword's token. -/
def ofKeyword : Keyword → TokenKind
  | .returnWord => .returnMark
  | .ifWord => .ifWord
  | .thenWord => .thenWord
  | .elseWord => .elseWord

/-- Whether a token of this kind ends its line. -/
def endsLine : TokenKind → Bool
  | .newline | .endOfInput => true
  | _ => false

/-- Whether a token of this kind is layout or a remark, which no
construct reads. -/
def isTrivia : TokenKind → Bool
  | .tab | .comment => true
  | _ => false

end TokenKind

/-- A token: its kind and its text.  The text of a literal is what stands
between the delimiters. -/
structure Token where
  kind : TokenKind
  text : String
  deriving DecidableEq

namespace Token

/-- The token that ends every token stream of the lexer. -/
def endOfInput : Token := ⟨.endOfInput, ""⟩

/-- The token of a symbol, with the canonical spelling. -/
def ofSymbol (symbol : Symbol) : Token := ⟨.ofSymbol symbol, symbol.spelling⟩

/-- The token of a bare word: a keyword if the vocabulary reserves the
word, else an identifier. -/
def ofWord (vocabulary : Vocabulary) (word : String) : Token :=
  match vocabulary.keyword? word with
  | some keyword => ⟨.ofKeyword keyword, word⟩
  | none => ⟨.ident, word⟩

end Token

end Flick
