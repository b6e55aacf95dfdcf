/-!
# Reserved spellings

A vocabulary holds two tables that the lexer consults: the reserved
symbols and the reserved words.  Both are ordered lists of spellings, and
a lookup answers the first entry that is spelled exactly as asked.

The tables are plain data, so a caller can hand the lexer a vocabulary of
its own.  `Vocabulary.standard` is the one of the language itself, and
`Symbol.spelling` and `Keyword.spelling` are the canonical spellings that
it lists.
-/

namespace Flick

/-! ## Symbols -/

/-- The three kinds of brackets. -/
inductive Bracket where
  | round
  | square
  | curly
  deriving DecidableEq

/-- Every reserved symbol of the language. -/
inductive Symbol where
  | methodMark
  | arrow
  | colon
  | semicolon
  | comma
  | pipe
  | cascade
  | caret
  | doubleEquals
  | equals
  | opening (bracket : Bracket)
  | closing (bracket : Bracket)
  | newline
  | tab
  deriving DecidableEq

/-- The broad grouping of a symbol. -/
inductive SymbolClass where
  | marker
  | separator
  | operator
  | delimiter
  | layout
  deriving DecidableEq

namespace Symbol

/-- All symbols, in the order of the standard table. -/
def all : List Symbol :=
  [.methodMark, .arrow, .colon, .semicolon, .comma, .pipe, .cascade, .caret,
    .doubleEquals, .equals, .opening .round, .closing .round,
    .opening .square, .closing .square, .opening .curly, .closing .curly,
    .newline, .tab]

/-- The canonical spelling.  A token of this symbol carries it whatever
the source wrote. -/
def spelling : Symbol → String
  | .methodMark => "::"
  | .arrow => "->"
  | .colon => ":"
  | .semicolon => ";"
  | .comma => ","
  | .pipe => "|"
  | .cascade => "|>"
  | .caret => "^"
  | .doubleEquals => "=="
  | .equals => "="
  | .opening .round => "("
  | .closing .round => ")"
  | .opening .square => "["
  | .closing .square => "]"
  | .opening .curly => "\x7b"
  | .closing .curly => "\x7d"
  | .newline => "\n"
  | .tab => "\t"

/-- The group that a symbol belongs to. -/
def group : Symbol → SymbolClass
  | .methodMark | .arrow => .marker
  | .colon | .semicolon | .comma => .separator
  | .pipe | .cascade | .caret | .doubleEquals | .equals => .operator
  | .opening _ | .closing _ => .delimiter
  | .newline | .tab => .layout

end Symbol

/-! ## Keywords -/

/-- Every reserved word of the language. -/
inductive Keyword where
  | returnWord
  | ifWord
  | thenWord
  | elseWord
  deriving DecidableEq

/-- The broad grouping of a keyword. -/
inductive KeywordClass where
  | control
  | conditional
  deriving DecidableEq

namespace Keyword

/-- All keywords, in the order of the standard table. -/
def all : List Keyword := [.returnWord, .ifWord, .thenWord, .elseWord]

/-- The canonical spelling. -/
def spelling : Keyword → String
  | .returnWord => "return"
  | .ifWord => "if"
  | .thenWord => "then"
  | .elseWord => "else"

/-- The group that a keyword belongs to. -/
def group : Keyword → KeywordClass
  | .returnWord => .control
  | .ifWord | .thenWord | .elseWord => .conditional

end Keyword

/-! ## Tables -/

/-- A table of spellings, in order of precedence. -/
abbrev Spellings (α : Type) := List (α × String)

/-- The entry that comes first among those spelled `spelling`. -/
def Spellings.find? {α : Type} (table : Spellings α) (spelling : String) : Option α :=
  (List.find? (fun entry => entry.2 == spelling) table).map Prod.fst

namespace Spellings

variable {α : Type} {table : Spellings α} {spelling : String} {value : α}

/-- A lookup answers an entry of the table. -/
theorem mem_of_find? (h : find? table spelling = some value) : (value, spelling) ∈ table := by
  obtain ⟨⟨found, other⟩, hfound, rfl⟩ := Option.map_eq_some_iff.mp h
  obtain rfl : other = spelling := by simpa using List.find?_some hfound
  exact List.mem_of_find?_eq_some hfound

/-- It answers some entry if one is spelled so. -/
theorem exists_find?_of_mem (h : (value, spelling) ∈ table) :
    ∃ found, find? table spelling = some found := by
  rw [← Option.isSome_iff_exists, find?, Option.isSome_map, List.find?_isSome]
  exact ⟨_, h, beq_self_eq_true _⟩

end Spellings

/-- The two tables of reserved spellings that the lexer consults. -/
structure Vocabulary where
  symbols : Spellings Symbol
  keywords : Spellings Keyword

namespace Vocabulary

/-- The vocabulary of the language. -/
def standard : Vocabulary where
  symbols := Symbol.all.map fun symbol => (symbol, symbol.spelling)
  keywords := Keyword.all.map fun keyword => (keyword, keyword.spelling)

/-- The symbol with this exact spelling. -/
def symbol? (vocabulary : Vocabulary) (spelling : String) : Option Symbol :=
  Spellings.find? vocabulary.symbols spelling

/-- The symbol spelled by this one character. -/
def symbolChar? (vocabulary : Vocabulary) (c : Char) : Option Symbol :=
  vocabulary.symbol? (String.singleton c)

/-- The symbol spelled by these two characters. -/
def symbolPair? (vocabulary : Vocabulary) (first second : Char) : Option Symbol :=
  vocabulary.symbol? (String.ofList [first, second])

/-- The keyword with this exact spelling. -/
def keyword? (vocabulary : Vocabulary) (word : String) : Option Keyword :=
  Spellings.find? vocabulary.keywords word

end Vocabulary

end Flick
