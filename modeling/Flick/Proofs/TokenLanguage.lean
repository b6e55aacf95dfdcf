import Flick.Proofs.Segments
import Mathlib.Data.List.Infix

/-!
# The token lists of the standard vocabulary

Which token lists come from a source text?  `Token.Regular` states what
each token of a source satisfies, kind by kind: canonical spellings,
digits, texts without their own delimiter, and words.  `exists_lex_iff`
says that these rules are all: a list of regular tokens with
`Token.endOfInput` at its end is what some source lexes to.

A carriage return makes no token, and it begins no symbol, ends a word and
ends a number.  So any two tokens can stand side by side in a source with
a carriage return between them, and none of them merges with the other.
`Token.Regular.exists_segment` writes one token in front of a carriage
return, and `exists_row_of_regular` writes a list.
-/

namespace Flick

/-- The characters that no word of the standard vocabulary holds. -/
def separators : List Char :=
  [' ', '\t', '\r', '\n', ':', ';', ',', '|', '^', '=', '(', ')', '[', ']', '\x7b', '\x7d']

/-- The texts of bare words in the standard vocabulary. -/
structure IsWordText (text : List Char) : Prop where
  nonempty : text ≠ []
  no_separator : ∀ c ∈ text, c ∉ separators
  no_arrow : ¬['-', '>'] <:+: text
  first : ∀ c, text.head? = some c →
    ¬c.isDigit ∧ c ≠ Literal.comment.delimiter ∧ c ≠ Literal.string.delimiter

instance (text : List Char) : Decidable (IsWordText text) :=
  decidable_of_iff
    (text ≠ [] ∧ text.all (fun c => !separators.contains c) = true ∧ ¬['-', '>'] <:+: text ∧
      text.head?.all (fun c =>
        !c.isDigit && c != Literal.comment.delimiter && c != Literal.string.delimiter) = true)
    ⟨fun h => ⟨h.1, by simpa using h.2.1, h.2.2.1,
        by simpa [Option.all_eq_true, and_assoc] using h.2.2.2⟩,
      fun h => ⟨h.nonempty, by simpa using h.no_separator, h.no_arrow,
        by simpa [Option.all_eq_true, and_assoc] using h.first⟩⟩

namespace Token

/-- The token is a word: an identifier or a keyword.  A return can also be
a symbol, and its text tells. -/
def IsWord (token : Token) : Prop :=
  token.kind = .ident ∨ token.kind = .ifWord ∨ token.kind = .thenWord ∨
    token.kind = .elseWord ∨ token.kind = .returnMark ∧ token.text = Keyword.returnWord.spelling

/-- What every token of a source satisfies. -/
structure Regular (token : Token) : Prop where
  symbol : ∀ symbol, token.kind = .ofSymbol symbol →
    token.text = symbol.spelling ∨
      token.kind = .returnMark ∧ token.text = Keyword.returnWord.spelling
  number : token.kind = .number →
    token.text.toList ≠ [] ∧ ∀ c ∈ token.text.toList, c.isDigit = true
  string : token.kind = .string → Literal.string.delimiter ∉ token.text.toList
  comment : token.kind = .comment → Literal.comment.delimiter ∉ token.text.toList
  word : token.IsWord → IsWordText token.text.toList
  keyword : token.IsWord → ∀ keyword, token.text = Keyword.spelling keyword →
    token.kind = .ofKeyword keyword
  ident : token.IsWord → (∀ keyword, token.text ≠ Keyword.spelling keyword) →
    token.kind = .ident

end Token

namespace Vocabulary

/-! ## The standard tables -/

/-- An entry that is found in a table of spellings has the spelling. -/
theorem spelling_of_find? {α : Type} {items : List α} {spelling : α → String} {text : String}
    {item : α}
    (h : Spellings.find? (items.map fun item => (item, spelling item)) text = some item) :
    spelling item = text := by
  obtain ⟨found, -, hentry⟩ := List.mem_map.mp (Spellings.mem_of_find? h)
  obtain ⟨rfl, rfl⟩ := Prod.mk.inj hentry
  rfl

/-- The standard table maps each canonical spelling to its symbol. -/
theorem symbol?_standard_eq_some_iff {spelling : String} {symbol : Symbol} :
    standard.symbol? spelling = some symbol ↔ symbol.spelling = spelling := by
  refine ⟨spelling_of_find?, fun h => ?_⟩
  subst h
  cases symbol with
  | opening bracket | closing bracket => cases bracket <;> decide
  | _ => decide

/-- The standard table maps each canonical spelling to its keyword. -/
theorem keyword?_standard_eq_some_iff {word : String} {keyword : Keyword} :
    standard.keyword? word = some keyword ↔ keyword.spelling = word := by
  refine ⟨spelling_of_find?, fun h => ?_⟩
  subst h
  cases keyword <;> decide

theorem symbolChar?_standard_eq_some_iff {c : Char} {symbol : Symbol} :
    standard.symbolChar? c = some symbol ↔ symbol.spelling.toList = [c] := by
  rw [symbolChar?, symbol?_standard_eq_some_iff, ← String.toList_inj, String.toList_singleton]

theorem symbolPair?_standard_eq_some_iff {c d : Char} {symbol : Symbol} :
    standard.symbolPair? c d = some symbol ↔ symbol.spelling.toList = [c, d] := by
  rw [symbolPair?, symbol?_standard_eq_some_iff, ← String.toList_inj, String.toList_ofList]

/-- The separators but for the space and the carriage return are symbols
of one character. -/
theorem exists_symbolChar?_standard_iff {c : Char} :
    (∃ symbol, standard.symbolChar? c = some symbol) ↔ c ∈ separators ∧ c ≠ ' ' ∧ c ≠ '\r' := by
  constructor
  · intro h
    obtain ⟨symbol, hsymbol⟩ := h
    rw [symbolChar?_standard_eq_some_iff] at hsymbol
    cases symbol with
    | opening bracket | closing bracket =>
      cases bracket <;> obtain rfl := (List.cons.inj hsymbol).1 <;> decide
    | methodMark | arrow | cascade | doubleEquals => simp [Symbol.spelling] at hsymbol
    | _ =>
      obtain rfl := (List.cons.inj hsymbol).1
      decide
  · intro h
    have hall : separators.all (fun x =>
        x == ' ' || x == '\r' || (standard.symbolChar? x).isSome) = true := by decide
    have hc := List.all_eq_true.mp hall c h.1
    simp only [Bool.or_eq_true, beq_iff_eq, h.2.1, h.2.2, false_or] at hc
    exact Option.isSome_iff_exists.mp hc

/-- Every reserved pair but the arrow begins with a separator. -/
theorem separator_or_arrow_of_symbolPair? {c d : Char} {symbol : Symbol}
    (h : standard.symbolPair? c d = some symbol) :
    (c ∈ separators ∧ c ≠ ' ' ∧ c ≠ '\r') ∨ c = '-' ∧ d = '>' := by
  rw [symbolPair?_standard_eq_some_iff] at h
  cases symbol with
  | opening bracket | closing bracket => cases bracket <;> simp [Symbol.spelling] at h
  | arrow => exact Or.inr (by simpa [Symbol.spelling, eq_comm] using h)
  | methodMark | cascade | doubleEquals =>
    obtain rfl := (List.cons.inj h).1
    exact Or.inl (by decide)
  | _ => simp [Symbol.spelling] at h

/-- In the standard vocabulary a symbol begins at a separator, or at an
arrow. -/
theorem reserves_standard_iff {c : Char} {rest : List Char} :
    standard.Reserves (c :: rest) ↔
      (c ∈ separators ∧ c ≠ ' ' ∧ c ≠ '\r') ∨ c = '-' ∧ rest.head? = some '>' := by
  rw [Reserves, exists_symbolChar?_standard_iff]
  constructor
  · intro h
    rcases h with hc | ⟨d, symbol, hhead, hpair⟩
    · exact Or.inl hc
    · rcases separator_or_arrow_of_symbolPair? hpair with hc | ⟨hc, rfl⟩
      · exact Or.inl hc
      · exact Or.inr ⟨hc, hhead⟩
  · intro h
    rcases h with hc | ⟨rfl, hhead⟩
    · exact Or.inl hc
    · exact Or.inr ⟨'>', .arrow, hhead, by decide⟩

/-- A character that is neither a separator nor a dash begins no symbol. -/
theorem not_reserves_standard {c : Char} (hc : c ∉ separators) (hdash : c ≠ '-')
    (rest : List Char) : ¬standard.Reserves (c :: rest) := by
  rw [reserves_standard_iff]
  simp [hc, hdash]

/-- A carriage return begins no symbol. -/
theorem not_reserves_return (after : List Char) : ¬standard.Reserves ('\r' :: after) := by
  rw [reserves_standard_iff]
  simp

/-- A pair ends in one of three characters. -/
theorem symbolPair?_eq_none {d : Char} (hd : d ∉ [':', '>', '=']) (c : Char) :
    standard.symbolPair? c d = none := by
  rw [Option.eq_none_iff_forall_ne_some]
  intro symbol hpair
  rw [symbolPair?_standard_eq_some_iff] at hpair
  cases symbol with
  | opening bracket | closing bracket => cases bracket <;> simp [Symbol.spelling] at hpair
  | methodMark | arrow | cascade | doubleEquals =>
    simp only [Symbol.spelling, String.reduceToList, List.cons.injEq, and_true] at hpair
    obtain ⟨-, rfl⟩ := hpair
    simp at hd
  | _ => simp [Symbol.spelling] at hpair

/-- A pair never ends in a carriage return. -/
theorem symbolPair?_return (c : Char) : standard.symbolPair? c '\r' = none :=
  symbolPair?_eq_none (by decide) c

/-! ## Words -/

/-- The words of the standard vocabulary are the word texts. -/
theorem IsWord.isWordText {text after : List Char} (h : standard.IsWord text after) :
    IsWordText text where
  nonempty := h.nonempty
  first := h.first
  no_separator := by
    intro c hc hseparator
    obtain ⟨front, back, rfl⟩ := List.append_of_mem hc
    have hblank := h.no_blank c hc
    apply h.no_symbol (c :: back) (List.suffix_append front (c :: back)) (by simp)
    rw [List.cons_append, reserves_standard_iff]
    exact Or.inl ⟨hseparator, hblank.1, hblank.2.2⟩
  no_arrow := by
    intro hinfix
    obtain ⟨front, back, rfl⟩ := hinfix
    have hsuffix : '-' :: '>' :: back <:+ front ++ ['-', '>'] ++ back := ⟨front, by simp⟩
    apply h.no_symbol _ hsuffix (by simp)
    rw [List.cons_append, reserves_standard_iff]
    exact Or.inr ⟨rfl, rfl⟩

/-- A word text in front of a carriage return is a word. -/
theorem isWord_of_isWordText {text : List Char} (h : IsWordText text) (after : List Char) :
    standard.IsWord text ('\r' :: after) where
  nonempty := h.nonempty
  first := h.first
  ends := Or.inr (Or.inl ⟨'\r', rfl, by simp⟩)
  no_blank := by
    intro c hc
    have hseparator := h.no_separator c hc
    refine ⟨?_, ?_, ?_⟩ <;> intro heq <;> subst heq <;> exact hseparator (by decide)
  no_symbol := by
    intro back hsuffix hne hreserves
    obtain ⟨c, back, rfl⟩ := List.exists_cons_of_ne_nil hne
    rw [List.cons_append, reserves_standard_iff] at hreserves
    rcases hreserves with hc | ⟨rfl, hhead⟩
    · exact h.no_separator c (hsuffix.subset (by simp)) hc.1
    · cases back with
      | nil => simp at hhead
      | cons d back =>
        obtain rfl : d = '>' := by simpa using hhead
        obtain ⟨front, rfl⟩ := hsuffix
        exact h.no_arrow ⟨front, back, by simp⟩

/-! ## Symbols -/

/-- Canonical spellings have one or two characters. -/
theorem spelling_length (symbol : Symbol) :
    (∃ c, symbol.spelling.toList = [c]) ∨ ∃ c d, symbol.spelling.toList = [c, d] := by
  cases symbol with
  | opening bracket | closing bracket => cases bracket <;> exact Or.inl ⟨_, rfl⟩
  | methodMark | arrow | cascade | doubleEquals => exact Or.inr ⟨_, _, rfl⟩
  | _ => exact Or.inl ⟨_, rfl⟩

/-- The canonical spelling in front of a carriage return is read as its
symbol. -/
theorem spells_standard (symbol : Symbol) (after : List Char) :
    standard.Spells symbol symbol.spelling.toList ('\r' :: after) := by
  rcases spelling_length symbol with ⟨c, hspelling⟩ | ⟨c, d, hspelling⟩
  · refine Or.inr ⟨c, hspelling, symbolChar?_standard_eq_some_iff.mpr hspelling, ?_⟩
    intro d hd
    obtain rfl : '\r' = d := by simpa using hd
    exact symbolPair?_return c
  · exact Or.inl ⟨c, d, hspelling, symbolPair?_standard_eq_some_iff.mpr hspelling⟩

end Vocabulary

namespace Token

open Vocabulary

/-! ## Every token of a source is regular -/

theorem ofSymbol_injective {first second : Symbol}
    (h : TokenKind.ofSymbol first = TokenKind.ofSymbol second) : first = second := by
  cases first <;> cases second <;> simp_all [TokenKind.ofSymbol]

/-- A symbol's token is no word, although `^` has the kind of one. -/
theorem not_isWord_ofSymbol (symbol : Symbol) : ¬(Token.ofSymbol symbol).IsWord := by
  cases symbol <;>
    simp [Token.ofSymbol, TokenKind.ofSymbol, IsWord, Symbol.spelling, Keyword.spelling]

theorem regular_ofSymbol (symbol : Symbol) : (Token.ofSymbol symbol).Regular where
  symbol := by
    intro other hkind
    rw [← ofSymbol_injective hkind]
    exact Or.inl rfl
  number := by cases symbol <;> simp [Token.ofSymbol, TokenKind.ofSymbol]
  string := by cases symbol <;> simp [Token.ofSymbol, TokenKind.ofSymbol]
  comment := by cases symbol <;> simp [Token.ofSymbol, TokenKind.ofSymbol]
  word h := absurd h (not_isWord_ofSymbol symbol)
  keyword h := absurd h (not_isWord_ofSymbol symbol)
  ident h := absurd h (not_isWord_ofSymbol symbol)

theorem regular_number {digits : List Char} (hne : digits ≠ [])
    (hdigits : ∀ c ∈ digits, c.isDigit = true) :
    Regular ⟨.number, String.ofList digits⟩ where
  symbol := by intro symbol; cases symbol <;> simp [TokenKind.ofSymbol]
  number := by simpa using ⟨hne, hdigits⟩
  string := by simp
  comment := by simp
  word := by simp [IsWord]
  keyword := by simp [IsWord]
  ident := by simp [IsWord]

theorem regular_literal {kind : Literal} {text : List Char} (h : kind.delimiter ∉ text) :
    Regular ⟨.ofLiteral kind, String.ofList text⟩ where
  symbol := by
    intro symbol
    cases kind <;> cases symbol <;> simp [TokenKind.ofSymbol, TokenKind.ofLiteral]
  number := by cases kind <;> simp [TokenKind.ofLiteral]
  string := by cases kind <;> simp_all [TokenKind.ofLiteral]
  comment := by cases kind <;> simp_all [TokenKind.ofLiteral]
  word := by cases kind <;> simp [TokenKind.ofLiteral, IsWord]
  keyword := by cases kind <;> simp [TokenKind.ofLiteral, IsWord]
  ident := by cases kind <;> simp [TokenKind.ofLiteral, IsWord]

/-- The token of a word is a keyword exactly if the word is spelled so. -/
theorem ofWord_standard_cases (word : String) :
    (∃ keyword, word = Keyword.spelling keyword ∧
        Token.ofWord .standard word = ⟨.ofKeyword keyword, word⟩) ∨
      (∀ keyword, word ≠ Keyword.spelling keyword) ∧
        Token.ofWord .standard word = ⟨.ident, word⟩ := by
  rw [Token.ofWord]
  cases hkeyword : Vocabulary.standard.keyword? word with
  | some keyword =>
    exact Or.inl ⟨keyword, (keyword?_standard_eq_some_iff.mp hkeyword).symm, rfl⟩
  | none =>
    refine Or.inr ⟨?_, rfl⟩
    intro keyword heq
    rw [keyword?_standard_eq_some_iff.mpr heq.symm] at hkeyword
    exact absurd hkeyword (by simp)

theorem regular_ofWord {word : String} (h : IsWordText word.toList) :
    (Token.ofWord .standard word).Regular := by
  rcases ofWord_standard_cases word with ⟨keyword, rfl, hword⟩ | ⟨hne, hword⟩
  · rw [hword]
    exact
      { symbol := by
          intro symbol
          cases keyword <;> cases symbol <;> simp [TokenKind.ofSymbol, TokenKind.ofKeyword]
        number := by cases keyword <;> simp [TokenKind.ofKeyword]
        string := by cases keyword <;> simp [TokenKind.ofKeyword]
        comment := by cases keyword <;> simp [TokenKind.ofKeyword]
        word := fun _ => h
        keyword := by
          intro _ other hother
          cases keyword <;> cases other <;> simp_all [Keyword.spelling]
        ident := fun _ hnone => absurd rfl (hnone keyword) }
  · rw [hword]
    exact
      { symbol := by intro symbol; cases symbol <;> simp [TokenKind.ofSymbol]
        number := by simp
        string := by simp
        comment := by simp
        word := fun _ => h
        keyword := fun _ keyword heq => absurd heq (hne keyword)
        ident := fun _ _ => rfl }

/-- The token of a fitting segment is regular, and it is not the end. -/
theorem regular_of_fits {atStart : Bool} {segment : Segment} {after : List Char} {token : Token}
    (hfits : segment.Fits .standard atStart after)
    (htoken : segment.token? .standard = some token) :
    token.kind ≠ .endOfInput ∧ token.Regular := by
  cases segment with
  | symbol mark spelling =>
    obtain rfl := Option.some.inj htoken
    exact ⟨by cases mark <;> simp [Token.ofSymbol, TokenKind.ofSymbol], regular_ofSymbol mark⟩
  | space =>
    obtain rfl := Option.some.inj htoken
    exact ⟨by simp [Token.ofSymbol, TokenKind.ofSymbol], regular_ofSymbol .tab⟩
  | number digits =>
    obtain rfl := Option.some.inj htoken
    exact ⟨by simp, regular_number hfits.1 hfits.2.1⟩
  | literal kind text =>
    obtain rfl := Option.some.inj htoken
    exact ⟨by cases kind <;> simp [TokenKind.ofLiteral], regular_literal hfits.1⟩
  | word text =>
    obtain rfl := Option.some.inj htoken
    have htext := hfits.isWordText
    rw [← String.toList_ofList (l := text)] at htext
    refine ⟨?_, regular_ofWord htext⟩
    rcases ofWord_standard_cases (String.ofList text) with ⟨keyword, -, hword⟩ | ⟨-, hword⟩
    · rw [hword]
      cases keyword <;> simp [TokenKind.ofKeyword]
    · rw [hword]
      simp
  | skipped c => simp [Segment.token?] at htoken

/-! ## Every regular token can be written -/

theorem kind_cases {kind : TokenKind} (h : kind ≠ .endOfInput) :
    (∃ symbol, kind = .ofSymbol symbol) ∨ kind = .number ∨ (∃ literal, kind = .ofLiteral literal) ∨
      kind = .ident ∨ kind = .ifWord ∨ kind = .thenWord ∨ kind = .elseWord := by
  cases kind with
  | endOfInput => exact absurd rfl h
  | methodMark => exact Or.inl ⟨.methodMark, rfl⟩
  | colon => exact Or.inl ⟨.colon, rfl⟩
  | semicolon => exact Or.inl ⟨.semicolon, rfl⟩
  | comma => exact Or.inl ⟨.comma, rfl⟩
  | newline => exact Or.inl ⟨.newline, rfl⟩
  | pipe => exact Or.inl ⟨.pipe, rfl⟩
  | cascade => exact Or.inl ⟨.cascade, rfl⟩
  | returnMark => exact Or.inl ⟨.caret, rfl⟩
  | doubleEquals => exact Or.inl ⟨.doubleEquals, rfl⟩
  | assign => exact Or.inl ⟨.equals, rfl⟩
  | opening bracket => exact Or.inl ⟨.opening bracket, rfl⟩
  | closing bracket => exact Or.inl ⟨.closing bracket, rfl⟩
  | tab => exact Or.inl ⟨.tab, rfl⟩
  | arrow => exact Or.inl ⟨.arrow, rfl⟩
  | string => exact Or.inr (Or.inr (Or.inl ⟨.string, rfl⟩))
  | comment => exact Or.inr (Or.inr (Or.inl ⟨.comment, rfl⟩))
  | _ => simp

/-- A regular word is the token that the lexer makes of its text. -/
theorem Regular.ofWord_eq {token : Token} (h : token.Regular) (hword : token.IsWord) :
    Token.ofWord .standard token.text = token := by
  rcases ofWord_standard_cases token.text with ⟨keyword, htext, hof⟩ | ⟨hne, hof⟩
  · rw [hof, ← h.keyword hword keyword htext]
  · rw [hof, ← h.ident hword hne]

/-- A regular word in front of a carriage return is one segment. -/
theorem Regular.exists_segment_of_isWord {token : Token} (h : token.Regular)
    (hword : token.IsWord) (atStart : Bool) :
    ∃ segment : Segment, segment.token? .standard = some token ∧
      ∀ after, segment.Fits .standard atStart ('\r' :: after) := by
  refine ⟨.word token.text.toList, ?_, isWord_of_isWordText (h.word hword)⟩
  rw [Segment.token?, String.ofList_toList, h.ofWord_eq hword]

/-- Every regular token in front of a carriage return is one segment. -/
theorem Regular.exists_segment {token : Token} (h : token.Regular)
    (hkind : token.kind ≠ .endOfInput) (atStart : Bool) :
    ∃ segment : Segment, segment.token? .standard = some token ∧
      ∀ after, segment.Fits .standard atStart ('\r' :: after) := by
  rcases kind_cases hkind with ⟨symbol, hk⟩ | hk | ⟨literal, hk⟩ | hk
  · rcases h.symbol symbol hk with htext | hreturn
    · refine ⟨.symbol symbol symbol.spelling.toList, ?_, spells_standard symbol⟩
      rw [Segment.token?, Token.ofSymbol, ← hk, ← htext]
    · exact h.exists_segment_of_isWord (by simp [IsWord, hreturn]) atStart
  · obtain ⟨hne, hdigits⟩ := h.number hk
    refine ⟨.number token.text.toList, ?_, fun after => ⟨hne, hdigits, by simp, ?_⟩⟩
    · rw [Segment.token?, String.ofList_toList, ← hk]
    · obtain ⟨d, digits, hcons⟩ := List.exists_cons_of_ne_nil hne
      have hd : d.isDigit = true := hdigits d (by simp [hcons])
      have hother : ('-' :: separators).all (fun c => !c.isDigit) = true := by decide
      rw [List.all_eq_true] at hother
      rw [hcons, List.cons_append]
      apply not_reserves_standard
      · intro hseparator
        have hno := hother d (List.mem_cons_of_mem _ hseparator)
        simp [hd] at hno
      · intro hdash
        have hno := hother d (by simp [hdash])
        simp [hd] at hno
  · refine ⟨.literal literal token.text.toList, ?_, fun after => ⟨?_, ?_⟩⟩
    · rw [Segment.token?, String.ofList_toList, ← hk]
    · cases literal with
      | string => exact h.string hk
      | comment => exact h.comment hk
    · exact not_reserves_standard (by cases literal <;> decide) (by cases literal <;> decide) _
  · apply h.exists_segment_of_isWord
    rcases hk with hk | hk | hk | hk <;> simp [IsWord, hk]

/-- Regular tokens, each followed by a carriage return, are a row. -/
theorem exists_row_of_regular {tokens : List Token}
    (h : ∀ token ∈ tokens, token.kind ≠ .endOfInput ∧ token.Regular) (atStart : Bool) :
    ∃ segments, Vocabulary.standard.Row atStart segments ∧
      segments.filterMap (Segment.token? .standard) = tokens := by
  induction tokens generalizing atStart with
  | nil => exact ⟨[], trivial, rfl⟩
  | cons token tokens ih =>
    obtain ⟨hkind, hregular⟩ := h token (by simp)
    obtain ⟨segment, htoken, hfits⟩ := hregular.exists_segment hkind atStart
    obtain ⟨segments, hrow, htokens⟩ := ih (fun other hother => h other (by simp [hother])) false
    refine ⟨segment :: .skipped '\r' :: segments, ⟨?_, ?_, hrow⟩, ?_⟩
    · exact hfits (segments.flatMap Segment.text)
    · exact ⟨Or.inl rfl, not_reserves_return _⟩
    · rw [List.filterMap_cons_some htoken, List.filterMap_cons_none rfl, htokens]

end Token

open Vocabulary in
/-- The token lists of the standard vocabulary are the lists of regular
tokens that end in `Token.endOfInput`, which stands nowhere else. -/
theorem exists_lex_iff (tokens : List Token) :
    (∃ source, lex source = .ok tokens) ↔
      ∃ front, tokens = front ++ [.endOfInput] ∧
        ∀ token ∈ front, token.kind ≠ .endOfInput ∧ token.Regular := by
  have htab : ∃ symbol, (symbol, "\t") ∈ Vocabulary.standard.symbols := ⟨.tab, by decide⟩
  constructor
  · intro h
    obtain ⟨source, hlex⟩ := h
    obtain ⟨segments, -, hrow, rfl⟩ := (lex_eq_ok_iff htab).mp hlex
    refine ⟨_, rfl, ?_⟩
    intro token hmem
    obtain ⟨segment, hsegment, htoken⟩ := List.mem_filterMap.mp hmem
    obtain ⟨before, after, hsplit⟩ := List.append_of_mem hsegment
    exact Token.regular_of_fits (hrow.fits hsplit) htoken
  · intro h
    obtain ⟨front, rfl, hregular⟩ := h
    obtain ⟨segments, hrow, rfl⟩ := Token.exists_row_of_regular hregular true
    refine ⟨String.ofList (segments.flatMap Segment.text), (lex_eq_ok_iff htab).mpr ?_⟩
    exact ⟨segments, String.toList_ofList.symm, hrow, rfl⟩

end Flick
