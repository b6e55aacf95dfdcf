import Flick.Proofs.Segments.Rows
import Mathlib.Data.List.Forall2

/-!
# Keywords only label words

The lexer asks the table of keywords once, when it has a whole word.  So
where tokens begin and end, and whether a literal is left open, is settled
by the symbols alone: the rules for segments do not mention the keywords
(`fits_keywords`), and a text is the same row of segments for every
table (`RowBefore.keywords`).

What the table does is to give a word its kind.  `Labels` says which one:
that of the first entry with this very spelling, or that of a name.
`lex_relabels` compares the tokens of two tables, segment by segment.
-/

namespace Flick

/-- The kind that a table of keywords gives to a word: the kind of the first
entry that is spelled so, or that of a name if there is none. -/
def Labels (keywords : Spellings Keyword) (word : String) (kind : TokenKind) : Prop :=
  (∃ front keyword back, keywords = front ++ (keyword, word) :: back ∧
    (∀ entry ∈ front, entry.2 ≠ word) ∧ kind = .ofKeyword keyword) ∨
  (∀ entry ∈ keywords, entry.2 ≠ word) ∧ kind = .ident

/-- Whether a segment makes a token. -/
def Segment.ownsToken : Segment → Bool
  | .skipped _ => false
  | _ => true

/-- The tokens of one segment under two tables of keywords.  The texts are
the same.  Each table labels a word, and other tokens are of one kind. -/
structure Relabelled (first second : Spellings Keyword) (segment : Segment)
    (token other : Token) : Prop where
  text : token.text = other.text
  word : ∀ text, segment = .word text → token.text = String.ofList text ∧
    Labels first token.text token.kind ∧ Labels second other.text other.kind
  kind : (∀ text, segment ≠ .word text) → token.kind = other.kind

theorem labels_ofWord (vocabulary : Vocabulary) (word : String) :
    Labels vocabulary.keywords word (Token.ofWord vocabulary word).kind := by
  rw [Token.ofWord, Vocabulary.keyword?, Spellings.find?]
  cases hfound : List.find? (fun entry => entry.2 == word) vocabulary.keywords with
  | none =>
    refine .inr ⟨fun entry hentry => ?_, rfl⟩
    simpa using List.find?_eq_none.mp hfound entry hentry
  | some entry =>
    obtain ⟨hword, front, back, hsplit, hfront⟩ := List.find?_eq_some_iff_append.mp hfound
    obtain ⟨keyword, spelling⟩ := entry
    obtain rfl : spelling = word := by simpa using hword
    refine .inl ⟨front, keyword, back, hsplit, fun entry hentry => ?_, rfl⟩
    simpa using hfront entry hentry

theorem text_ofWord (vocabulary : Vocabulary) (word : String) :
    (Token.ofWord vocabulary word).text = word := by
  rw [Token.ofWord]
  split <;> rfl

namespace Vocabulary

variable {symbols : Spellings Symbol} {first second : Spellings Keyword} {atStart : Bool}
  {after : List Char} {segments : List Segment}

/-! ## The same rows -/

theorem IsWord.keywords {text : List Char} (h : IsWord ⟨symbols, first⟩ text after) :
    IsWord ⟨symbols, second⟩ text after where
  no_blank := h.no_blank
  no_symbol := h.no_symbol
  nonempty := h.nonempty
  first := h.first
  ends := h.ends

/-- The rules for a segment look at the symbols only. -/
theorem fits_keywords {segment : Segment} (h : segment.Fits ⟨symbols, first⟩ atStart after) :
    segment.Fits ⟨symbols, second⟩ atStart after := by
  cases segment with
  | word text => exact IsWord.keywords h
  | symbol | space | number | literal | skipped => exact h

theorem RowBefore.keywords (h : RowBefore ⟨symbols, first⟩ after atStart segments) :
    RowBefore ⟨symbols, second⟩ after atStart segments := by
  induction segments generalizing atStart with
  | nil => trivial
  | cons segment segments ih => exact ⟨fits_keywords h.1, ih h.2⟩

theorem Opens.keywords {literal : Literal} {text : List Char}
    (h : Opens ⟨symbols, first⟩ literal text) : Opens ⟨symbols, second⟩ literal text := h

/-! ## The tokens of a row -/

/-- A segment that makes a token makes it under every table, and the tokens
differ by the labels of words. -/
theorem relabelled_of_ownsToken {segment : Segment} (h : segment.ownsToken = true) :
    ∃ token other, segment.token? ⟨symbols, first⟩ = some token ∧
      segment.token? ⟨symbols, second⟩ = some other ∧
      Relabelled first second segment token other := by
  cases segment with
  | skipped => cases h
  | word text =>
    refine ⟨_, _, rfl, rfl, ?_, ?_, fun hne => absurd rfl (hne text)⟩
    · rw [text_ofWord, text_ofWord]
    · intro word hword
      obtain rfl := Segment.word.inj hword
      rw [text_ofWord, text_ofWord]
      exact ⟨rfl, labels_ofWord ⟨symbols, first⟩ _, labels_ofWord ⟨symbols, second⟩ _⟩
  | symbol | space | number | literal =>
    exact ⟨_, _, rfl, rfl, rfl, nofun, fun _ => rfl⟩

/-- The tokens of a row under two tables correspond to each other. -/
theorem relabelled_tokens (symbols : Spellings Symbol) (first second : Spellings Keyword)
    (segments : List Segment) :
    (segments.filterMap (Segment.token? ⟨symbols, first⟩)).map Token.text =
        (segments.filterMap (Segment.token? ⟨symbols, second⟩)).map Token.text ∧
      List.Forall₂ (fun segment (pair : Token × Token) =>
          Relabelled first second segment pair.1 pair.2)
        (segments.filter Segment.ownsToken)
        ((segments.filterMap (Segment.token? ⟨symbols, first⟩)).zip
          (segments.filterMap (Segment.token? ⟨symbols, second⟩))) := by
  induction segments with
  | nil => exact ⟨rfl, .nil⟩
  | cons segment segments ih =>
    cases howns : segment.ownsToken with
    | false =>
      cases segment with
      | skipped c => exact ih
      | symbol | space | number | literal | word => cases howns
    | true =>
      obtain ⟨token, other, htoken, hother, hrelabelled⟩ :=
        @relabelled_of_ownsToken symbols first second segment howns
      rw [List.filterMap_cons_some htoken, List.filterMap_cons_some hother,
        List.filter_cons_of_pos howns, List.map_cons, List.map_cons, ih.1, hrelabelled.text,
        List.zip_cons_cons]
      exact ⟨rfl, .cons hrelabelled ih.2⟩

end Vocabulary

open Vocabulary

/-- Keywords only label words.  Under any two tables of keywords the lexer
fails with the same error, or it answers as many tokens with the same texts,
from the same segments of the source.  Tokens at the same place are of the
same kind unless they come from a word, and each table labels the words. -/
theorem lex_relabels {symbols : Spellings Symbol} (htab : ∃ symbol, (symbol, "\t") ∈ symbols)
    (first second : Spellings Keyword) (source : String) :
    (∃ error, Vocabulary.lex ⟨symbols, first⟩ source = .error error ∧
      Vocabulary.lex ⟨symbols, second⟩ source = .error error) ∨
    ∃ segments tokens others,
      segments.flatMap Segment.text = source.toList ∧
      Row ⟨symbols, first⟩ true segments ∧ Row ⟨symbols, second⟩ true segments ∧
      Vocabulary.lex ⟨symbols, first⟩ source = .ok (tokens ++ [.endOfInput]) ∧
      Vocabulary.lex ⟨symbols, second⟩ source = .ok (others ++ [.endOfInput]) ∧
      tokens.map Token.text = others.map Token.text ∧
      List.Forall₂ (fun segment (pair : Token × Token) =>
          Relabelled first second segment pair.1 pair.2)
        (segments.filter Segment.ownsToken) (tokens.zip others) := by
  have hfirst : ∃ symbol, (symbol, "\t") ∈ (Vocabulary.mk symbols first).symbols := htab
  have hsecond : ∃ symbol, (symbol, "\t") ∈ (Vocabulary.mk symbols second).symbols := htab
  obtain ⟨segments, tail, htext, hrow, htail⟩ := exists_rowBefore hfirst true source.toList
  have hother : RowBefore ⟨symbols, second⟩ tail true segments := hrow.keywords
  rcases htail with rfl | ⟨literal, hopens⟩
  · rw [List.append_nil] at htext
    rw [rowBefore_nil_iff] at hrow hother
    obtain ⟨htexts, hrelabelled⟩ := relabelled_tokens symbols first second segments
    refine .inr ⟨segments, _, _, htext, hrow, hother, ?_, ?_, htexts, hrelabelled⟩
    · exact (lex_eq_ok_iff hfirst).mpr ⟨segments, htext, hrow, rfl⟩
    · exact (lex_eq_ok_iff hsecond).mpr ⟨segments, htext, hother, rfl⟩
  · have hfails := tokensFrom_of_rowBefore hrow
    have hotherFails := tokensFrom_of_rowBefore hother
    rw [htext, tokensFrom_of_opens hopens] at hfails
    rw [htext, tokensFrom_of_opens hopens.keywords] at hotherFails
    refine .inl ⟨OpenLiteral.span ⟨literal, tail⟩ source.toList, ?_, ?_⟩
    · rw [Vocabulary.lex, hfails]
      rfl
    · rw [Vocabulary.lex, hotherFails]
      rfl

/-- Two tables that label the same words in different ways, one of them with
a spelling that occurs twice. -/
theorem lex_relabels_of_repeated :
    let symbols : Spellings Symbol := [(.equals, "="), (.tab, "\t")]
    let first : Spellings Keyword := [(.ifWord, "if"), (.elseWord, "=")]
    let second : Spellings Keyword := [(.returnWord, "x"), (.thenWord, "if"), (.elseWord, "if")]
    (∃ symbol, (symbol, "\t") ∈ symbols) ∧
      ∃ tokens others,
        Vocabulary.lex ⟨symbols, first⟩ "if=x" = .ok (tokens ++ [.endOfInput]) ∧
        Vocabulary.lex ⟨symbols, second⟩ "if=x" = .ok (others ++ [.endOfInput]) ∧
        tokens.map Token.text = others.map Token.text ∧
        others = [⟨.thenWord, "if"⟩, ⟨.assign, "="⟩, ⟨.returnMark, "x"⟩] := by
  intro symbols first second
  have htab : ∃ symbol, (symbol, "\t") ∈ symbols := ⟨.tab, by decide⟩
  have hsecond : Vocabulary.lex ⟨symbols, second⟩ "if=x" =
      .ok ([⟨.thenWord, "if"⟩, ⟨.assign, "="⟩, ⟨.returnMark, "x"⟩] ++ [.endOfInput]) := by
    decide +kernel
  obtain ⟨error, -, herror⟩ | ⟨_, tokens, others, -, -, -, htokens, hothers, htexts, -⟩ :=
    lex_relabels htab first second "if=x"
  · rw [hsecond] at herror
    cases herror
  · refine ⟨htab, tokens, others, htokens, hothers, htexts, ?_⟩
    rw [hsecond] at hothers
    exact (List.append_cancel_right (Except.ok.inj hothers)).symm

end Flick
