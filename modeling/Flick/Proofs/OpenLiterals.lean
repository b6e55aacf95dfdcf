import Flick.Proofs.Blanks

/-!
# Literals that are never closed

The one error of the lexer is a literal without its closing delimiter, and
its report is a span of the source, in bytes.  The span begins at the
delimiter that opens the literal and goes to the end of the source.  In
front of it the source lexes by itself, to the tokens that the lexer had
when it failed, and the delimiter put behind the source is all that is
missing.

Three texts are lexed here: the source, what is in front of the span, and
the source with its closing delimiter.  They have one row of segments in
common, and no segment of it notices what follows (`canReplace_cut`,
`canReplace_append`), because a delimiter is no half of a symbol.
-/

namespace Flick

open Vocabulary

variable {literal : Literal} {rest : List Char} {segments : List Segment} {source : String}
  {error : UnterminatedLiteral}

/-- A delimiter is no second half of a symbol. -/
theorem symbolPair?_delimiter (literal : Literal) (c : Char) :
    standard.symbolPair? c literal.delimiter = none :=
  symbolPair?_eq_none (by cases literal <;> decide) c

/-- The row in front of an error, the literal that opens behind it, and
the sizes of both. -/
theorem exists_rowBefore_of_lex (h : lex source = .error error) :
    ∃ segments rest,
      segments.flatMap Segment.text ++ error.literal.delimiter :: rest = source.toList ∧
      standard.RowBefore (error.literal.delimiter :: rest) true segments ∧
      error.literal.delimiter ∉ rest ∧
      error.offset = byteLength (segments.flatMap Segment.text) ∧
      error.length = byteLength (error.literal.delimiter :: rest) := by
  simp only [lex, Vocabulary.lex] at h
  split at h
  · cases h
  next unclosed hfrom =>
    obtain rfl := Except.error.inj h
    obtain ⟨segments, htext, hrow, -, rest, htail, hopen⟩ :=
      exists_rowBefore_of_error ⟨.tab, by decide⟩ hfrom
    rw [htail] at htext hrow
    refine ⟨segments, rest, htext, hrow, hopen, ?_, ?_⟩
    · rw [OpenLiteral.span, ← htext, htail, byteLength_append, Nat.add_sub_cancel]
    · rw [OpenLiteral.span, htail]

/-- The row lexes by itself. -/
theorem lex_row (h : standard.RowBefore (literal.delimiter :: rest) true segments) :
    lex (String.ofList (segments.flatMap Segment.text)) =
      .ok (segments.filterMap (Segment.token? .standard) ++ [.endOfInput]) := by
  have hrow : standard.RowBefore [] true segments :=
    h.replace fun text => by
      rw [List.append_nil]
      exact canReplace_cut (symbolPair?_delimiter literal) text rest
  rw [lex, lex_eq_ok_iff ⟨.tab, by decide⟩]
  exact ⟨segments, String.toList_ofList.symm, rowBefore_nil_iff.mp hrow, rfl⟩

/-- So does the row with the literal behind it, once that is closed. -/
theorem lex_row_literal (h : standard.RowBefore (literal.delimiter :: rest) true segments)
    (hopen : literal.delimiter ∉ rest)
    (hsource : source.toList =
      segments.flatMap Segment.text ++ literal.delimiter :: (rest ++ [literal.delimiter])) :
    lex source = .ok (segments.filterMap (Segment.token? .standard) ++
      [⟨.ofLiteral literal, String.ofList rest⟩, .endOfInput]) := by
  have hrow : standard.RowBefore (literal.delimiter :: (rest ++ [literal.delimiter])) true
      segments :=
    h.replace fun text => by
      have hne : text ++ literal.delimiter :: rest ≠ [] := by simp
      simpa using canReplace_append hne [literal.delimiter]
  have hliteral (atStart : Bool) : standard.RowBefore [] atStart [.literal literal rest] :=
    ⟨⟨hopen, not_reserves_delimiter literal _⟩, trivial⟩
  have hall : standard.RowBefore [] true (segments ++ [.literal literal rest]) := by
    rw [rowBefore_append_iff]
    exact ⟨by simpa [Segment.text] using hrow, hliteral _⟩
  rw [lex, lex_eq_ok_iff ⟨.tab, by decide⟩]
  refine ⟨segments ++ [.literal literal rest], ?_, rowBefore_nil_iff.mp hall, ?_⟩
  · simp [hsource, Segment.text]
  · simp [Segment.token?]

/-- The report of an open literal is exact.  It points at the delimiter
that opens the literal, of which there is no other one up to the end of the
source.  What is in front lexes, and with the delimiter behind it the
source lexes to the same tokens and the literal.  A source without
delimiters always lexes. -/
theorem lex_unterminated (source : String) :
    (∀ error, lex source = .error error →
      ∃ (front text : String) (tokens : List Token),
        source = front ++ String.singleton error.literal.delimiter ++ text ∧
        error.offset = front.utf8ByteSize ∧
        error.offset + error.length = source.utf8ByteSize ∧
        (String.Pos.Raw.mk error.offset).IsValid source ∧
        error.literal.delimiter ∉ text.toList ∧
        lex front = .ok (tokens ++ [.endOfInput]) ∧
        lex (source ++ String.singleton error.literal.delimiter) =
          .ok (tokens ++ [⟨.ofLiteral error.literal, text⟩, .endOfInput])) ∧
    ((∀ literal : Literal, literal.delimiter ∉ source.toList) →
      ∃ tokens, lex source = .ok tokens) := by
  constructor
  · intro error herror
    obtain ⟨segments, rest, htext, hrow, hopen, hoffset, hlength⟩ :=
      exists_rowBefore_of_lex herror
    have hsource : source = String.ofList (segments.flatMap Segment.text) ++
        String.singleton error.literal.delimiter ++ String.ofList rest := by
      rw [← String.toList_inj]
      simp [← htext]
    have hfront : error.offset =
        (String.ofList (segments.flatMap Segment.text)).utf8ByteSize := by
      rw [hoffset, ← byteLength_toList, String.toList_ofList]
    refine ⟨_, String.ofList rest, _, hsource, hfront, ?_, ?_, by simpa using hopen,
      lex_row hrow, lex_row_literal hrow hopen ?_⟩
    · rw [hoffset, hlength, ← byteLength_append, htext, byteLength_toList]
    · rw [String.Pos.Raw.isValid_iff_exists_append]
      exact ⟨_, _, hsource.trans (String.append_assoc ..), congrArg _ hfront⟩
    · simp [← htext]
  · intro hnone
    cases hlex : lex source with
    | ok tokens => exact ⟨tokens, rfl⟩
    | error error =>
      obtain ⟨segments, rest, htext, -⟩ := exists_rowBefore_of_lex hlex
      exact absurd (by simp [← htext]) (hnone error.literal)

/-- A quote inside of a word opens nothing, the one behind the blank does,
and a character of two bytes follows it. -/
theorem lex_unterminated_of_quote_in_word :
    lex "f'x 'é" = .error ⟨.string, 4, 3⟩ ∧
      (∃ (front text : String) (tokens : List Token),
        "f'x 'é" = front ++ "'" ++ text ∧ 4 = front.utf8ByteSize ∧
        Literal.string.delimiter ∉ text.toList ∧ lex front = .ok (tokens ++ [.endOfInput]) ∧
        lex ("f'x 'é" ++ "'") = .ok (tokens ++ [⟨.string, text⟩, .endOfInput])) ∧
      (∀ literal : Literal, literal.delimiter ∉ "f = x".toList) ∧
        ∃ tokens, lex "f = x" = .ok tokens := by
  have herror : lex "f'x 'é" = .error ⟨.string, 4, 3⟩ := by decide +kernel
  have hnone (literal : Literal) : literal.delimiter ∉ "f = x".toList := by
    cases literal <;> decide
  obtain ⟨front, text, tokens, hsource, hoffset, -, -, hopen, hfront, hclosed⟩ :=
    (lex_unterminated "f'x 'é").1 _ herror
  exact ⟨herror, ⟨front, text, tokens, hsource, hoffset, hopen, hfront, hclosed⟩, hnone,
    (lex_unterminated "f = x").2 hnone⟩

end Flick
