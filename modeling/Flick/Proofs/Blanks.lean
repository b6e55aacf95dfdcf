import Flick.Compilation
import Flick.Proofs.LiteralTexts
import Flick.Proofs.Segments.Rows
import Flick.Proofs.TokenLanguage

/-!
# Blanks

Spaces, tabs, carriage returns and line ends are the *blanks* of the
standard vocabulary.  Outside of literals a blank is a segment of its own.
It is part of no pair, number or word, and a word ends in front of it.

So nothing that the lexer does reaches across a blank.  A text that lexes
by itself lexes the same in front of a line end (`lex_append_line`).  And it
does not matter which blanks a text has, as long as they make the same
tokens: `Reblanks` describes the ways to write blanks anew, and
`tokensFrom_flatMap` follows the lexer through both texts, row by row.

Two such ways are to write a tab for each space and to write a carriage
return in front of each line end.  Both change the texts of literals and
nothing else (`compile_spacesToTabs`, `compile_crlf`).
-/

namespace Flick

/-- The characters that lay out a text. -/
def blanks : List Char := [' ', '\t', '\r', '\n']

/-- The segment that a blank is. -/
def Segment.ofBlank (c : Char) : Segment :=
  if c = '\n' then .symbol .newline [c]
  else if c = '\t' then .symbol .tab [c]
  else if c = ' ' then .space
  else .skipped c

namespace Vocabulary

variable {c d : Char} {rest after text : List Char} {atStart : Bool}

/-! ## One blank -/

/-- No pair has a blank in it. -/
theorem not_blank_of_symbolPair? {symbol : Symbol} (h : standard.symbolPair? c d = some symbol) :
    c ∉ blanks ∧ d ∉ blanks := by
  rw [symbolPair?_standard_eq_some_iff] at h
  cases symbol with
  | methodMark | arrow | cascade | doubleEquals =>
    simp only [Symbol.spelling, String.reduceToList, List.cons.injEq, and_true] at h
    obtain ⟨rfl, rfl⟩ := h
    decide
  | opening bracket | closing bracket => cases bracket <;> simp [Symbol.spelling] at h
  | _ => simp [Symbol.spelling] at h

theorem symbolPair?_blank (h : c ∈ blanks ∨ d ∈ blanks) : standard.symbolPair? c d = none := by
  rw [Option.eq_none_iff_forall_ne_some]
  intro symbol hpair
  obtain ⟨hc, hd⟩ := not_blank_of_symbolPair? hpair
  exact h.elim hc hd

theorem isDigit_of_mem_blanks (hd : d ∈ blanks) : d.isDigit = false := by
  simp only [blanks, List.mem_cons, List.not_mem_nil, or_false] at hd
  rcases hd with rfl | rfl | rfl | rfl <;> rfl

/-- A word ends in front of a blank. -/
theorem wordEnds_blank (hd : d ∈ blanks) (rest : List Char) : standard.WordEnds (d :: rest) := by
  by_cases hline : d = '\n'
  · refine .inr (.inr (.inl ⟨.newline, ?_⟩))
    rw [hline]
    decide
  · refine .inr (.inl ⟨d, rfl, ?_⟩)
    simpa [blanks, hline] using hd

/-- Behind any segment, a blank can take the place of anything. -/
theorem canReplace_blank (hd : d ∈ blanks) (first rest : List Char) :
    standard.CanReplace first (d :: rest) where
  head other hother := by
    obtain rfl : d = other := by simpa using hother
    exact .inr ⟨isDigit_of_mem_blanks hd, fun c => symbolPair?_blank (.inr hd)⟩
  ends _ := wordEnds_blank hd rest

/-- A blank is a segment in front of anything. -/
theorem fits_ofBlank (hc : c ∈ blanks) (after : List Char) :
    (Segment.ofBlank c).Fits standard false after := by
  have hpair (d : Char) : standard.symbolPair? c d = none := symbolPair?_blank (.inl hc)
  have hreserves (hsymbol : standard.symbolChar? c = none) :
      ¬standard.Reserves (c :: after) := by
    simp [Reserves, hpair, hsymbol]
  simp only [blanks, List.mem_cons, List.not_mem_nil, or_false] at hc
  rcases hc with rfl | rfl | rfl | rfl
  · exact ⟨rfl, hreserves (by decide)⟩
  · exact .inr ⟨'\t', rfl, by decide, fun d _ => hpair d⟩
  · exact ⟨.inl rfl, hreserves (by decide)⟩
  · exact .inr ⟨'\n', rfl, by decide, fun d _ => hpair d⟩

theorem text_ofBlank (c : Char) : (Segment.ofBlank c).text = [c] := by
  rw [Segment.ofBlank]
  split_ifs with hnewline htab hspace
  · rfl
  · rfl
  · rw [hspace, Segment.text]
  · rfl

theorem flatMap_text_ofBlank (chars : List Char) :
    (chars.map Segment.ofBlank).flatMap Segment.text = chars := by
  simp [List.flatMap_map, text_ofBlank, List.flatMap_singleton']

/-- Blanks are a row in front of anything. -/
theorem rowBefore_blanks {chars : List Char} (h : ∀ c ∈ chars, c ∈ blanks) (after : List Char) :
    standard.RowBefore after false (chars.map Segment.ofBlank) := by
  induction chars with
  | nil => trivial
  | cons c chars ih =>
    obtain ⟨hc, hchars⟩ := List.forall_mem_cons.mp h
    exact ⟨fits_ofBlank hc _, ih hchars⟩

/-! ## Texts without blanks -/

theorem not_blank_delimiter (kind : Literal) : kind.delimiter ∉ blanks := by
  cases kind <;> decide

theorem not_reserves_delimiter (kind : Literal) (rest : List Char) :
    ¬standard.Reserves (kind.delimiter :: rest) :=
  not_reserves_standard (by cases kind <;> decide) (by cases kind <;> decide) rest

/-- A symbol is a blank or has none. -/
theorem blank_or_solid_of_spells {symbol : Symbol} {spelling : List Char}
    (h : standard.Spells symbol spelling after) :
    (∃ c ∈ blanks, Segment.symbol symbol spelling = .ofBlank c) ∨ ∀ c ∈ spelling, c ∉ blanks := by
  rcases h with ⟨c, d, rfl, hpair⟩ | ⟨c, rfl, hsymbol, -⟩
  · obtain ⟨hc, hd⟩ := not_blank_of_symbolPair? hpair
    exact .inr (by simp [hc, hd])
  by_cases hc : c ∈ blanks
  · left
    refine ⟨c, hc, ?_⟩
    obtain ⟨-, hspace, hreturn⟩ := exists_symbolChar?_standard_iff.mp ⟨symbol, hsymbol⟩
    simp only [blanks, List.mem_cons, List.not_mem_nil, or_false, hspace, hreturn, false_or] at hc
    rcases hc with rfl | rfl
    · obtain rfl : .tab = symbol := Option.some.inj hsymbol
      rfl
    · obtain rfl : .newline = symbol := Option.some.inj hsymbol
      rfl
  · exact .inr (by simpa using hc)

/-- A segment is a blank, or a literal, or it has no blank in it and its
token is not that of a literal. -/
theorem blank_or_literal_or_solid {segment : Segment}
    (hfits : segment.Fits standard false after) :
    (∃ c ∈ blanks, segment = .ofBlank c) ∨ (∃ kind text, segment = .literal kind text) ∨
      (∀ c ∈ segment.text, c ∉ blanks) ∧
        ∀ f, (segment.token? standard).map (.mapLiteral f) = segment.token? standard := by
  cases segment with
  | symbol mark spelling =>
    rcases blank_or_solid_of_spells hfits with hblank | hsolid
    · exact .inl hblank
    · exact .inr (.inr ⟨hsolid, fun f => by cases mark <;> rfl⟩)
  | space => exact .inl ⟨' ', by decide, rfl⟩
  | number digits =>
    refine .inr (.inr ⟨fun c hc hblank => ?_, fun f => rfl⟩)
    have hdigit := hfits.2.1 c hc
    simp [isDigit_of_mem_blanks hblank] at hdigit
  | literal kind text => exact .inr (.inl ⟨kind, text, rfl⟩)
  | word text =>
    refine .inr (.inr ⟨fun c hc hblank => ?_, fun f => ?_⟩)
    · have hsubset : blanks ⊆ separators := by simp [blanks, separators]
      exact hfits.isWordText.no_separator c hc (hsubset hblank)
    · rcases Token.ofWord_standard_cases (String.ofList text) with ⟨keyword, -, hword⟩ | ⟨-, hword⟩
      · rw [Segment.token?, hword]
        cases keyword <;> rfl
      · rw [Segment.token?, hword]
        rfl
  | skipped c =>
    rcases hfits.1 with rfl | ⟨-, hstart⟩
    · exact .inl ⟨'\r', by decide, rfl⟩
    · cases hstart

/-- The token of a blank is not that of a literal. -/
theorem mapLiteral_ofBlank (hc : c ∈ blanks) (f : String → String) :
    ((Segment.ofBlank c).token? standard).map (.mapLiteral f) =
      (Segment.ofBlank c).token? standard := by
  simp only [blanks, List.mem_cons, List.not_mem_nil, or_false] at hc
  rcases hc with rfl | rfl | rfl | rfl <;> rfl

/-! ## Behind a line end -/

/-- A text goes on at a blank without being noticed by what is in front. -/
theorem canReplace_append_blank (hd : d ∈ blanks) (text rest : List Char) :
    standard.CanReplace text (text ++ d :: rest) := by
  cases text with
  | nil => exact canReplace_blank hd [] rest
  | cons c text => exact canReplace_append (List.cons_ne_nil c text) (d :: rest)

/-- The start of the source matters to a space only. -/
theorem tokensFrom_atStart {vocabulary : Vocabulary} (hc : c ≠ ' ') (rest : List Char) :
    vocabulary.tokensFrom true (c :: rest) = vocabulary.tokensFrom false (c :: rest) := by
  have hscan : vocabulary.scan true c rest = vocabulary.scan false c rest := by simp [scan, hc]
  cases hstep : vocabulary.scan false c rest with
  | error literal =>
    rw [tokensFrom_of_opens (scan_eq_error_iff.mp hstep),
      tokensFrom_of_opens (scan_eq_error_iff.mp hstep)]
  | ok step => rw [tokensFrom_of_scan hstep, tokensFrom_of_scan (hscan.trans hstep)]

end Vocabulary

open Vocabulary

/-- A text that lexes by itself lexes the same in front of a line end, and
what follows lexes as it does by itself.  An error in what follows is as far
behind as the text is long. -/
theorem lex_append_line {source : String} {front : List Token}
    (h : lex source = .ok (front ++ [.endOfInput])) (more : String) :
    (∀ tokens, lex ("\n" ++ more) = .ok tokens →
      lex (source ++ "\n" ++ more) = .ok (front ++ tokens)) ∧
    ∀ error, lex ("\n" ++ more) = .error error →
      lex (source ++ "\n" ++ more) =
        .error { error with offset := error.offset + source.utf8ByteSize } := by
  have htab : ∃ symbol, (symbol, "\t") ∈ Vocabulary.standard.symbols := ⟨.tab, by decide⟩
  obtain ⟨segments, htext, hrow, htokens⟩ := (lex_eq_ok_iff htab).mp h
  obtain rfl := List.append_cancel_right htokens
  have hbefore : Vocabulary.standard.RowBefore ('\n' :: more.toList) true segments :=
    (rowBefore_nil_iff.mpr hrow).replace fun text => by
      simpa using canReplace_append_blank (by decide) text more.toList
  have hrest (atStart : Bool) : Vocabulary.standard.tokensFrom atStart ('\n' :: more.toList) =
      Vocabulary.standard.tokensFrom true ('\n' :: more.toList) := by
    cases atStart with
    | true => rfl
    | false => rw [tokensFrom_atStart (by decide)]
  have hlist : (source ++ "\n" ++ more).toList =
      segments.flatMap Segment.text ++ '\n' :: more.toList := by simp [htext]
  have hmore : ("\n" ++ more).toList = '\n' :: more.toList := by simp
  simp only [lex, Vocabulary.lex, hlist, hmore, tokensFrom_of_rowBefore hbefore, hrest]
  cases hfrom : Vocabulary.standard.tokensFrom true ('\n' :: more.toList) with
  | ok tokens => simp [Except.map]
  | error unclosed =>
    have hle := byteLength_le_of_suffix (tail_suffix_of_tokensFrom htab hfrom)
    constructor
    · intro tokens htokens
      cases htokens
    · intro error herror
      obtain rfl := Except.error.inj herror
      simp only [Except.map, OpenLiteral.span, byteLength_append, htext, byteLength_toList]
      rw [Nat.add_sub_assoc hle, Nat.add_comm]

/-- A literal that is not closed behind the line end, and one that is not
opened there: the first text has a space at its start and a character of two
bytes, and it ends in a symbol that could be half of a pair. -/
theorem lex_append_line_of_open_string :
    lex " é=" = .ok ([⟨.ident, "é"⟩, .ofSymbol .equals] ++ [.endOfInput]) ∧
      (lex ("\n" ++ " '=") = .error ⟨.string, 2, 2⟩ ∧
        lex (" é=" ++ "\n" ++ " '=") = .error ⟨.string, 6, 2⟩) ∧
      lex ("\n" ++ "=") = .ok [.ofSymbol .newline, .ofSymbol .equals, .endOfInput] ∧
        lex (" é=" ++ "\n" ++ "=") = .ok ([⟨.ident, "é"⟩, .ofSymbol .equals] ++
          [.ofSymbol .newline, .ofSymbol .equals, .endOfInput]) := by
  have hlex : lex " é=" = .ok ([⟨.ident, "é"⟩, .ofSymbol .equals] ++ [.endOfInput]) := by
    decide +kernel
  have herror : lex ("\n" ++ " '=") = .error ⟨.string, 2, 2⟩ := by decide +kernel
  have hok : lex ("\n" ++ "=") = .ok [.ofSymbol .newline, .ofSymbol .equals, .endOfInput] := by
    decide +kernel
  exact ⟨hlex, ⟨herror, (lex_append_line hlex " '=").2 _ herror⟩, hok,
    (lex_append_line hlex "=").1 _ hok⟩

/-! ## Other blanks -/

/-- The text with each character replaced. -/
def rewriteText (f : Char → List Char) (text : String) : String :=
  String.ofList (text.toList.flatMap f)

/-- Each blank is replaced by blanks, one or more, that make the same tokens,
and other characters stay. -/
structure Reblanks (f : Char → List Char) : Prop where
  other : ∀ c, c ∉ blanks → f c = [c]
  ne_nil : ∀ c ∈ blanks, f c ≠ []
  blank : ∀ c ∈ blanks, ∀ d ∈ f c, d ∈ blanks
  tokens : ∀ c ∈ blanks,
    ((f c).map Segment.ofBlank).filterMap (Segment.token? .standard) =
      ((Segment.ofBlank c).token? .standard).toList

namespace Reblanks

variable {f : Char → List Char} {text after : List Char}

theorem flatMap_eq_self (h : Reblanks f) (htext : ∀ c ∈ text, c ∉ blanks) :
    text.flatMap f = text := by
  induction text with
  | nil => rfl
  | cons c text ih =>
    obtain ⟨hc, htext⟩ := List.forall_mem_cons.mp htext
    rw [List.flatMap_cons, h.other c hc, ih htext, List.singleton_append]

/-- No other characters than blanks are added. -/
theorem mem_of_mem_flatMap (h : Reblanks f) {d : Char} (hd : d ∉ blanks)
    (hmem : d ∈ text.flatMap f) : d ∈ text := by
  obtain ⟨c, hc, hdc⟩ := List.mem_flatMap.mp hmem
  by_cases hblank : c ∈ blanks
  · exact absurd (h.blank c hblank d hdc) hd
  · rw [h.other c hblank, List.mem_singleton] at hdc
    exact hdc ▸ hc

/-- What is in front of a text does not notice that its blanks are others. -/
theorem canReplace (h : Reblanks f) (after : List Char) :
    Vocabulary.standard.CanReplace after (after.flatMap f) := by
  cases after with
  | nil => exact ⟨nofun, id⟩
  | cons c rest =>
    rw [List.flatMap_cons]
    by_cases hc : c ∈ blanks
    · obtain ⟨d, more, hfc⟩ := List.exists_cons_of_ne_nil (h.ne_nil c hc)
      rw [hfc, List.cons_append]
      exact canReplace_blank (h.blank c hc d (by simp [hfc])) (c :: rest) _
    · rw [h.other c hc, List.singleton_append]
      refine ⟨fun d hd => .inl hd, fun hends => hends.cons ?_⟩
      -- The second half of a pair is no blank, so it is still there.
      intro d symbol hd hpair
      obtain ⟨more, rfl⟩ : ∃ more, rest = d :: more := List.head?_eq_some_iff.mp hd
      rw [List.flatMap_cons, h.other d (not_blank_of_symbolPair? hpair).2, List.singleton_append,
        List.head?_cons]

/-- The changed text of a literal is closed where the literal was. -/
theorem delimiter_not_mem (h : Reblanks f) {kind : Literal} (htext : kind.delimiter ∉ text) :
    kind.delimiter ∉ text.flatMap f :=
  fun hmem => htext (h.mem_of_mem_flatMap (not_blank_delimiter kind) hmem)

/-- A literal that is never closed stays so. -/
theorem opens (h : Reblanks f) {literal : Literal}
    (hopens : Vocabulary.standard.Opens literal text) :
    Vocabulary.standard.Opens literal (text.flatMap f) := by
  obtain ⟨-, rest, rfl, hopen⟩ := hopens
  rw [List.flatMap_cons, h.other _ (not_blank_delimiter literal), List.singleton_append]
  exact ⟨not_reserves_delimiter literal _, _, rfl, h.delimiter_not_mem hopen⟩

/-- The segments that a segment becomes: the blanks that a blank is replaced
by, a literal with other text, or the segment itself. -/
theorem exists_pieces (h : Reblanks f) {segment : Segment}
    (hfits : segment.Fits .standard false after) :
    ∃ pieces : List Segment,
      pieces.flatMap Segment.text = segment.text.flatMap f ∧
      Vocabulary.standard.RowBefore (after.flatMap f) false pieces ∧
      pieces.filterMap (Segment.token? .standard) =
        (segment.token? .standard).toList.map (.mapLiteral (rewriteText f)) := by
  rcases blank_or_literal_or_solid hfits with ⟨c, hc, rfl⟩ | ⟨kind, text, rfl⟩ | ⟨hsolid, hplain⟩
  · refine ⟨(f c).map Segment.ofBlank, ?_, rowBefore_blanks (h.blank c hc) _, ?_⟩
    · rw [flatMap_text_ofBlank, text_ofBlank, List.flatMap_singleton]
    · rw [h.tokens c hc, ← Option.toList_map, mapLiteral_ofBlank hc]
  · refine ⟨[.literal kind (text.flatMap f)], ?_, ⟨⟨?_, ?_⟩, trivial⟩, ?_⟩
    · simp [Segment.text, h.other _ (not_blank_delimiter kind)]
    · exact h.delimiter_not_mem hfits.1
    · exact not_reserves_delimiter kind _
    · cases kind <;> simp [Segment.token?, Token.mapLiteral, TokenKind.ofLiteral, rewriteText]
  · refine ⟨[segment], ?_, ⟨fits_of_canReplace (h.canReplace after) hfits, trivial⟩, ?_⟩
    · rw [List.flatMap_singleton, h.flatMap_eq_self hsolid]
    · rw [← Option.toList_map, hplain, List.filterMap_cons, List.filterMap_nil]
      cases segment.token? .standard <;> rfl

/-- A row becomes a row. -/
theorem exists_row (h : Reblanks f) {tail : List Char} {segments : List Segment}
    (hrow : Vocabulary.standard.RowBefore tail false segments) :
    ∃ row : List Segment,
      row.flatMap Segment.text = (segments.flatMap Segment.text).flatMap f ∧
      Vocabulary.standard.RowBefore (tail.flatMap f) false row ∧
      row.filterMap (Segment.token? .standard) =
        (segments.filterMap (Segment.token? .standard)).map (.mapLiteral (rewriteText f)) := by
  induction segments with
  | nil => exact ⟨[], rfl, trivial, rfl⟩
  | cons segment segments ih =>
    obtain ⟨hfits, hrow⟩ := hrow
    obtain ⟨row, htext, hbefore, htokens⟩ := ih hrow
    obtain ⟨pieces, hpieces, hfirst, htoken⟩ := h.exists_pieces hfits
    rw [List.flatMap_append, ← htext] at hfirst
    refine ⟨pieces ++ row, ?_, rowBefore_append_iff.mpr ⟨hfirst, ?_⟩, ?_⟩
    · rw [List.flatMap_append, List.flatMap_cons, List.flatMap_append, hpieces, htext]
    · rwa [Bool.false_and]
    · rw [List.filterMap_append, htokens, htoken, List.filterMap_cons]
      cases segment.token? .standard <;> rfl

/-- The lexer takes a text with other blanks to the same tokens, but for the
texts of literals, or to the same open literal with other blanks. -/
theorem tokensFrom_flatMap (h : Reblanks f) (chars : List Char) :
    Vocabulary.standard.tokensFrom false (chars.flatMap f) =
      match Vocabulary.standard.tokensFrom false chars with
      | .ok tokens => .ok (tokens.map (.mapLiteral (rewriteText f)))
      | .error unclosed => .error ⟨unclosed.literal, unclosed.tail.flatMap f⟩ := by
  obtain ⟨segments, tail, rfl, hrow, htail⟩ :=
    Vocabulary.standard.exists_rowBefore ⟨.tab, by decide⟩ false chars
  obtain ⟨row, htext, hbefore, htokens⟩ := h.exists_row hrow
  rw [List.flatMap_append, ← htext, tokensFrom_of_rowBefore hbefore, tokensFrom_of_rowBefore hrow,
    Bool.false_and, Bool.false_and, htokens]
  rcases htail with rfl | ⟨literal, hopens⟩
  · simp [tokensFrom, Except.map, Token.mapLiteral, Token.endOfInput]
  · rw [tokensFrom_of_opens hopens, tokensFrom_of_opens (h.opens hopens)]
    rfl

end Reblanks

/-! ## Whole sources -/

/-- The text without a space at its start, which the lexer skips. -/
def afterFirstSpace : List Char → List Char
  | ' ' :: rest => rest
  | chars => chars

theorem afterFirstSpace_cons {c : Char} (hc : c ≠ ' ') (rest : List Char) :
    afterFirstSpace (c :: rest) = c :: rest := by
  rw [afterFirstSpace]
  simpa using hc

theorem tokensFrom_afterFirstSpace (chars : List Char) :
    Vocabulary.standard.tokensFrom true chars =
      Vocabulary.standard.tokensFrom false (afterFirstSpace chars) := by
  cases chars with
  | nil => simp [afterFirstSpace, tokensFrom]
  | cons c rest =>
    by_cases hc : c = ' '
    · subst hc
      have hfits : (Segment.skipped ' ').Fits .standard true rest :=
        ⟨.inr ⟨rfl, rfl⟩, (fits_ofBlank (by decide : ' ' ∈ blanks) rest).2⟩
      have hscan : Vocabulary.standard.scan true ' ' rest = .ok (none, rest) :=
        scan_of_fits rfl hfits
      rw [tokensFrom_of_scan hscan, afterFirstSpace]
      cases Vocabulary.standard.tokensFrom false rest <;> rfl
    · rw [tokensFrom_atStart hc, afterFirstSpace_cons hc]

section Sources

variable {f : Char → List Char} {source : String}

/-- A space at the start stays one, and no other one comes to stand there. -/
theorem afterFirstSpace_flatMap (chars : List Char)
    (hspace : chars.head? = some ' ' → f ' ' = [' '])
    (hother : ∀ c, c ≠ ' ' → ∃ d more, f c = d :: more ∧ d ≠ ' ') :
    afterFirstSpace (chars.flatMap f) = (afterFirstSpace chars).flatMap f := by
  cases chars with
  | nil => rfl
  | cons c rest =>
    rw [List.flatMap_cons]
    by_cases hc : c = ' '
    · subst hc
      rw [hspace rfl, List.singleton_append, afterFirstSpace, afterFirstSpace]
    · obtain ⟨d, more, hfc, hd⟩ := hother c hc
      rw [afterFirstSpace_cons hc, List.flatMap_cons, hfc, List.cons_append,
        afterFirstSpace_cons hd]

theorem lex_rewriteText_of_ok {tokens : List Token} (h : Reblanks f)
    (hstart : afterFirstSpace (source.toList.flatMap f) = (afterFirstSpace source.toList).flatMap f)
    (hlex : lex source = .ok tokens) :
    lex (rewriteText f source) = .ok (tokens.map (.mapLiteral (rewriteText f))) := by
  have hfrom : Vocabulary.standard.tokensFrom false (afterFirstSpace source.toList) =
      .ok tokens := by
    rw [← tokensFrom_afterFirstSpace]
    exact tokensFrom_of_lex hlex
  simp only [lex, Vocabulary.lex, rewriteText, String.toList_ofList, tokensFrom_afterFirstSpace,
    hstart, h.tokensFrom_flatMap, hfrom]

/-- The error is found behind the same text and in front of the same text,
but for the blanks. -/
theorem lex_rewriteText_of_error {error : UnterminatedLiteral} (h : Reblanks f)
    (hstart : afterFirstSpace (source.toList.flatMap f) = (afterFirstSpace source.toList).flatMap f)
    (hlex : lex source = .error error) :
    ∃ front back, front ++ back = source ∧
      error = ⟨error.literal, front.utf8ByteSize, back.utf8ByteSize⟩ ∧
      lex (rewriteText f source) = .error ⟨error.literal, (rewriteText f front).utf8ByteSize,
        (rewriteText f back).utf8ByteSize⟩ := by
  simp only [lex, Vocabulary.lex] at hlex
  split at hlex
  · cases hlex
  next unclosed hfrom =>
    obtain rfl := Except.error.inj hlex
    obtain ⟨front, hsplit⟩ := tail_suffix_of_tokensFrom ⟨.tab, by decide⟩ hfrom
    refine ⟨String.ofList front, String.ofList unclosed.tail, ?_, ?_, ?_⟩
    · rw [← String.ofList_append, hsplit, String.ofList_toList]
    · simp [OpenLiteral.span, ← hsplit, byteLength_append, ← byteLength_toList]
    · rw [tokensFrom_afterFirstSpace] at hfrom
      simp only [lex, Vocabulary.lex, rewriteText, String.toList_ofList, tokensFrom_afterFirstSpace,
        hstart, h.tokensFrom_flatMap, hfrom]
      simp [OpenLiteral.span, ← hsplit, byteLength_append, ← byteLength_toList]

/-- The compilation with the texts of its literals changed. -/
def Compilation.mapLiteral (f : String → String) (compilation : Compilation) : Compilation where
  tokens := compilation.tokens.map (.mapLiteral f)
  program := compilation.program.mapStrings f

theorem compile_of_lex {other : String} {tokens : List Token} {f : String → String}
    (hsource : lex source = .ok tokens) (hother : lex other = .ok (tokens.map (.mapLiteral f))) :
    compile other = (compile source).map (.mapLiteral f) := by
  rw [lex] at hsource hother
  simp only [compile, Vocabulary.compile, hsource, hother, parse_mapLiteral]
  cases parse tokens <;> rfl

end Sources

/-! ## One blank for another -/

/-- What stands for a character if `new` is written for `old`. -/
def replaceChar (old : Char) (new : List Char) (c : Char) : List Char :=
  if c = old then new else [c]

theorem reblanks_replaceChar {old : Char} {new : List Char} (hold : old ∈ blanks)
    (hne : new ≠ []) (hnew : ∀ d ∈ new, d ∈ blanks)
    (htokens : (new.map Segment.ofBlank).filterMap (Segment.token? .standard) =
      ((Segment.ofBlank old).token? .standard).toList) : Reblanks (replaceChar old new) where
  other c hc := by
    rw [replaceChar, if_neg]
    rintro rfl
    exact hc hold
  ne_nil c _ := by
    rw [replaceChar]
    split
    · exact hne
    · simp
  blank c hc := by
    rw [replaceChar]
    split
    · exact hnew
    · simpa using hc
  tokens c _ := by
    rw [replaceChar]
    split
    next heq => rw [heq, htokens]
    · rw [List.map_singleton, List.filterMap_cons, List.filterMap_nil]
      cases (Segment.ofBlank c).token? .standard <;> rfl

theorem utf8ByteSize_replaceChar (old : Char) (new : List Char) (text : String) :
    (rewriteText (replaceChar old new) text).utf8ByteSize + text.toList.count old * old.utf8Size =
      text.utf8ByteSize + text.toList.count old * byteLength new := by
  rw [rewriteText, ← byteLength_toList, ← byteLength_toList, String.toList_ofList]
  induction text.toList with
  | nil => simp [byteLength]
  | cons c rest ih =>
    rw [List.flatMap_cons, byteLength_append, byteLength, replaceChar]
    by_cases hc : c = old
    · subst hc
      rw [if_pos rfl, List.count_cons_self, Nat.succ_mul, Nat.succ_mul]
      omega
    · rw [if_neg hc, List.count_cons_of_ne hc, byteLength, byteLength]
      omega

/-- The text with a tab for each space. -/
def spacesToTabs : String → String := rewriteText (replaceChar ' ' ['\t'])

/-- Spaces and tabs are the same to a compilation, but for the texts of
literals and for a space that begins the source. -/
theorem compile_spacesToTabs {source : String} (h : source.toList.head? ≠ some ' ') :
    lex (spacesToTabs source) = (lex source).map (List.map (.mapLiteral spacesToTabs)) ∧
      compile (spacesToTabs source) = (compile source).map (.mapLiteral spacesToTabs) := by
  have hblanks : Reblanks (replaceChar ' ' ['\t']) :=
    reblanks_replaceChar (by decide) (by decide) (by simp [blanks]) (by decide)
  have hstart := @afterFirstSpace_flatMap (replaceChar ' ' ['\t']) source.toList
    (fun hhead => absurd hhead h) fun c hc => ⟨c, [], if_neg hc, hc⟩
  have hsize (text : String) : (spacesToTabs text).utf8ByteSize = text.utf8ByteSize :=
    Nat.add_right_cancel (utf8ByteSize_replaceChar ' ' ['\t'] text)
  cases hlex : lex source with
  | ok tokens =>
    have hmapped := lex_rewriteText_of_ok hblanks hstart hlex
    exact ⟨hmapped, compile_of_lex hlex hmapped⟩
  | error error =>
    obtain ⟨front, back, -, herror, hother⟩ := lex_rewriteText_of_error hblanks hstart hlex
    replace hother : lex (spacesToTabs source) = .error error := by
      rw [herror, ← hsize front, ← hsize back]
      exact hother
    refine ⟨hother, ?_⟩
    rw [lex] at hlex hother
    simp only [compile, Vocabulary.compile, hlex, hother]
    rfl

/-- Spaces that indent a block, separate words and stand in a string. -/
theorem compile_spacesToTabs_of_block :
    "f = ->\n  'a b'".toList.head? ≠ some ' ' ∧
      (compile "f = ->\n  'a b'").map Compilation.program =
        .ok ⟨[.assignment "f" [.group .topLevelFunction [.leaf .string "a b"]]]⟩ ∧
      compile "f\t=\t->\n\t\t'a\tb'" =
        (compile "f = ->\n  'a b'").map (.mapLiteral spacesToTabs) := by
  have hhead : "f = ->\n  'a b'".toList.head? ≠ some ' ' := by decide
  have htabs : spacesToTabs "f = ->\n  'a b'" = "f\t=\t->\n\t\t'a\tb'" := by decide
  exact ⟨hhead, by decide +kernel, htabs ▸ (compile_spacesToTabs hhead).2⟩

/-- The text with a carriage return in front of each line end. -/
def crlf : String → String := rewriteText (replaceChar '\n' ['\r', '\n'])

/-- A carriage return in front of each line end makes no difference to a
compilation, but for the texts of literals.  An open literal is found behind
as many more bytes as there are line ends in front of it. -/
theorem compile_crlf (source : String) :
    (∀ tokens, lex source = .ok tokens →
      lex (crlf source) = .ok (tokens.map (.mapLiteral crlf)) ∧
      compile (crlf source) = (compile source).map (.mapLiteral crlf)) ∧
    ∀ error, lex source = .error error →
      ∃ front back, front ++ back = source ∧ front.utf8ByteSize = error.offset ∧
        lex (crlf source) = .error ⟨error.literal, error.offset + front.toList.count '\n',
          error.length + back.toList.count '\n'⟩ := by
  have hblanks : Reblanks (replaceChar '\n' ['\r', '\n']) :=
    reblanks_replaceChar (by decide) (by decide) (by simp [blanks]) (by decide)
  have hstart := @afterFirstSpace_flatMap (replaceChar '\n' ['\r', '\n']) source.toList
    (fun _ => rfl) fun c hc => by
      by_cases hline : c = '\n'
      · exact ⟨'\r', ['\n'], if_pos hline, by decide⟩
      · exact ⟨c, [], if_neg hline, hc⟩
  have hsize (text : String) :
      (crlf text).utf8ByteSize = text.utf8ByteSize + text.toList.count '\n' := by
    have hreplace := utf8ByteSize_replaceChar '\n' ['\r', '\n'] text
    rw [show byteLength ['\r', '\n'] = 2 from rfl, show '\n'.utf8Size = 1 from rfl] at hreplace
    rw [crlf]
    omega
  constructor
  · intro tokens hlex
    have hmapped := lex_rewriteText_of_ok hblanks hstart hlex
    exact ⟨hmapped, compile_of_lex hlex hmapped⟩
  · intro error hlex
    obtain ⟨front, back, hsource, herror, hother⟩ := lex_rewriteText_of_error hblanks hstart hlex
    refine ⟨front, back, hsource, by rw [herror], ?_⟩
    rw [herror, ← hsize front, ← hsize back]
    exact hother

/-- A string over two lines, and one that is never closed and has a line end
in front of it and one behind. -/
theorem compile_crlf_of_strings :
    lex "x\n'a\nb'" = .ok [⟨.ident, "x"⟩, .ofSymbol .newline, ⟨.string, "a\nb"⟩, .endOfInput] ∧
      lex (crlf "x\n'a\nb'") =
        .ok [⟨.ident, "x"⟩, .ofSymbol .newline, ⟨.string, "a\r\nb"⟩, .endOfInput] ∧
      lex "é\n'b\n" = .error ⟨.string, 3, 3⟩ ∧
      ∃ front back, front ++ back = "é\n'b\n" ∧ front.utf8ByteSize = 3 ∧
        lex (crlf "é\n'b\n") = .error ⟨.string, 3 + front.toList.count '\n',
          3 + back.toList.count '\n'⟩ := by
  have hok : lex "x\n'a\nb'" =
      .ok [⟨.ident, "x"⟩, .ofSymbol .newline, ⟨.string, "a\nb"⟩, .endOfInput] := by
    decide +kernel
  have herror : lex "é\n'b\n" = .error ⟨.string, 3, 3⟩ := by decide +kernel
  exact ⟨hok, ((compile_crlf _).1 _ hok).1, herror, (compile_crlf _).2 _ herror⟩

end Flick
