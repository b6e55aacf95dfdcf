import Flick.Proofs.Segments

/-!
# Rows of segments

A row of segments need not reach the end of the source.  `RowBefore` is a
row in front of some text, where each segment fits in front of what follows
it, and the lexer passes such a row as if it stood alone
(`tokensFrom_of_rowBefore`).

Every text is a row, and behind it is nothing or a literal that is never
closed (`exists_rowBefore`).  So what the lexer does with a text is settled
by its row, whether it answers tokens or fails, and two texts are compared
by comparing their rows.

How much of the text behind a segment matters to it?  The next character
can belong to it, and a word looks for its end.  `CanReplace` says that a
second text looks the same in these respects, and then every segment that
fits in front of the first one fits in front of the second
(`fits_of_canReplace`).
-/

namespace Flick

/-! ## Bytes -/

theorem byteLength_append (first second : List Char) :
    byteLength (first ++ second) = byteLength first + byteLength second := by
  induction first with
  | nil => simp [byteLength]
  | cons c first ih => rw [List.cons_append, byteLength, byteLength, ih, Nat.add_assoc]

theorem byteLength_le_of_suffix {first second : List Char} (h : first <:+ second) :
    byteLength first ≤ byteLength second := by
  obtain ⟨front, rfl⟩ := h
  rw [byteLength_append]
  exact Nat.le_add_left _ _

theorem byteLength_toList (text : String) : byteLength text.toList = text.utf8ByteSize := by
  have hlist (chars : List Char) : byteLength chars = (String.ofList chars).utf8ByteSize := by
    induction chars with
    | nil => rfl
    | cons c rest ih =>
      rw [byteLength, ih, String.ofList_cons, String.utf8ByteSize_append,
        String.utf8ByteSize_singleton]
  rw [hlist, String.ofList_toList]

namespace Vocabulary

variable {vocabulary : Vocabulary} {atStart : Bool} {after first second : List Char}
  {segments : List Segment}

/-! ## Rows in front of a text -/

/-- The segments stand in a row in front of `after`, and each one fits in
front of what follows it. -/
def RowBefore (vocabulary : Vocabulary) (after : List Char) (atStart : Bool) :
    List Segment → Prop
  | [] => True
  | segment :: segments =>
    segment.Fits vocabulary atStart (segments.flatMap Segment.text ++ after) ∧
      vocabulary.RowBefore after false segments

/-- A row of a whole text is one in front of nothing. -/
theorem rowBefore_nil_iff : vocabulary.RowBefore [] atStart segments ↔
    vocabulary.Row atStart segments := by
  induction segments generalizing atStart with
  | nil => exact Iff.rfl
  | cons segment segments ih => rw [RowBefore, Row, ih, List.append_nil]

theorem rowBefore_append_iff {more : List Segment} :
    vocabulary.RowBefore after atStart (segments ++ more) ↔
      vocabulary.RowBefore (more.flatMap Segment.text ++ after) atStart segments ∧
        vocabulary.RowBefore after (atStart && segments.isEmpty) more := by
  induction segments generalizing atStart with
  | nil => simp [RowBefore]
  | cons segment segments ih =>
    simp only [List.cons_append, RowBefore, ih, List.flatMap_append, List.append_assoc,
      List.isEmpty_cons, Bool.and_false, Bool.false_and, and_assoc]

/-- The lexer passes a row and goes on behind it. -/
theorem tokensFrom_of_rowBefore (h : vocabulary.RowBefore after atStart segments) :
    vocabulary.tokensFrom atStart (segments.flatMap Segment.text ++ after) =
      (vocabulary.tokensFrom (atStart && segments.isEmpty) after).map
        (segments.filterMap (Segment.token? vocabulary) ++ ·) := by
  induction segments generalizing atStart with
  | nil =>
    rw [List.isEmpty_nil, Bool.and_true]
    cases htokens : vocabulary.tokensFrom atStart after <;> exact htokens
  | cons segment segments ih =>
    obtain ⟨hfits, hrow⟩ := h
    obtain ⟨c, text, htext⟩ := List.exists_cons_of_ne_nil (text_ne_nil_of_fits hfits)
    have happend : segment.text ++ (segments.flatMap Segment.text ++ after) =
        c :: (text ++ (segments.flatMap Segment.text ++ after)) := by
      rw [htext, List.cons_append]
    rw [List.flatMap_cons, List.append_assoc, happend,
      tokensFrom_of_scan (scan_of_fits happend hfits), ih hrow, List.isEmpty_cons, Bool.and_false,
      Bool.false_and, List.filterMap_cons]
    cases vocabulary.tokensFrom false after <;> cases segment.token? vocabulary <;> rfl

/-! ## Literals that are never closed -/

/-- A literal opens the text, and nothing in the text closes it. -/
def Opens (vocabulary : Vocabulary) (literal : Literal) (text : List Char) : Prop :=
  ¬vocabulary.Reserves text ∧
    ∃ rest, text = literal.delimiter :: rest ∧ literal.delimiter ∉ rest

theorem scanLiteral_eq_error_iff {kind literal : Literal} {rest : List Char} :
    scanLiteral kind rest = .error literal ↔ literal = kind ∧ kind.delimiter ∉ rest := by
  have hnil : rest.dropWhile (· != kind.delimiter) = [] ↔ kind.delimiter ∉ rest := by
    rw [List.dropWhile_eq_nil_iff]
    constructor
    · intro hall hmem
      simpa using hall _ hmem
    · intro hnot c hc
      simpa using fun heq : c = kind.delimiter => hnot (heq ▸ hc)
  rw [← hnil, scanLiteral]
  split
  next heq => simp [heq, eq_comm]
  next heq => simp [heq]

/-- A step fails exactly where a literal opens that is never closed. -/
theorem scan_eq_error_iff {c : Char} {rest : List Char} {literal : Literal} :
    vocabulary.scan atStart c rest = .error literal ↔ vocabulary.Opens literal (c :: rest) := by
  constructor
  · intro h
    have hreserves : ¬vocabulary.Reserves (c :: rest) := by
      rw [scan] at h
      split at h
      · cases h
      next hnone => exact leadingSymbol?_eq_none_iff.mp hnone
    rw [scan_of_not_reserves hreserves] at h
    split_ifs at h with hdigit hcomment hstring
    · obtain ⟨rfl, hopen⟩ := scanLiteral_eq_error_iff.mp h
      exact ⟨hreserves, rest, by rw [hcomment], hopen⟩
    · obtain ⟨rfl, hopen⟩ := scanLiteral_eq_error_iff.mp h
      exact ⟨hreserves, rest, by rw [hstring], hopen⟩
  · intro h
    obtain ⟨hreserves, _, heq, hopen⟩ := h
    obtain ⟨rfl, rfl⟩ := List.cons.inj heq
    have hscan := scanLiteral_eq_error_iff.mpr ⟨rfl, hopen⟩
    rw [scan_of_not_reserves hreserves]
    cases literal <;> exact hscan

theorem tokensFrom_of_opens {literal : Literal} (h : vocabulary.Opens literal after) :
    vocabulary.tokensFrom atStart after = .error ⟨literal, after⟩ := by
  obtain ⟨rest, rfl, -⟩ := h.2
  have hscan : vocabulary.scan atStart literal.delimiter rest = .error literal :=
    scan_eq_error_iff.mpr h
  rw [tokensFrom]
  split
  next herror => rw [Except.error.inj (hscan.symm.trans herror)]
  next hok => exact absurd (hscan.symm.trans hok) (by simp)

/-- Every text is a row of segments, and behind the row is nothing or a
literal that is never closed.  Each step leaves a shorter text, so the
induction is on the length. -/
theorem exists_rowBefore (htab : ∃ symbol, (symbol, "\t") ∈ vocabulary.symbols) (atStart : Bool)
    (chars : List Char) :
    ∃ segments tail, segments.flatMap Segment.text ++ tail = chars ∧
      vocabulary.RowBefore tail atStart segments ∧
      (tail = [] ∨ ∃ literal, vocabulary.Opens literal tail) := by
  induction hlength : chars.length using Nat.strongRecOn generalizing atStart chars with
  | ind length ih =>
    cases chars with
    | nil => exact ⟨[], [], rfl, trivial, .inl rfl⟩
    | cons c rest =>
      cases hscan : vocabulary.scan atStart c rest with
      | error literal =>
        exact ⟨[], c :: rest, rfl, trivial, .inr ⟨literal, scan_eq_error_iff.mp hscan⟩⟩
      | ok step =>
        obtain ⟨token, left⟩ := step
        have hlt : left.length < length := hlength ▸ scan_rest_lt hscan
        obtain ⟨segment, htext, hfits, -⟩ := exists_segment_of_scan htab hscan
        obtain ⟨segments, tail, rfl, hrow, htail⟩ := ih left.length hlt false left rfl
        exact ⟨segment :: segments, tail, by simpa using htext, ⟨hfits, hrow⟩, htail⟩

/-- An error is a literal that is never closed, behind a row. -/
theorem exists_rowBefore_of_error (htab : ∃ symbol, (symbol, "\t") ∈ vocabulary.symbols)
    {chars : List Char} {unclosed : OpenLiteral}
    (h : vocabulary.tokensFrom atStart chars = .error unclosed) :
    ∃ segments, segments.flatMap Segment.text ++ unclosed.tail = chars ∧
      vocabulary.RowBefore unclosed.tail atStart segments ∧
      vocabulary.Opens unclosed.literal unclosed.tail := by
  obtain ⟨segments, tail, rfl, hrow, htail⟩ := vocabulary.exists_rowBefore htab atStart chars
  rw [tokensFrom_of_rowBefore hrow] at h
  rcases htail with rfl | ⟨literal, hopens⟩
  · rw [tokensFrom] at h
    cases h
  · rw [tokensFrom_of_opens hopens] at h
    obtain rfl := Except.error.inj h
    exact ⟨segments, rfl, hrow, hopens⟩

/-- The literal of an error is what the text ends with. -/
theorem tail_suffix_of_tokensFrom (htab : ∃ symbol, (symbol, "\t") ∈ vocabulary.symbols)
    {chars : List Char} {unclosed : OpenLiteral}
    (h : vocabulary.tokensFrom atStart chars = .error unclosed) : unclosed.tail <:+ chars := by
  obtain ⟨segments, htext, -⟩ := exists_rowBefore_of_error htab h
  exact ⟨_, htext⟩

theorem tokensFrom_of_lex {source : String} {tokens : List Token}
    (h : vocabulary.lex source = .ok tokens) :
    vocabulary.tokensFrom true source.toList = .ok tokens := by
  cases hfrom : vocabulary.tokensFrom true source.toList with
  | ok found =>
    rw [lex, hfrom] at h
    rw [Except.ok.inj h]
  | error unclosed =>
    rw [lex, hfrom] at h
    cases h

/-! ## Other texts behind a row -/

/-- No segment in front of the first text notices if the second one takes
its place: no segment can use the character that begins the second text and
did not begin the first, and words that end still do. -/
structure CanReplace (vocabulary : Vocabulary) (first second : List Char) : Prop where
  head : ∀ d, second.head? = some d → first.head? = some d ∨
    d.isDigit = false ∧ ∀ c, vocabulary.symbolPair? c d = none
  ends : vocabulary.WordEnds first → vocabulary.WordEnds second

theorem CanReplace.not_reserves (h : vocabulary.CanReplace first second) {back : List Char}
    (hback : back ≠ []) (hreserves : ¬vocabulary.Reserves (back ++ first)) :
    ¬vocabulary.Reserves (back ++ second) := by
  obtain ⟨c, back, rfl⟩ := List.exists_cons_of_ne_nil hback
  intro hother
  rcases hother with hsymbol | ⟨d, symbol, hhead, hpair⟩
  · exact hreserves (.inl hsymbol)
  cases back with
  | cons e back => exact hreserves (.inr ⟨d, symbol, hhead, hpair⟩)
  | nil =>
    rcases h.head d hhead with hfirst | ⟨-, hnone⟩
    · exact hreserves (.inr ⟨d, symbol, hfirst, hpair⟩)
    · rw [hnone c] at hpair
      cases hpair

/-- Where a word ends at a symbol, no more is seen than the symbol. -/
theorem WordEnds.cons {c : Char} (h : vocabulary.WordEnds (c :: first))
    (hpair : ∀ d symbol, first.head? = some d → vocabulary.symbolPair? c d = some symbol →
      second.head? = some d) : vocabulary.WordEnds (c :: second) := by
  rcases h with hnil | hblank | hsymbol | ⟨d, symbol, hhead, hsymbol⟩
  · cases hnil
  · exact .inr (.inl hblank)
  · exact .inr (.inr (.inl hsymbol))
  · exact .inr (.inr (.inr ⟨d, symbol, hpair d symbol hhead hsymbol, hsymbol⟩))

theorem CanReplace.unbroken (h : vocabulary.CanReplace first second) {text : List Char}
    (htext : vocabulary.Unbroken text first) : vocabulary.Unbroken text second where
  no_blank := htext.no_blank
  no_symbol back hsuffix hne := h.not_reserves hne (htext.no_symbol back hsuffix hne)

/-- A segment that fits in front of the first text fits in front of the
second. -/
theorem fits_of_canReplace (h : vocabulary.CanReplace first second) {segment : Segment}
    (hfits : segment.Fits vocabulary atStart first) :
    segment.Fits vocabulary atStart second := by
  cases segment with
  | symbol mark spelling =>
    rcases hfits with hpair | ⟨c, rfl, hsymbol, hnone⟩
    · exact .inl hpair
    · refine .inr ⟨c, rfl, hsymbol, fun d hd => ?_⟩
      exact (h.head d hd).elim (hnone d) fun hother => hother.2 c
  | space => exact ⟨hfits.1, h.not_reserves (List.cons_ne_nil ' ' []) hfits.2⟩
  | number digits =>
    obtain ⟨hne, hdigits, hafter, hreserves⟩ := hfits
    refine ⟨hne, hdigits, fun d hd => ?_, h.not_reserves hne hreserves⟩
    exact (h.head d hd).elim (hafter d) fun hother => by simp [hother.1]
  | literal kind text =>
    have hsplit (after : List Char) : kind.delimiter :: (text ++ kind.delimiter :: after) =
        (kind.delimiter :: (text ++ [kind.delimiter])) ++ after := by simp
    refine ⟨hfits.1, ?_⟩
    rw [hsplit]
    exact h.not_reserves (by simp) (hsplit first ▸ hfits.2)
  | word text =>
    exact { h.unbroken hfits.toUnbroken with
      nonempty := hfits.nonempty
      first := hfits.first
      ends := h.ends hfits.ends }
  | skipped c => exact ⟨hfits.1, h.not_reserves (List.cons_ne_nil c []) hfits.2⟩

/-- Nothing in front of a text notices that the text goes on, if there is
one. -/
theorem canReplace_append {text : List Char} (hne : text ≠ []) (more : List Char) :
    vocabulary.CanReplace text (text ++ more) := by
  obtain ⟨c, text, rfl⟩ := List.exists_cons_of_ne_nil hne
  rw [List.cons_append]
  refine ⟨fun other hother => .inl hother, fun hends => hends.cons ?_⟩
  intro other symbol hother _
  rw [List.head?_append, hother, Option.some_or]

/-- Nor that it ends in front of a character that ends no pair. -/
theorem canReplace_cut {d : Char} (hpair : ∀ c, vocabulary.symbolPair? c d = none)
    (text rest : List Char) : vocabulary.CanReplace (text ++ d :: rest) text := by
  cases text with
  | nil => exact ⟨nofun, fun _ => .inl rfl⟩
  | cons c text =>
    refine ⟨fun other hother => .inl hother, fun hends => WordEnds.cons hends ?_⟩
    intro other symbol hother hsymbol
    cases text with
    | nil =>
      obtain rfl : d = other := by simpa using hother
      simp [hpair c] at hsymbol
    | cons e text => exact hother

theorem RowBefore.replace (h : vocabulary.RowBefore first atStart segments)
    (hreplace : ∀ text, vocabulary.CanReplace (text ++ first) (text ++ second)) :
    vocabulary.RowBefore second atStart segments := by
  induction segments generalizing atStart with
  | nil => trivial
  | cons segment segments ih =>
    exact ⟨fits_of_canReplace (hreplace (segments.flatMap Segment.text)) h.1, ih h.2⟩

end Vocabulary

end Flick
