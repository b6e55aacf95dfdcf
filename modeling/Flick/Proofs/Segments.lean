import Flick.Token.Lexer
import Mathlib.Data.List.TakeWhile

/-!
# The segments of a source text

Lexing cuts the source into consecutive stretches.  A `Segment` is one of
them, named for the rule that takes it: the spelling of a symbol, a space
that indents, a run of digits, a literal with its delimiters, a bare word,
or a character that is skipped.

`Segment.Fits` states the rules without the lexer: what each segment is
made of, and what may stand after it.  Three facts tie them to the lexer.

* `exists_segment_of_scan`: what one step takes is a segment that fits in
  front of what it leaves.
* `scan_of_fits`: a step on a segment that fits takes this segment.
* `lex_eq_ok_iff`: the lexer answers some tokens exactly when the source is
  a row of fitting segments that own these tokens.

So the rules lose no character, and they leave no choice about the tokens.
`lex_segments` states this for a whole source, with each segment in its
place.
-/

namespace Flick

/-! ## Segments -/

/-- A stretch of the source that one rule of the lexer takes. -/
inductive Segment where
  /-- A reserved symbol as the source spells it. -/
  | symbol (mark : Symbol) (spelling : List Char)
  /-- A space that counts as a tab. -/
  | space
  | number (digits : List Char)
  /-- A literal.  `text` is what stands between the delimiters. -/
  | literal (kind : Literal) (text : List Char)
  | word (text : List Char)
  /-- A character that makes no token. -/
  | skipped (c : Char)

/-- The characters of a segment. -/
def Segment.text : Segment → List Char
  | .symbol _ spelling => spelling
  | .space => [' ']
  | .number digits => digits
  | .literal kind text => kind.delimiter :: (text ++ [kind.delimiter])
  | .word text => text
  | .skipped c => [c]

/-- The token that a segment owns. -/
def Segment.token? (vocabulary : Vocabulary) : Segment → Option Token
  | .symbol mark _ => some (.ofSymbol mark)
  | .space => some (.ofSymbol .tab)
  | .number digits => some ⟨.number, String.ofList digits⟩
  | .literal kind text => some ⟨.ofLiteral kind, String.ofList text⟩
  | .word text => some (.ofWord vocabulary (String.ofList text))
  | .skipped _ => none

namespace Vocabulary

/-- Some reserved symbol begins the text: its first character spells one,
or its first two do. -/
def Reserves (vocabulary : Vocabulary) : List Char → Prop
  | [] => False
  | c :: rest =>
    (∃ symbol, vocabulary.symbolChar? c = some symbol) ∨
      ∃ d symbol, rest.head? = some d ∧ vocabulary.symbolPair? c d = some symbol

/-- The characters spell the symbol in front of `after`.  One character
counts only if it makes no reserved pair with the next one. -/
def Spells (vocabulary : Vocabulary) (symbol : Symbol) (spelling after : List Char) : Prop :=
  (∃ c d, spelling = [c, d] ∧ vocabulary.symbolPair? c d = some symbol) ∨
    ∃ c, spelling = [c] ∧ vocabulary.symbolChar? c = some symbol ∧
      ∀ d, after.head? = some d → vocabulary.symbolPair? c d = none

/-- A bare word ends in front of this text: at a blank, at a reserved
symbol or at the end of the source. -/
def WordEnds (vocabulary : Vocabulary) (after : List Char) : Prop :=
  after = [] ∨ (∃ c, after.head? = some c ∧ (c = ' ' ∨ c = '\t' ∨ c = '\r')) ∨
    vocabulary.Reserves after

/-- Characters in front of `after` without a place where a word ends: none
of them is a blank, and no reserved symbol begins at one of them. -/
structure Unbroken (vocabulary : Vocabulary) (text after : List Char) : Prop where
  no_blank : ∀ c ∈ text, c ≠ ' ' ∧ c ≠ '\t' ∧ c ≠ '\r'
  no_symbol : ∀ back, back <:+ text → back ≠ [] → ¬vocabulary.Reserves (back ++ after)

/-- A bare word in front of `after`.  It does not begin as a number or a
literal does. -/
structure IsWord (vocabulary : Vocabulary) (text after : List Char) : Prop
    extends Unbroken vocabulary text after where
  nonempty : text ≠ []
  first : ∀ c, text.head? = some c →
    ¬c.isDigit ∧ c ≠ Literal.comment.delimiter ∧ c ≠ Literal.string.delimiter
  ends : vocabulary.WordEnds after

end Vocabulary

/-- The rules for a segment in front of `after`.  `atStart` tells that it
begins the source. -/
def Segment.Fits (vocabulary : Vocabulary) (atStart : Bool) (after : List Char) :
    Segment → Prop
  | .symbol mark spelling => vocabulary.Spells mark spelling after
  | .space => atStart = false ∧ ¬vocabulary.Reserves (' ' :: after)
  | .number digits =>
    digits ≠ [] ∧ (∀ c ∈ digits, c.isDigit) ∧ (∀ c, after.head? = some c → ¬c.isDigit) ∧
      ¬vocabulary.Reserves (digits ++ after)
  | .literal kind text =>
    kind.delimiter ∉ text ∧
      ¬vocabulary.Reserves (kind.delimiter :: (text ++ kind.delimiter :: after))
  | .word text => vocabulary.IsWord text after
  | .skipped c =>
    (c = '\r' ∨ c = ' ' ∧ atStart = true) ∧ ¬vocabulary.Reserves (c :: after)

namespace Vocabulary

variable {vocabulary : Vocabulary}

/-! ## Reserved symbols -/

/-- The lexer sees no symbol exactly where none begins. -/
theorem leadingSymbol?_eq_none_iff {chars : List Char} :
    vocabulary.leadingSymbol? chars = none ↔ ¬vocabulary.Reserves chars := by
  match chars with
  | [] => simp [leadingSymbol?, Reserves]
  | [c] => simp [leadingSymbol?, Reserves, Option.eq_none_iff_forall_ne_some]
  | c :: d :: rest =>
    rw [leadingSymbol?]
    cases hpair : vocabulary.symbolPair? c d with
    | some symbol => simp [Reserves, hpair]
    | none => simp [Reserves, hpair, Option.eq_none_iff_forall_ne_some]

/-- The symbol that the lexer sees is the one that the front of the text
spells, and it leaves the rest. -/
theorem leadingSymbol?_eq_some_iff {chars after : List Char} {symbol : Symbol} :
    vocabulary.leadingSymbol? chars = some (symbol, after) ↔
      ∃ spelling, spelling ++ after = chars ∧ vocabulary.Spells symbol spelling after := by
  constructor
  · intro h
    match chars, h with
    | [c], h =>
      simp only [leadingSymbol?, Option.map_eq_some_iff, Prod.mk.injEq] at h
      obtain ⟨_, hsymbol, rfl, rfl⟩ := h
      exact ⟨[c], rfl, Or.inr ⟨c, rfl, hsymbol, by simp⟩⟩
    | c :: d :: rest, h =>
      rw [leadingSymbol?] at h
      cases hpair : vocabulary.symbolPair? c d with
      | some found =>
        simp only [hpair, Option.some.injEq, Prod.mk.injEq] at h
        obtain ⟨rfl, rfl⟩ := h
        exact ⟨[c, d], rfl, Or.inl ⟨c, d, rfl, hpair⟩⟩
      | none =>
        simp only [hpair, Option.map_eq_some_iff, Prod.mk.injEq] at h
        obtain ⟨_, hsymbol, rfl, rfl⟩ := h
        refine ⟨[c], rfl, Or.inr ⟨c, rfl, hsymbol, ?_⟩⟩
        simpa using hpair
  · intro h
    obtain ⟨spelling, rfl, hspells⟩ := h
    rcases hspells with ⟨c, d, rfl, hpair⟩ | ⟨c, rfl, hsymbol, hpair⟩
    · simp [leadingSymbol?, hpair]
    · cases after with
      | nil => simp [leadingSymbol?, hsymbol]
      | cons d after => simp [leadingSymbol?, hsymbol, hpair d rfl]

/-! ## Words and literals -/

theorem endsWord_iff {c : Char} {rest : List Char} :
    vocabulary.endsWord c rest = true ↔ vocabulary.WordEnds (c :: rest) := by
  have hsymbol : (vocabulary.leadingSymbol? (c :: rest)).isSome = true ↔
      vocabulary.Reserves (c :: rest) := by
    rw [Option.isSome_iff_ne_none, Ne, leadingSymbol?_eq_none_iff, Classical.not_not]
  simp [endsWord, WordEnds, hsymbol, or_assoc]

theorem unbroken_nil (after : List Char) : vocabulary.Unbroken [] after where
  no_blank := by simp
  no_symbol back hback hne := absurd (List.suffix_nil.mp hback) hne

/-- One more character in front keeps a text unbroken unless a word ends
there. -/
theorem unbroken_cons_iff {c : Char} {text after : List Char} :
    vocabulary.Unbroken (c :: text) after ↔
      ¬vocabulary.WordEnds (c :: (text ++ after)) ∧ vocabulary.Unbroken text after := by
  constructor
  · intro h
    refine ⟨?_, ?_, ?_⟩
    · intro hends
      rcases hends with hnil | ⟨d, hhead, hblank⟩ | hsymbol
      · exact absurd hnil (by simp)
      · obtain rfl : c = d := by simpa using hhead
        have hc := h.no_blank c (by simp)
        simp [hc] at hblank
      · exact h.no_symbol (c :: text) (List.suffix_refl _) (by simp) hsymbol
    · exact fun d hd => h.no_blank d (List.mem_cons_of_mem c hd)
    · exact fun back hback => h.no_symbol back (hback.trans (List.suffix_cons c text))
  · intro h
    obtain ⟨hends, h⟩ := h
    refine ⟨?_, ?_⟩
    · intro d hd
      rcases List.mem_cons.mp hd with rfl | hd
      · have hblank (hd : d = ' ' ∨ d = '\t' ∨ d = '\r') : False :=
          hends (Or.inr (Or.inl ⟨d, rfl, hd⟩))
        exact ⟨fun hd => hblank (by simp [hd]), fun hd => hblank (by simp [hd]),
          fun hd => hblank (by simp [hd])⟩
      · exact h.no_blank d hd
    · intro back hback hne
      rcases List.suffix_cons_iff.mp hback with rfl | hback
      · exact fun hsymbol => hends (Or.inr (Or.inr hsymbol))
      · exact h.no_symbol back hback hne

/-- The lexer cuts a word where it ends for the first time. -/
theorem splitWord_eq_iff {chars text after : List Char} :
    vocabulary.splitWord chars = (text, after) ↔
      text ++ after = chars ∧ vocabulary.Unbroken text after ∧ vocabulary.WordEnds after := by
  induction chars generalizing text with
  | nil =>
    simp only [splitWord, Prod.mk.injEq, List.append_eq_nil_iff]
    constructor
    · intro h
      obtain ⟨rfl, rfl⟩ := h
      exact ⟨⟨rfl, rfl⟩, unbroken_nil [], Or.inl rfl⟩
    · intro h
      obtain ⟨⟨rfl, rfl⟩, -⟩ := h
      exact ⟨rfl, rfl⟩
  | cons c rest ih =>
    rw [splitWord]
    split
    next hends =>
      rw [endsWord_iff] at hends
      constructor
      · intro h
        obtain ⟨rfl, rfl⟩ := Prod.mk.inj h
        exact ⟨rfl, unbroken_nil _, hends⟩
      · intro h
        obtain ⟨happend, hunbroken, -⟩ := h
        cases text with
        | nil => rw [← happend, List.nil_append]
        | cons d text =>
          obtain ⟨rfl, rfl⟩ := List.cons.inj happend
          exact absurd hends (unbroken_cons_iff.mp hunbroken).1
    next hends =>
      rw [endsWord_iff] at hends
      constructor
      · intro h
        obtain ⟨rfl, rfl⟩ := Prod.mk.inj h
        obtain ⟨happend, hunbroken, hafter⟩ := ih.mp rfl
        refine ⟨by rw [List.cons_append, happend], unbroken_cons_iff.mpr ⟨?_, hunbroken⟩, hafter⟩
        rwa [happend]
      · intro h
        obtain ⟨happend, hunbroken, hafter⟩ := h
        cases text with
        | nil => exact absurd (happend ▸ hafter) hends
        | cons d text =>
          obtain ⟨rfl, hrest⟩ := List.cons.inj happend
          rw [ih.mpr ⟨hrest, (unbroken_cons_iff.mp hunbroken).2, hafter⟩]

/-- A literal ends at its next delimiter. -/
theorem scanLiteral_eq_ok_iff {kind : Literal} {rest after : List Char} {token : Option Token} :
    scanLiteral kind rest = .ok (token, after) ↔
      ∃ text, text ++ kind.delimiter :: after = rest ∧ kind.delimiter ∉ text ∧
        token = some ⟨.ofLiteral kind, String.ofList text⟩ := by
  constructor
  · intro h
    have happend := List.takeWhile_append_dropWhile (p := (· != kind.delimiter)) (l := rest)
    have hhead := List.head?_dropWhile_not (· != kind.delimiter) rest
    simp only [scanLiteral] at h
    split at h
    · exact absurd h (by simp)
    next c tail heq =>
      rw [heq] at happend hhead
      simp only [List.head?_cons, bne, Bool.not_eq_false', beq_iff_eq] at hhead
      obtain rfl : c = kind.delimiter := by simpa using hhead
      obtain ⟨rfl, rfl⟩ := Prod.mk.inj (Except.ok.inj h)
      refine ⟨_, happend, ?_, rfl⟩
      intro hmem
      simpa using List.mem_takeWhile_imp hmem
  · intro h
    obtain ⟨text, rfl, htext, rfl⟩ := h
    have hall : ∀ c ∈ text, (c != kind.delimiter) = true := by
      intro c hc
      simpa using fun h : c = kind.delimiter => htext (h ▸ hc)
    simp only [scanLiteral, List.dropWhile_append_of_pos hall, List.takeWhile_append_of_pos hall]
    simp

/-! ## One step -/

/-- The rules below symbols, for a text that no symbol begins. -/
theorem scan_of_not_reserves {atStart : Bool} {c : Char} {rest : List Char}
    (h : ¬vocabulary.Reserves (c :: rest)) :
    vocabulary.scan atStart c rest =
      if c.isDigit then
        .ok (some ⟨.number, String.ofList (c :: rest.takeWhile Char.isDigit)⟩,
          rest.dropWhile Char.isDigit)
      else if c = Literal.comment.delimiter then scanLiteral .comment rest
      else if c = Literal.string.delimiter then scanLiteral .string rest
      else if c = ' ' then .ok (if atStart then none else some (.ofSymbol .tab), rest)
      else if c = '\r' then .ok (none, rest)
      else
        .ok (some (.ofWord vocabulary (String.ofList (c :: (vocabulary.splitWord rest).1))),
          (vocabulary.splitWord rest).2) := by
  rw [scan, leadingSymbol?_eq_none_iff.mpr h]
  simp only [beq_iff_eq]

/-- A vocabulary that spells the tab reserves every tab character. -/
theorem reserves_tab (htab : ∃ symbol, (symbol, "\t") ∈ vocabulary.symbols) (rest : List Char) :
    vocabulary.Reserves ('\t' :: rest) := by
  obtain ⟨symbol, hmem⟩ := htab
  have hspelling : "\t" = String.singleton '\t' := by decide
  rw [hspelling] at hmem
  exact Or.inl (Spellings.exists_find?_of_mem hmem)

/-- What a step takes is a segment that fits in front of what it leaves. -/
theorem exists_segment_of_scan (htab : ∃ symbol, (symbol, "\t") ∈ vocabulary.symbols)
    {atStart : Bool} {c : Char} {rest after : List Char} {token : Option Token}
    (h : vocabulary.scan atStart c rest = .ok (token, after)) :
    ∃ segment : Segment, segment.text ++ after = c :: rest ∧
      segment.Fits vocabulary atStart after ∧ segment.token? vocabulary = token := by
  by_cases hreserves : vocabulary.Reserves (c :: rest)
  · cases hsymbol : vocabulary.leadingSymbol? (c :: rest) with
    | none => exact absurd hreserves (leadingSymbol?_eq_none_iff.mp hsymbol)
    | some found =>
      obtain ⟨mark, tail⟩ := found
      simp only [scan, hsymbol, Except.ok.injEq, Prod.mk.injEq] at h
      obtain ⟨rfl, rfl⟩ := h
      obtain ⟨spelling, happend, hspells⟩ := leadingSymbol?_eq_some_iff.mp hsymbol
      exact ⟨.symbol mark spelling, happend, hspells, rfl⟩
  rw [scan_of_not_reserves hreserves] at h
  split at h
  next hdigit =>
    obtain ⟨rfl, rfl⟩ := Prod.mk.inj (Except.ok.inj h)
    have happend := List.takeWhile_append_dropWhile (p := Char.isDigit) (l := rest)
    refine ⟨.number (c :: rest.takeWhile Char.isDigit), by simp [Segment.text],
      ⟨by simp, ?_, ?_, ?_⟩, rfl⟩
    · intro d hd
      rcases List.mem_cons.mp hd with rfl | hd
      · exact hdigit
      · exact List.mem_takeWhile_imp hd
    · intro d hd
      have hhead := List.head?_dropWhile_not Char.isDigit rest
      simpa [hd] using hhead
    · rwa [List.cons_append, happend]
  split at h
  next hcomment =>
    obtain ⟨text, rfl, htext, rfl⟩ := scanLiteral_eq_ok_iff.mp h
    exact ⟨.literal .comment text, by simp [Segment.text, hcomment],
      ⟨htext, hcomment ▸ hreserves⟩, rfl⟩
  split at h
  next hstring =>
    obtain ⟨text, rfl, htext, rfl⟩ := scanLiteral_eq_ok_iff.mp h
    exact ⟨.literal .string text, by simp [Segment.text, hstring],
      ⟨htext, hstring ▸ hreserves⟩, rfl⟩
  split at h
  next hspace =>
    obtain ⟨rfl, rfl⟩ := Prod.mk.inj (Except.ok.inj h)
    subst hspace
    cases atStart with
    | true => exact ⟨.skipped ' ', rfl, ⟨Or.inr ⟨rfl, rfl⟩, hreserves⟩, rfl⟩
    | false => exact ⟨.space, rfl, ⟨rfl, hreserves⟩, rfl⟩
  split at h
  next hreturn =>
    obtain ⟨rfl, rfl⟩ := Prod.mk.inj (Except.ok.inj h)
    subst hreturn
    exact ⟨.skipped '\r', rfl, ⟨Or.inl rfl, hreserves⟩, rfl⟩
  next hdigit hcomment hstring hspace hreturn =>
    obtain ⟨rfl, rfl⟩ := Prod.mk.inj (Except.ok.inj h)
    obtain ⟨happend, hunbroken, hends⟩ := splitWord_eq_iff.mp
      (show vocabulary.splitWord rest = (_, _) from rfl)
    have hnot : ¬vocabulary.WordEnds (c :: rest) := by
      intro hends
      rcases hends with hnil | ⟨d, hhead, hblank⟩ | hsymbol
      · exact absurd hnil (by simp)
      · obtain rfl : c = d := by simpa using hhead
        rcases hblank with rfl | rfl | rfl
        · exact hspace rfl
        · exact hreserves (reserves_tab htab rest)
        · exact hreturn rfl
      · exact hreserves hsymbol
    refine ⟨.word (c :: (vocabulary.splitWord rest).1), by simp [Segment.text, happend],
      ⟨unbroken_cons_iff.mpr ⟨by rwa [happend], hunbroken⟩, by simp, ?_, hends⟩, rfl⟩
    intro d hd
    obtain rfl : c = d := by simpa using hd
    exact ⟨hdigit, hcomment, hstring⟩

/-- A step on a segment that fits takes this segment. -/
theorem scan_of_fits {atStart : Bool} {segment : Segment} {c : Char} {rest after : List Char}
    (htext : segment.text ++ after = c :: rest) (hfits : segment.Fits vocabulary atStart after) :
    vocabulary.scan atStart c rest = .ok (segment.token? vocabulary, after) := by
  cases segment with
  | symbol mark spelling =>
    have hsymbol := leadingSymbol?_eq_some_iff.mpr ⟨spelling, htext, hfits⟩
    rw [scan, hsymbol, Segment.token?]
  | space =>
    simp only [Segment.text, List.cons_append, List.nil_append, List.cons.injEq] at htext
    obtain ⟨rfl, rfl⟩ := htext
    obtain ⟨rfl, hreserves⟩ := hfits
    rw [scan_of_not_reserves hreserves]
    rfl
  | number digits =>
    obtain ⟨hne, hdigits, hafter, hreserves⟩ := hfits
    obtain ⟨d, digits, rfl⟩ := List.exists_cons_of_ne_nil hne
    simp only [Segment.text, List.cons_append, List.cons.injEq] at htext
    obtain ⟨rfl, rfl⟩ := htext
    have hall : ∀ x ∈ digits, x.isDigit = true := fun x hx => hdigits x (by simp [hx])
    have hstop : after.takeWhile Char.isDigit = [] ∧ after.dropWhile Char.isDigit = after := by
      cases after with
      | nil => exact ⟨rfl, rfl⟩
      | cons x after => simp [hafter x rfl]
    rw [List.cons_append] at hreserves
    rw [scan_of_not_reserves hreserves, if_pos (hdigits d (by simp)),
      List.takeWhile_append_of_pos hall, List.dropWhile_append_of_pos hall, hstop.1, hstop.2,
      List.append_nil, Segment.token?]
  | literal kind text =>
    obtain ⟨hclosed, hreserves⟩ := hfits
    simp only [Segment.text, List.cons_append, List.append_assoc, List.nil_append,
      List.cons.injEq] at htext
    obtain ⟨rfl, rfl⟩ := htext
    have hscan : scanLiteral kind (text ++ kind.delimiter :: after) = .ok (_, after) :=
      scanLiteral_eq_ok_iff.mpr ⟨text, rfl, hclosed, rfl⟩
    rw [scan_of_not_reserves hreserves]
    cases kind <;> exact hscan
  | word text =>
    obtain ⟨d, text, rfl⟩ := List.exists_cons_of_ne_nil hfits.nonempty
    simp only [Segment.text, List.cons_append, List.cons.injEq] at htext
    obtain ⟨rfl, rfl⟩ := htext
    obtain ⟨hdigit, hcomment, hstring⟩ := hfits.first d rfl
    obtain ⟨hspace, -, hreturn⟩ := hfits.no_blank d (by simp)
    have hsplit := splitWord_eq_iff.mpr
      ⟨rfl, (unbroken_cons_iff.mp hfits.toUnbroken).2, hfits.ends⟩
    have hreserves := hfits.no_symbol _ (List.suffix_refl _) (by simp)
    rw [List.cons_append] at hreserves
    rw [scan_of_not_reserves hreserves, if_neg hdigit, if_neg hcomment, if_neg hstring,
      if_neg hspace, if_neg hreturn, hsplit, Segment.token?]
  | skipped d =>
    simp only [Segment.text, List.cons_append, List.nil_append, List.cons.injEq] at htext
    obtain ⟨rfl, rfl⟩ := htext
    obtain ⟨rfl | ⟨rfl, rfl⟩, hreserves⟩ := hfits
    · rw [scan_of_not_reserves hreserves]
      rfl
    · rw [scan_of_not_reserves hreserves]
      rfl

/-! ## All steps -/

/-- The segments stand in a row from the front of the text to its end, and
each one fits in front of the rest. -/
def Row (vocabulary : Vocabulary) (atStart : Bool) : List Segment → Prop
  | [] => True
  | segment :: segments =>
    segment.Fits vocabulary atStart (segments.flatMap Segment.text) ∧
      vocabulary.Row false segments

/-- A segment of a row fits in its place. -/
theorem Row.fits {atStart : Bool} {segments before after : List Segment} {segment : Segment}
    (h : vocabulary.Row atStart segments) (hsplit : segments = before ++ segment :: after) :
    segment.Fits vocabulary (atStart && before.isEmpty) (after.flatMap Segment.text) := by
  subst hsplit
  induction before generalizing atStart with
  | nil => simpa using h.1
  | cons first before ih => simpa using ih h.2

/-- Segments that all fit in their places are a row. -/
theorem row_of_fits {atStart : Bool} {segments : List Segment}
    (h : ∀ before segment after, segments = before ++ segment :: after →
      segment.Fits vocabulary (atStart && before.isEmpty) (after.flatMap Segment.text)) :
    vocabulary.Row atStart segments := by
  induction segments generalizing atStart with
  | nil => trivial
  | cons first segments ih =>
    refine ⟨by simpa using h [] first segments rfl, ih fun before segment after hsplit => ?_⟩
    simpa using h (first :: before) segment after (by rw [hsplit, List.cons_append])

theorem text_ne_nil_of_fits {atStart : Bool} {segment : Segment} {after : List Char}
    (h : segment.Fits vocabulary atStart after) : segment.text ≠ [] := by
  cases segment with
  | symbol mark spelling =>
    rcases h with ⟨c, d, rfl, -⟩ | ⟨c, rfl, -⟩ <;> simp [Segment.text]
  | number digits => exact h.1
  | word text => exact h.nonempty
  | space | literal | skipped => simp [Segment.text]

/-- No symbol begins where a segment of another kind does. -/
theorem not_reserves_of_fits {atStart : Bool} {segment : Segment} {after : List Char}
    (h : segment.Fits vocabulary atStart after)
    (hother : ∀ mark spelling, segment ≠ .symbol mark spelling) :
    ¬vocabulary.Reserves (segment.text ++ after) := by
  cases segment with
  | symbol mark spelling => exact absurd rfl (hother mark spelling)
  | space => exact h.2
  | number digits => exact h.2.2.2
  | literal kind text => simpa [Segment.text] using h.2
  | word text => exact h.no_symbol text (List.suffix_refl _) h.nonempty
  | skipped c => exact h.2

/-- One turn of the lexer. -/
theorem tokensFrom_of_scan {atStart : Bool} {c : Char} {rest after : List Char}
    {token : Option Token} (h : vocabulary.scan atStart c rest = .ok (token, after)) :
    vocabulary.tokensFrom atStart (c :: rest) =
      (vocabulary.tokensFrom false after).map (token.toList ++ ·) := by
  rw [tokensFrom]
  split
  next herror => exact absurd (h.symm.trans herror) (by simp)
  next hok =>
    obtain ⟨rfl, rfl⟩ := Prod.mk.inj (Except.ok.inj (h.symm.trans hok))
    cases vocabulary.tokensFrom false after <;> rfl

/-- A row of segments lexes to the tokens that they own. -/
theorem tokensFrom_of_row {atStart : Bool} {segments : List Segment}
    (h : vocabulary.Row atStart segments) :
    vocabulary.tokensFrom atStart (segments.flatMap Segment.text) =
      .ok (segments.filterMap (Segment.token? vocabulary) ++ [.endOfInput]) := by
  induction segments generalizing atStart with
  | nil => simp [tokensFrom]
  | cons segment segments ih =>
    obtain ⟨hfits, hrow⟩ := h
    obtain ⟨c, text, htext⟩ := List.exists_cons_of_ne_nil (text_ne_nil_of_fits hfits)
    have happend : segment.text ++ segments.flatMap Segment.text =
        c :: (text ++ segments.flatMap Segment.text) := by rw [htext, List.cons_append]
    rw [List.flatMap_cons, happend, tokensFrom_of_scan (scan_of_fits happend hfits), ih hrow,
      List.filterMap_cons]
    cases segment.token? vocabulary <;> rfl

/-- A text that lexes is a row of segments.  Each step leaves a shorter
text, so the induction is on the length. -/
theorem exists_row_of_tokensFrom (htab : ∃ symbol, (symbol, "\t") ∈ vocabulary.symbols)
    {atStart : Bool} {chars : List Char} {tokens : List Token}
    (h : vocabulary.tokensFrom atStart chars = .ok tokens) :
    ∃ segments, segments.flatMap Segment.text = chars ∧ vocabulary.Row atStart segments := by
  induction hlength : chars.length using Nat.strongRecOn generalizing atStart chars tokens with
  | ind length ih =>
    cases chars with
    | nil => exact ⟨[], rfl, trivial⟩
    | cons c rest =>
      rw [tokensFrom] at h
      split at h
      · exact absurd h (by simp)
      next token after hscan =>
        split at h
        · exact absurd h (by simp)
        next hrest =>
          have hlt : after.length < length := hlength ▸ scan_rest_lt hscan
          obtain ⟨segment, htext, hfits, -⟩ := exists_segment_of_scan htab hscan
          obtain ⟨segments, rfl, hrow⟩ := ih after.length hlt hrest rfl
          exact ⟨segment :: segments, htext, hfits, hrow⟩

/-- The lexer answers exactly the tokens that a row of segments owns. -/
theorem lex_eq_ok_iff (htab : ∃ symbol, (symbol, "\t") ∈ vocabulary.symbols)
    {source : String} {tokens : List Token} :
    vocabulary.lex source = .ok tokens ↔
      ∃ segments, segments.flatMap Segment.text = source.toList ∧
        vocabulary.Row true segments ∧
        tokens = segments.filterMap (Segment.token? vocabulary) ++ [.endOfInput] := by
  constructor
  · intro h
    simp only [lex] at h
    split at h
    next hfrom =>
      obtain rfl := Except.ok.inj h
      obtain ⟨segments, htext, hrow⟩ := exists_row_of_tokensFrom htab hfrom
      rw [← htext, tokensFrom_of_row hrow] at hfrom
      exact ⟨segments, htext, hrow, (Except.ok.inj hfrom).symm⟩
    · exact absurd h (by simp)
  · intro h
    obtain ⟨segments, htext, hrow, rfl⟩ := h
    rw [lex, ← htext, tokensFrom_of_row hrow]

/-! ## A whole source -/

/-- A run of digits is cut short on the left by a symbol only. -/
theorem symbol_of_digit_before_number {atStart : Bool} {previous : Segment}
    {digits after : List Char} {c : Char}
    (hprevious : previous.Fits vocabulary atStart (digits ++ after))
    (hnumber : (Segment.number digits).Fits vocabulary false after)
    (hlast : previous.text.getLast? = some c) (hc : c.isDigit = true) :
    ∃ mark spelling, previous = .symbol mark spelling := by
  obtain ⟨hne, hdigits, -, hreserves⟩ := hnumber
  obtain ⟨d, digits, rfl⟩ := List.exists_cons_of_ne_nil hne
  have hd : d.isDigit = true := hdigits d (by simp)
  cases previous with
  | symbol mark spelling => exact ⟨mark, spelling, rfl⟩
  | space =>
    obtain rfl : ' ' = c := by simpa [Segment.text] using hlast
    exact absurd hc (by decide)
  | number front => exact absurd hd (hprevious.2.2.1 d rfl)
  | literal kind text =>
    obtain rfl : kind.delimiter = c := by
      simpa [Segment.text, List.getLast?_cons, List.getLast?_append] using hlast
    cases kind <;> exact absurd hc (by decide)
  | word text =>
    rcases hprevious.ends with hnil | ⟨x, hhead, hblank⟩ | hsymbol
    · exact absurd hnil (by simp)
    · obtain rfl : d = x := by simpa using hhead
      rcases hblank with rfl | rfl | rfl <;> exact absurd hd (by decide)
    · exact absurd hsymbol hreserves
  | skipped x =>
    obtain rfl : x = c := by simpa [Segment.text] using hlast
    rcases hprevious.1 with rfl | ⟨rfl, -⟩ <;> exact absurd hc (by decide)

/-- The lexer cuts a source into segments that lose no character.  Every
segment follows the rules in its place, the tokens are those that the
segments own, and `Token.endOfInput`.  A digit in front of a number's
segment belongs to a symbol.  And no other tokens come from such a cut. -/
theorem lex_segments (htab : ∃ symbol, (symbol, "\t") ∈ vocabulary.symbols)
    (source : String) (tokens : List Token) :
    vocabulary.lex source = .ok tokens ↔
      ∃ segments : List Segment,
        segments.flatMap Segment.text = source.toList ∧
        tokens = segments.filterMap (Segment.token? vocabulary) ++ [.endOfInput] ∧
        (∀ before segment after, segments = before ++ segment :: after →
          segment.Fits vocabulary before.isEmpty (after.flatMap Segment.text)) ∧
        ∀ before previous digits after,
          segments = before ++ previous :: .number digits :: after →
          ∀ c, previous.text.getLast? = some c → c.isDigit = true →
            ∃ mark spelling, previous = .symbol mark spelling := by
  rw [lex_eq_ok_iff htab]
  constructor
  · intro h
    obtain ⟨segments, htext, hrow, htokens⟩ := h
    refine ⟨segments, htext, htokens, fun _ _ _ hsplit => by simpa using hrow.fits hsplit, ?_⟩
    intro before previous digits after hsplit c hlast hc
    have hsplit' : segments = (before ++ [previous]) ++ .number digits :: after := by
      simpa using hsplit
    have hempty : (true && (before ++ [previous]).isEmpty) = false := by cases before <;> rfl
    have hnumber := hempty ▸ hrow.fits hsplit'
    exact symbol_of_digit_before_number (hrow.fits hsplit) hnumber hlast hc
  · intro h
    obtain ⟨segments, htext, htokens, hfits, -⟩ := h
    exact ⟨segments, htext, row_of_fits (by simpa using hfits), htokens⟩

/-- The cut of a text with a skipped character, a pair and a number. -/
theorem lex_segments_of_pair_and_number :
    (∃ symbol, (symbol, "\t") ∈ Vocabulary.standard.symbols) ∧
      ∃ segments : List Segment,
        segments.flatMap Segment.text = " a->1\r".toList ∧
        [⟨.ident, "a"⟩, .ofSymbol .arrow, ⟨.number, "1"⟩, .endOfInput] =
          segments.filterMap (Segment.token? .standard) ++ [.endOfInput] := by
  have htab : ∃ symbol, (symbol, "\t") ∈ Vocabulary.standard.symbols := ⟨.tab, by decide⟩
  have hlex : Vocabulary.standard.lex " a->1\r" =
      .ok [⟨.ident, "a"⟩, .ofSymbol .arrow, ⟨.number, "1"⟩, .endOfInput] := by
    decide +kernel
  obtain ⟨segments, htext, htokens, -⟩ := (lex_segments htab _ _).mp hlex
  exact ⟨htab, segments, htext, htokens⟩

end Vocabulary

end Flick
