import Flick.Proofs.Progress
import Mathlib.Data.List.Nodup

/-!
# Precedence of symbols

A lookup answers the first entry of a table that is spelled as asked.  If
no two entries are spelled alike there is no other one, and the lookup is a
question of membership (`find?_eq_some_iff`).  The lexer asks for spellings
of one character and of two only.  So it notices neither the order of the
table nor entries that are empty or longer, and a table that differs in
these things alone is `Spellings.Rearranged`.

The runs under two such tables are compared with a `Scanner`, which asks
its vocabulary in three places: for a pair, for one character, and for the
symbol that ends a word.  The answers agree, so do the steps (`Agree.step`),
and so does the end of every run (`Agree.finish`).

What decides between two entries is their length.  `Spellings.Longest` says
which entry takes the front of a text, without an order, and
`symbol_iff_longest` that the lexer takes this one.
-/

namespace Flick

namespace Spellings

/-! ## Lookups as membership -/

/-- A spelling that the lexer looks for has one character or two. -/
def Reachable (spelling : String) : Prop := spelling.length = 1 ∨ spelling.length = 2

theorem reachable_ofList {chars : List Char} :
    Reachable (String.ofList chars) ↔ chars.length = 1 ∨ chars.length = 2 := by
  rw [Reachable, String.length_ofList]

theorem reachable_singleton (c : Char) : Reachable (String.singleton c) :=
  .inl String.length_singleton

theorem reachable_pair (c d : Char) : Reachable (String.ofList [c, d]) :=
  reachable_ofList.mpr (.inr rfl)

/-- The table spells no two things alike, as far as the lexer looks. -/
def Unambiguous {α : Type} (table : Spellings α) : Prop :=
  ∀ spelling, Reachable spelling → ∀ first second,
    (first, spelling) ∈ table → (second, spelling) ∈ table → first = second

/-- The table has the entries of `symbols` in any order, and anywhere
between them entries that are empty or longer than two characters. -/
def Rearranged {α : Type} (symbols table : Spellings α) : Prop :=
  ∃ inserted, (∀ entry ∈ inserted, entry.2 = "" ∨ 2 < entry.2.length) ∧
    table.Perm (symbols ++ inserted)

variable {α : Type} {symbols table : Spellings α} {spelling : String}

theorem unambiguous_of_nodup (h : (table.map Prod.snd).Nodup) : Unambiguous table := by
  intro spelling _ first second hfirst hsecond
  exact congrArg Prod.fst (List.inj_on_of_nodup_map h hfirst hsecond rfl)

/-- A lookup in an unambiguous table does not depend on the order. -/
theorem find?_eq_some_iff (h : Unambiguous table) (hreachable : Reachable spelling) (value : α) :
    find? table spelling = some value ↔ (value, spelling) ∈ table := by
  refine ⟨mem_of_find?, fun hmem => ?_⟩
  obtain ⟨found, hfound⟩ := exists_find?_of_mem hmem
  rw [hfound, h spelling hreachable value found hmem (mem_of_find? hfound)]

theorem find?_eq_none_iff (h : Unambiguous table) (hreachable : Reachable spelling) :
    find? table spelling = none ↔ ∀ value, (value, spelling) ∉ table := by
  simp only [Option.eq_none_iff_forall_ne_some, ne_eq, find?_eq_some_iff h hreachable]

namespace Rearranged

/-- The entries that the lexer looks for are the same. -/
theorem mem_iff (h : Rearranged symbols table) (hreachable : Reachable spelling) {value : α} :
    (value, spelling) ∈ table ↔ (value, spelling) ∈ symbols := by
  obtain ⟨inserted, hinserted, hperm⟩ := h
  rw [hperm.mem_iff, List.mem_append, or_iff_left]
  intro hmem
  rcases hinserted _ hmem with rfl | hlong
  · simp [Reachable] at hreachable
  · have hlong : 2 < spelling.length := hlong
    rcases hreachable with hone | htwo <;> omega

theorem unambiguous (h : Rearranged symbols table) (hsymbols : Unambiguous symbols) :
    Unambiguous table := by
  intro spelling hreachable first second hfirst hsecond
  rw [h.mem_iff hreachable] at hfirst hsecond
  exact hsymbols spelling hreachable first second hfirst hsecond

theorem find?_eq (h : Rearranged symbols table) (hsymbols : Unambiguous symbols)
    (hreachable : Reachable spelling) : find? table spelling = find? symbols spelling := by
  ext value
  rw [find?_eq_some_iff (h.unambiguous hsymbols) hreachable, h.mem_iff hreachable,
    find?_eq_some_iff hsymbols hreachable]

end Rearranged

/-! ## The longest entry -/

/-- The entry takes the front of the text: it is spelled there, by one
character or by two, and no other such entry is longer. -/
structure Longest (table : Spellings α) (value : α) (spelling text : List Char) : Prop where
  mem : (value, String.ofList spelling) ∈ table
  front : spelling <+: text
  reachable : Reachable (String.ofList spelling)
  longest : ∀ other longer, (other, String.ofList longer) ∈ table →
    Reachable (String.ofList longer) → longer <+: text → longer.length ≤ spelling.length

/-- No entry is longer than a pair. -/
theorem longest_pair_iff {value : α} {c d : Char} {text : List Char} :
    Longest table value [c, d] text ↔
      (value, String.ofList [c, d]) ∈ table ∧ [c, d] <+: text := by
  refine ⟨fun h => ⟨h.mem, h.front⟩, fun h => ⟨h.1, h.2, reachable_pair c d, ?_⟩⟩
  intro other longer _ hreachable _
  rcases reachable_ofList.mp hreachable with hone | htwo
  · simp [hone]
  · simp [htwo]

/-- One character is taken where no entry is a pair of it and the next one. -/
theorem longest_single_iff {value : α} {c : Char} {after : List Char} :
    Longest table value [c] (c :: after) ↔ (value, String.singleton c) ∈ table ∧
      ∀ d, after.head? = some d → ∀ other, (other, String.ofList [c, d]) ∉ table := by
  rw [String.singleton_eq_ofList]
  constructor
  · intro h
    refine ⟨h.mem, fun d hd other hother => ?_⟩
    obtain ⟨rest, rfl⟩ := List.head?_eq_some_iff.mp hd
    have hle := h.longest other [c, d] hother (reachable_pair c d) ⟨rest, rfl⟩
    simp at hle
  · rintro ⟨hmem, hnone⟩
    refine ⟨hmem, ⟨after, rfl⟩, reachable_ofList.mpr (.inl rfl), ?_⟩
    intro other longer hother hreachable hfront
    rcases reachable_ofList.mp hreachable with hone | htwo
    · simp [hone]
    · obtain ⟨first, d, rfl⟩ := List.length_eq_two.mp htwo
      obtain ⟨rest, hrest⟩ := hfront
      obtain ⟨rfl, rfl⟩ := List.cons.inj hrest
      exact absurd hother (hnone d rfl other)

end Spellings

open Spellings

namespace Vocabulary

/-! ## Two runs in step -/

/-- Two vocabularies that answer the lexer alike. -/
structure Agree (first second : Vocabulary) : Prop where
  symbolChar? : first.symbolChar? = second.symbolChar?
  symbolPair? : first.symbolPair? = second.symbolPair?
  keyword? : first.keyword? = second.keyword?

theorem agree_of_rearranged {symbols table : Spellings Symbol} (h : Rearranged symbols table)
    (hsymbols : Unambiguous symbols) (keywords : Spellings Keyword) :
    Agree ⟨table, keywords⟩ ⟨symbols, keywords⟩ where
  symbolChar? := funext fun c => h.find?_eq hsymbols (reachable_singleton c)
  symbolPair? := funext fun c => funext fun d => h.find?_eq hsymbols (reachable_pair c d)
  keyword? := rfl

namespace Agree

variable {first second : Vocabulary} {chars : List Char}

theorem pairAt? (h : Agree first second) (position : Nat) :
    Scanner.pairAt? first chars position = Scanner.pairAt? second chars position := by
  rw [Scanner.pairAt?, Scanner.pairAt?, h.symbolPair?]

theorem wordEndsAt (h : Agree first second) (position : Nat) :
    Scanner.wordEndsAt first chars position = Scanner.wordEndsAt second chars position := by
  simp only [Scanner.wordEndsAt, Scanner.reservedAt, h.symbolChar?, h.pairAt?]

theorem ofWord (h : Agree first second) (word : String) :
    Token.ofWord first word = Token.ofWord second word := by
  rw [Token.ofWord, Token.ofWord, h.keyword?]

theorem scanWord (h : Agree first second) (scanner : Scanner) :
    scanner.scanWord first chars = scanner.scanWord second chars := by
  have hends : Scanner.wordEndsAt first chars = Scanner.wordEndsAt second chars :=
    funext h.wordEndsAt
  simp only [Scanner.scanWord, hends, h.ofWord]

/-- A step looks at the vocabulary for a pair, for a symbol of one character
and for a word. -/
theorem step (h : Agree first second) (scanner : Scanner) :
    scanner.step first chars = scanner.step second chars := by
  simp only [Scanner.step, Scanner.scanUnreserved, h.pairAt?, h.symbolChar?, h.scanWord]

theorem finish (h : Agree first second) (steps : Nat) (scanner : Scanner) :
    scanner.finish first chars steps = scanner.finish second chars steps := by
  induction steps generalizing scanner with
  | zero => rw [Scanner.finish, Scanner.finish]
  | succ steps ih => simp only [Scanner.finish, h.step, ih]

/-- Two lexers that make the same steps come to the same end. -/
theorem lex (h : Agree first second) (hfirst : ∃ symbol, (symbol, "\t") ∈ first.symbols)
    (hsecond : ∃ symbol, (symbol, "\t") ∈ second.symbols) (source : String) :
    first.lex source = second.lex source := by
  have hruns : Scanner.start.finish first source.toList source.toList.length =
      Scanner.start.finish second source.toList source.toList.length := h.finish _ _
  rw [finish_start hfirst source (Nat.le_refl _), finish_start hsecond source (Nat.le_refl _)]
    at hruns
  exact Option.some.inj hruns

end Agree

/-! ## Length decides -/

variable {table : Spellings Symbol} {keywords : Spellings Keyword} {symbol : Symbol}
  {spelling after : List Char}

/-- The characters of a symbol are those of the longest entry. -/
theorem spells_iff_longest (h : Unambiguous table) (keywords : Spellings Keyword) :
    Spells ⟨table, keywords⟩ symbol spelling after ↔
      Longest table symbol spelling (spelling ++ after) := by
  have hpair (c d : Char) := find?_eq_some_iff h (reachable_pair c d) symbol
  have hnone (c d : Char) := find?_eq_none_iff h (reachable_pair c d)
  have hsingle (c : Char) := find?_eq_some_iff h (reachable_singleton c) symbol
  constructor
  · rintro (⟨c, d, rfl, hfound⟩ | ⟨c, rfl, hfound, hother⟩)
    · exact longest_pair_iff.mpr ⟨(hpair c d).mp hfound, List.prefix_append _ _⟩
    · exact longest_single_iff.mpr
        ⟨(hsingle c).mp hfound, fun d hd => (hnone c d).mp (hother d hd)⟩
  · intro hlongest
    rcases reachable_ofList.mp hlongest.reachable with hone | htwo
    · obtain ⟨c, rfl⟩ := List.length_eq_one_iff.mp hone
      obtain ⟨hmem, hother⟩ := longest_single_iff.mp hlongest
      exact .inr ⟨c, rfl, (hsingle c).mpr hmem, fun d hd => (hnone c d).mpr (hother d hd)⟩
    · obtain ⟨c, d, rfl⟩ := List.length_eq_two.mp htwo
      exact .inl ⟨c, d, rfl, (hpair c d).mpr hlongest.mem⟩

/-- A segment is a symbol's exactly if the entry of this symbol is the
longest one in its place. -/
theorem symbol_iff_longest (h : Unambiguous table) {atStart : Bool} {segment : Segment}
    (hfits : segment.Fits ⟨table, keywords⟩ atStart after) :
    segment = .symbol symbol spelling ↔
      Longest table symbol spelling (segment.text ++ after) := by
  constructor
  · rintro rfl
    exact (spells_iff_longest h keywords).mp hfits
  · intro hlongest
    obtain ⟨rest, hrest⟩ := hlongest.front
    rw [← hrest, ← spells_iff_longest h keywords] at hlongest
    -- The text has one leading symbol, so it remains to compare it with the segment's.
    have hleading := leadingSymbol?_eq_some_iff.mpr ⟨spelling, hrest, hlongest⟩
    by_cases hsymbol : ∃ mark other, segment = .symbol mark other
    · obtain ⟨mark, other, rfl⟩ := hsymbol
      have hfound := leadingSymbol?_eq_some_iff.mpr ⟨other, rfl, hfits⟩
      obtain ⟨rfl, rfl⟩ := Prod.mk.inj (Option.some.inj (hfound.symm.trans hleading))
      rw [List.append_cancel_right hrest]
      rfl
    · have hreserves := not_reserves_of_fits hfits fun mark other heq => hsymbol ⟨mark, other, heq⟩
      rw [leadingSymbol?_eq_none_iff.mpr hreserves] at hleading
      cases hleading

end Vocabulary

open Vocabulary

/-- If no two symbols are spelled alike, the order of their table does not
decide what the lexer answers, nor do more entries that are empty or longer
than two characters: the two tables lex every source alike, step by step.
Between entries their length decides.  A segment is a symbol's exactly if the
entry of this symbol is the longest one in its place. -/
theorem lex_rearranged {symbols table : Spellings Symbol}
    (htab : ∃ symbol, (symbol, "\t") ∈ symbols) (hdistinct : (symbols.map Prod.snd).Nodup)
    (htable : Rearranged symbols table) (keywords : Spellings Keyword) (source : String) :
    Vocabulary.lex ⟨table, keywords⟩ source = Vocabulary.lex ⟨symbols, keywords⟩ source ∧
      (∀ scanner : Scanner, scanner.step ⟨table, keywords⟩ source.toList =
        scanner.step ⟨symbols, keywords⟩ source.toList) ∧
      ∀ tokens, Vocabulary.lex ⟨table, keywords⟩ source = .ok tokens →
        ∃ segments, segments.flatMap Segment.text = source.toList ∧
          tokens = segments.filterMap (Segment.token? ⟨table, keywords⟩) ++ [.endOfInput] ∧
          Row ⟨table, keywords⟩ true segments ∧
          ∀ before segment after, segments = before ++ segment :: after →
            ∀ symbol spelling, segment = .symbol symbol spelling ↔
              Longest table symbol spelling (segment.text ++ after.flatMap Segment.text) := by
  have hsymbols : Unambiguous symbols := unambiguous_of_nodup hdistinct
  have hagree := agree_of_rearranged htable hsymbols keywords
  have htableTab : ∃ symbol, (symbol, "\t") ∈ (Vocabulary.mk table keywords).symbols :=
    htab.imp fun symbol => (htable.mem_iff (reachable_singleton '\t')).mpr
  refine ⟨hagree.lex htableTab htab source, hagree.step, fun tokens htokens => ?_⟩
  obtain ⟨segments, htext, hrow, htokens⟩ := (lex_eq_ok_iff htableTab).mp htokens
  refine ⟨segments, htext, htokens, hrow, fun before segment after hsplit symbol spelling => ?_⟩
  exact symbol_iff_longest (htable.unambiguous hsymbols) (hrow.fits hsplit)

/-- A table with a pair behind its first character, and the same turned
around, with an entry of three characters in front and two empty ones. -/
theorem lex_rearranged_of_reversed :
    let symbols : Spellings Symbol := [(.tab, "\t"), (.equals, "="), (.doubleEquals, "==")]
    let table : Spellings Symbol :=
      [(.arrow, "==="), (.doubleEquals, "=="), (.comma, ""), (.equals, "="), (.comma, ""),
        (.tab, "\t")]
    (∃ symbol, (symbol, "\t") ∈ symbols) ∧ (symbols.map Prod.snd).Nodup ∧
      Rearranged symbols table ∧
      Vocabulary.lex ⟨table, []⟩ "===x" =
        .ok [.ofSymbol .doubleEquals, .ofSymbol .equals, ⟨.ident, "x"⟩, .endOfInput] ∧
      ∃ segments : List Segment, segments.flatMap Segment.text = "===x".toList ∧
        [.ofSymbol .doubleEquals, .ofSymbol .equals, ⟨.ident, "x"⟩, .endOfInput] =
          segments.filterMap (Segment.token? ⟨table, []⟩) ++ [.endOfInput] := by
  intro symbols table
  have htab : ∃ symbol, (symbol, "\t") ∈ symbols := ⟨.tab, by decide⟩
  have hdistinct : (symbols.map Prod.snd).Nodup := by decide
  have htable : Rearranged symbols table :=
    ⟨[(.arrow, "==="), (.comma, ""), (.comma, "")], by decide, by decide⟩
  have hsymbols : Vocabulary.lex ⟨symbols, []⟩ "===x" =
      .ok [.ofSymbol .doubleEquals, .ofSymbol .equals, ⟨.ident, "x"⟩, .endOfInput] := by
    decide +kernel
  obtain ⟨hlex, -, hsegments⟩ := lex_rearranged htab hdistinct htable [] "===x"
  have htokens := hlex.trans hsymbols
  obtain ⟨segments, htext, hsplit, -⟩ := hsegments _ htokens
  exact ⟨htab, hdistinct, htable, htokens, segments, htext, hsplit⟩

end Flick
