import Flick.Proofs.Segments.Rows

/-!
# Progress of the lexer

`Vocabulary.scan` takes a character at every step by its very form: a word
keeps its first character whatever that is.  The rules do not say so.  They
let a word take the characters in front of the first blank or symbol, which
may be none, and then a lexer that goes by the rules stays where it is.

A `Scanner` goes by the rules.  It keeps a position in the text, looks at
the characters there and moves the position, and `Scanner.finish` repeats
this until the end of the text, for a bounded number of steps.  If the
vocabulary reserves the tab, every step moves the scanner:

* `step_of_fits` and `step_of_opens`: a step takes the segment at the
  position, or fails where a literal opens that is never closed;
* `finish_of_rowBefore`: so the scanner passes a row of segments, in one
  step each;
* `lexing_progresses`: it needs no more steps than there are characters, and
  finds what `Vocabulary.lex` finds.

`finish_tab` is the reason for the condition: a scanner stays in front of a
tab character that the vocabulary does not reserve.
-/

namespace Flick

/-- A scan of a text under way: how many characters it has passed, and the
tokens so far. -/
structure Scanner where
  position : Nat
  tokens : List Token

namespace Scanner

/-- The scanner in front of a text. -/
def start : Scanner := ⟨0, []⟩

/-- The scanner at a later position, perhaps with one more token. -/
def moved (scanner : Scanner) (position : Nat) (token : Option Token) : Scanner :=
  ⟨position, scanner.tokens ++ token.toList⟩

theorem position_moved (scanner : Scanner) (position : Nat) (token : Option Token) :
    (scanner.moved position token).position = position := rfl

section Steps

variable (vocabulary : Vocabulary) (chars : List Char)

/-! ## Looking at positions -/

/-- The symbol that the two characters from this position on spell. -/
def pairAt? (position : Nat) : Option Symbol := do
  vocabulary.symbolPair? (← chars[position]?) (← chars[position + 1]?)

/-- Whether a reserved symbol begins at this position. -/
def reservedAt (position : Nat) : Bool :=
  match chars[position]? with
  | some c => (vocabulary.symbolChar? c).isSome || (pairAt? vocabulary chars position).isSome
  | none => false

/-- Whether the character at this position is one of these. -/
def isAt (p : Char → Bool) (position : Nat) : Bool := chars[position]?.any p

/-- The first position from this one on that is to stop at, or the end. -/
def seek (stops : Nat → Bool) (position : Nat) : Nat :=
  if position < chars.length then
    if stops position then position else seek stops (position + 1)
  else position
termination_by chars.length - position

/-- The text from one position to another one. -/
def textBetween (first last : Nat) : String :=
  String.ofList ((chars.drop first).take (last - first))

/-! ## One step -/

/-- Takes a literal, from its opening delimiter on. -/
def scanLiteral (literal : Literal) (scanner : Scanner) : Except UnterminatedLiteral Scanner :=
  let offset := byteLength (chars.take scanner.position)
  let close := seek chars (isAt chars (· == literal.delimiter)) (scanner.position + 1)
  if close < chars.length then
    let text := textBetween chars (scanner.position + 1) close
    .ok (scanner.moved (close + 1) (some ⟨.ofLiteral literal, text⟩))
  else .error ⟨literal, offset, byteLength chars - offset⟩

/-- Whether a word ends in front of this position: a blank or a reserved
symbol begins there. -/
def wordEndsAt (position : Nat) : Bool :=
  isAt chars (fun c => c == ' ' || c == '\t' || c == '\r') position ||
    reservedAt vocabulary chars position

/-- Takes the characters in front of the place where the word ends. -/
def scanWord (scanner : Scanner) : Scanner :=
  let close := seek chars (wordEndsAt vocabulary chars) scanner.position
  scanner.moved close (some (.ofWord vocabulary (textBetween chars scanner.position close)))

/-- The rules for a character `c` where no reserved symbol begins. -/
def scanUnreserved (c : Char) (scanner : Scanner) : Except UnterminatedLiteral Scanner :=
  if c.isDigit then
    let close := seek chars (fun position => !isAt chars Char.isDigit position) scanner.position
    .ok (scanner.moved close (some ⟨.number, textBetween chars scanner.position close⟩))
  else if c = Literal.comment.delimiter then scanLiteral chars .comment scanner
  else if c = Literal.string.delimiter then scanLiteral chars .string scanner
  else if c = ' ' ∧ 0 < scanner.position then
    .ok (scanner.moved (scanner.position + 1) (some (.ofSymbol .tab)))
  else if c = ' ' ∨ c = '\r' then .ok (scanner.moved (scanner.position + 1) none)
  else .ok (scanWord vocabulary chars scanner)

/-- One step.  There is none at the end of the text. -/
def step (scanner : Scanner) : Except UnterminatedLiteral Scanner :=
  match chars[scanner.position]? with
  | none => .ok scanner
  | some c =>
    match pairAt? vocabulary chars scanner.position with
    | some symbol => .ok (scanner.moved (scanner.position + 2) (some (.ofSymbol symbol)))
    | none =>
      match vocabulary.symbolChar? c with
      | some symbol => .ok (scanner.moved (scanner.position + 1) (some (.ofSymbol symbol)))
      | none => scanUnreserved vocabulary chars c scanner

/-! ## All steps -/

/-- The tokens when the scanner reaches the end of the text, or its failure.
There is no answer if so many steps do not lead there. -/
def finish (steps : Nat) (scanner : Scanner) :
    Option (Except UnterminatedLiteral (List Token)) :=
  if scanner.position < chars.length then
    match steps with
    | 0 => none
    | steps + 1 =>
      match scanner.step vocabulary chars with
      | .ok next => finish steps next
      | .error error => some (.error error)
  else some (.ok (scanner.tokens ++ [.endOfInput]))

end Steps

variable {vocabulary : Vocabulary} {chars : List Char} {position : Nat}

/-! ## The text at a position -/

theorem position_lt_of_drop {c : Char} {rest : List Char} (h : chars.drop position = c :: rest) :
    position < chars.length := by
  by_contra hlt
  rw [List.drop_eq_nil_of_le (by omega)] at h
  cases h

theorem getElem?_of_drop {text : List Char} (h : chars.drop position = text) (index : Nat) :
    chars[position + index]? = text[index]? := by
  rw [← h, List.getElem?_drop]

theorem drop_of_append {front after : List Char} (h : chars.drop position = front ++ after) :
    chars.drop (position + front.length) = after := by
  rw [← List.drop_drop, h, List.drop_left]

theorem drop_of_cons {c : Char} {after : List Char} (h : chars.drop position = c :: after) :
    chars.drop (position + 1) = after := by
  rw [← List.drop_drop, h, List.drop_one, List.tail_cons]

theorem length_of_append {front after : List Char} (h : chars.drop position = front ++ after)
    (hle : position ≤ chars.length) :
    position + front.length + after.length = chars.length := by
  have hlength := congrArg List.length h
  rw [List.length_drop, List.length_append] at hlength
  omega

theorem pairAt?_of_drop {c : Char} {rest : List Char} (h : chars.drop position = c :: rest) :
    pairAt? vocabulary chars position = rest.head?.bind (vocabulary.symbolPair? c) := by
  have hfirst : chars[position]? = some c := getElem?_of_drop h 0
  have hsecond : chars[position + 1]? = rest.head? := by
    rw [getElem?_of_drop h 1, List.getElem?_cons_succ, List.head?_eq_getElem?]
  rw [pairAt?, hfirst, hsecond]
  rfl

theorem reservedAt_iff :
    reservedAt vocabulary chars position = true ↔
      vocabulary.Reserves (chars.drop position) := by
  cases h : chars.drop position with
  | nil =>
    have hnone : chars[position]? = none := getElem?_of_drop h 0
    simp [reservedAt, hnone, Vocabulary.Reserves]
  | cons c rest =>
    have hsome : chars[position]? = some c := getElem?_of_drop h 0
    simp only [reservedAt, hsome, pairAt?_of_drop h, Vocabulary.Reserves, Bool.or_eq_true,
      Option.isSome_iff_exists, Option.bind_eq_some_iff]
    exact or_congr_right exists_comm

theorem isAt_inside {p : Char → Bool} {front after : List Char} {index : Nat}
    (h : chars.drop position = front ++ after) (hindex : index < front.length) :
    isAt chars p (position + index) = p front[index] := by
  rw [isAt, getElem?_of_drop h, List.getElem?_append_left hindex,
    List.getElem?_eq_getElem hindex, Option.any_some]

theorem isAt_behind {p : Char → Bool} {front after : List Char}
    (h : chars.drop position = front ++ after) :
    isAt chars p (position + front.length) = after.head?.any p := by
  rw [isAt, getElem?_of_drop h, List.getElem?_append_right (Nat.le_refl _), Nat.sub_self,
    ← List.head?_eq_getElem?]

theorem textBetween_of_append {front after : List Char}
    (h : chars.drop position = front ++ after) :
    textBetween chars position (position + front.length) = String.ofList front := by
  rw [textBetween, Nat.add_sub_cancel_left, h, List.take_left]

/-- The scanner stops behind characters that do not stop it. -/
theorem seek_of_append {stops : Nat → Bool} {front after : List Char}
    (h : chars.drop position = front ++ after)
    (hfront : ∀ index < front.length, stops (position + index) = false)
    (hafter : after = [] ∨ stops (position + front.length) = true) :
    seek chars stops position = position + front.length := by
  induction front generalizing position with
  | nil =>
    rw [seek]
    split
    next hlt =>
      rcases hafter with rfl | hstops
      · have hlength := congrArg List.length h
        simp only [List.length_drop, List.append_nil, List.length_nil] at hlength
        omega
      · exact if_pos hstops
    next => rfl
  | cons c front ih =>
    have hnext : chars.drop (position + 1) = front ++ after := drop_of_cons h
    have hsucc (index : Nat) : position + 1 + index = position + (index + 1) := by omega
    rw [seek, if_pos (position_lt_of_drop h), if_neg (by simpa using hfront 0 (by simp)),
      ih hnext ?_ ?_, List.length_cons, hsucc]
    · intro index hindex
      rw [hsucc]
      exact hfront (index + 1) (by simpa using hindex)
    · rw [hsucc]
      exact hafter

theorem seek_of_digits {digits after : List Char}
    (h : chars.drop position = digits ++ after) (hdigits : ∀ c ∈ digits, c.isDigit)
    (hafter : ∀ c, after.head? = some c → ¬c.isDigit) :
    seek chars (fun position => !isAt chars Char.isDigit position) position =
      position + digits.length := by
  refine seek_of_append h (fun index hindex => ?_) ?_
  · have hdigit := hdigits _ (List.getElem_mem hindex)
    simpa [isAt_inside h hindex] using hdigit
  · cases after with
    | nil => exact .inl rfl
    | cons d after =>
      have hd := hafter d rfl
      right
      simpa [isAt_behind h] using hd

/-! ## A step on a segment -/

variable {scanner : Scanner}

theorem step_of_not_reserves {c : Char} {rest : List Char}
    (h : chars.drop scanner.position = c :: rest) (hreserves : ¬vocabulary.Reserves (c :: rest)) :
    scanner.step vocabulary chars = scanUnreserved vocabulary chars c scanner := by
  have hsome : chars[scanner.position]? = some c := getElem?_of_drop h 0
  have hchar : vocabulary.symbolChar? c = none := by
    rw [Option.eq_none_iff_forall_ne_some]
    exact fun symbol hsymbol => hreserves (.inl ⟨symbol, hsymbol⟩)
  have hpair : pairAt? vocabulary chars scanner.position = none := by
    rw [pairAt?_of_drop h, Option.bind_eq_none_iff]
    intro d hd
    rw [Option.eq_none_iff_forall_ne_some]
    exact fun symbol hsymbol => hreserves (.inr ⟨d, symbol, hd, hsymbol⟩)
  simp only [step, hsome, hpair, hchar]

theorem step_of_spells {symbol : Symbol} {spelling after : List Char}
    (h : chars.drop scanner.position = spelling ++ after)
    (hspells : vocabulary.Spells symbol spelling after) :
    scanner.step vocabulary chars =
      .ok (scanner.moved (scanner.position + spelling.length) (some (.ofSymbol symbol))) := by
  rcases hspells with ⟨c, d, rfl, hpair⟩ | ⟨c, rfl, hsymbol, hnone⟩
  · have hsome : chars[scanner.position]? = some c := getElem?_of_drop h 0
    have hpair : pairAt? vocabulary chars scanner.position = some symbol := by
      rw [pairAt?_of_drop h]
      exact hpair
    simp [step, hsome, hpair]
  · have hsome : chars[scanner.position]? = some c := getElem?_of_drop h 0
    have hpair : pairAt? vocabulary chars scanner.position = none := by
      rw [pairAt?_of_drop h, Option.bind_eq_none_iff]
      exact hnone
    simp [step, hsome, hpair, hsymbol]

/-- The scanner takes a literal with its delimiters. -/
theorem scanLiteral_of_closed {literal : Literal} {text after : List Char}
    (h : chars.drop scanner.position = literal.delimiter :: (text ++ literal.delimiter :: after))
    (htext : literal.delimiter ∉ text) :
    scanLiteral chars literal scanner =
      .ok (scanner.moved (scanner.position + (text.length + 2))
        (some ⟨.ofLiteral literal, String.ofList text⟩)) := by
  have hinside : chars.drop (scanner.position + 1) = text ++ literal.delimiter :: after :=
    drop_of_cons h
  have hclose : seek chars (isAt chars (· == literal.delimiter)) (scanner.position + 1) =
      scanner.position + 1 + text.length := by
    refine seek_of_append hinside (fun index hindex => ?_) (.inr ?_)
    · rw [isAt_inside hinside hindex, beq_eq_false_iff_ne]
      exact fun heq => htext (heq ▸ List.getElem_mem hindex)
    · simp [isAt_behind hinside]
  have hlt : scanner.position + 1 + text.length < chars.length :=
    position_lt_of_drop (drop_of_append hinside)
  have hposition : scanner.position + 1 + text.length + 1 =
      scanner.position + (text.length + 2) := by omega
  rw [scanLiteral]
  simp only [hclose, if_pos hlt, textBetween_of_append hinside, hposition]

/-- The scanner takes a word up to where it ends. -/
theorem scanWord_of_isWord {text after : List Char}
    (h : chars.drop scanner.position = text ++ after) (hword : vocabulary.IsWord text after) :
    scanWord vocabulary chars scanner =
      scanner.moved (scanner.position + text.length)
        (some (.ofWord vocabulary (String.ofList text))) := by
  have hclose : seek chars (wordEndsAt vocabulary chars) scanner.position =
      scanner.position + text.length := by
    refine seek_of_append h (fun index hindex => ?_) ?_
    · have hblank := hword.no_blank _ (List.getElem_mem hindex)
      have hsymbol := hword.no_symbol (text.drop index) (List.drop_suffix _ _)
        (by simpa using hindex)
      have hdrop : chars.drop (scanner.position + index) = text.drop index ++ after := by
        rw [← List.drop_drop, h, List.drop_append_of_le_length (Nat.le_of_lt hindex)]
      rw [← hdrop, ← reservedAt_iff, Bool.not_eq_true] at hsymbol
      rw [wordEndsAt, isAt_inside h hindex, hsymbol]
      simpa [and_assoc] using hblank
    · rcases hword.ends with hnil | ⟨d, hhead, hblank⟩ | hsymbol
      · exact .inl hnil
      · right
        rw [wordEndsAt, isAt_behind h, hhead]
        rcases hblank with rfl | rfl | rfl <;> rfl
      · right
        rw [← drop_of_append h, ← reservedAt_iff] at hsymbol
        rw [wordEndsAt, hsymbol, Bool.or_true]
  simp only [scanWord, hclose, textBetween_of_append h]

/-- A step takes the segment that fits at its position. -/
theorem step_of_fits {segment : Segment} {after : List Char}
    (h : chars.drop scanner.position = segment.text ++ after)
    (hfits : segment.Fits vocabulary (scanner.position == 0) after) :
    scanner.step vocabulary chars =
      .ok (scanner.moved (scanner.position + segment.text.length)
        (segment.token? vocabulary)) := by
  cases segment with
  | symbol mark spelling => exact step_of_spells h hfits
  | space =>
    obtain ⟨hstart, hreserves⟩ := hfits
    have hpos : 0 < scanner.position := by
      simp only [beq_eq_false_iff_ne] at hstart
      omega
    rw [step_of_not_reserves h hreserves]
    simp [scanUnreserved, hpos, Segment.text, Segment.token?, Literal.delimiter]
  | number digits =>
    obtain ⟨hne, hdigits, hafter, hreserves⟩ := hfits
    have hdrop : chars.drop scanner.position = digits ++ after := h
    obtain ⟨c, rest, rfl⟩ := List.exists_cons_of_ne_nil hne
    rw [step_of_not_reserves h hreserves, scanUnreserved, if_pos (hdigits c (by simp)),
      seek_of_digits hdrop hdigits hafter]
    simp only [Segment.text, Segment.token?, textBetween_of_append hdrop]
  | literal kind text =>
    obtain ⟨htext, hreserves⟩ := hfits
    have hdrop : chars.drop scanner.position =
        kind.delimiter :: (text ++ kind.delimiter :: after) := by
      rw [h, Segment.text]
      simp
    have hscan := scanLiteral_of_closed hdrop htext
    have hlength : (Segment.literal kind text).text.length = text.length + 2 := by
      simp [Segment.text]
    rw [step_of_not_reserves hdrop hreserves, hlength]
    cases kind <;> exact hscan
  | word text =>
    obtain ⟨c, rest, rfl⟩ := List.exists_cons_of_ne_nil hfits.nonempty
    obtain ⟨hdigit, hcomment, hstring⟩ := hfits.first c rfl
    obtain ⟨hspace, -, hreturn⟩ := hfits.no_blank c (by simp)
    have hreserves := hfits.no_symbol _ (List.suffix_refl _) (by simp)
    rw [step_of_not_reserves h hreserves, scanUnreserved, if_neg hdigit, if_neg hcomment,
      if_neg hstring, if_neg (by simp [hspace]), if_neg (by simp [hspace, hreturn]),
      scanWord_of_isWord h hfits]
    rfl
  | skipped c =>
    obtain ⟨hskipped, hreserves⟩ := hfits
    rw [step_of_not_reserves h hreserves]
    rcases hskipped with rfl | ⟨rfl, hstart⟩
    · simp [scanUnreserved, Segment.text, Segment.token?, Literal.delimiter]
    · have hzero : scanner.position = 0 := by simpa using hstart
      simp [scanUnreserved, hzero, Segment.text, Segment.token?, Literal.delimiter]

/-- A step fails at a literal that is never closed. -/
theorem step_of_opens {literal : Literal}
    (h : vocabulary.Opens literal (chars.drop scanner.position)) :
    scanner.step vocabulary chars =
      .error (Vocabulary.OpenLiteral.span ⟨literal, chars.drop scanner.position⟩ chars) := by
  obtain ⟨hreserves, rest, hdrop, hopen⟩ := h
  have hrest : chars.drop (scanner.position + 1) = rest ++ [] := by
    rw [List.append_nil]
    exact drop_of_cons hdrop
  have hclose : seek chars (isAt chars (· == literal.delimiter)) (scanner.position + 1) =
      scanner.position + 1 + rest.length := by
    refine seek_of_append hrest (fun index hindex => ?_) (.inl rfl)
    rw [isAt_inside hrest hindex, beq_eq_false_iff_ne]
    exact fun heq => hopen (heq ▸ List.getElem_mem hindex)
  have hend : ¬scanner.position + 1 + rest.length < chars.length := by
    have hlength := length_of_append hrest (position_lt_of_drop hdrop)
    simp only [List.length_nil] at hlength
    omega
  have hbytes := byteLength_append (chars.take scanner.position) (chars.drop scanner.position)
  rw [List.take_append_drop] at hbytes
  have hscan : scanLiteral chars literal scanner =
      .error (Vocabulary.OpenLiteral.span ⟨literal, chars.drop scanner.position⟩ chars) := by
    rw [scanLiteral]
    simp only [hclose, if_neg hend, Vocabulary.OpenLiteral.span, hbytes, Nat.add_sub_cancel,
      Nat.add_sub_cancel_left]
  rw [hdrop] at hreserves
  rw [step_of_not_reserves hdrop hreserves]
  cases literal <;> exact hscan

/-! ## Rows of segments -/

theorem finish_of_end (h : chars.length ≤ scanner.position) (steps : Nat) :
    scanner.finish vocabulary chars steps = some (.ok (scanner.tokens ++ [.endOfInput])) := by
  cases steps <;> rw [finish, if_neg (Nat.not_lt.mpr h)]

/-- The scanner passes a row of segments, one in each step. -/
theorem finish_of_rowBefore {after : List Char} {segments : List Segment} (steps : Nat)
    (h : chars.drop scanner.position = segments.flatMap Segment.text ++ after)
    (hrow : vocabulary.RowBefore after (scanner.position == 0) segments) :
    scanner.finish vocabulary chars (steps + segments.length) =
      finish vocabulary chars steps
        ⟨scanner.position + (segments.flatMap Segment.text).length,
          scanner.tokens ++ segments.filterMap (Segment.token? vocabulary)⟩ := by
  induction segments generalizing scanner with
  | nil => simp
  | cons segment segments ih =>
    obtain ⟨hfits, hrow⟩ := hrow
    rw [List.flatMap_cons, List.append_assoc] at h
    have hne := Vocabulary.text_ne_nil_of_fits hfits
    have hpos := List.length_pos_iff.mpr hne
    have hlt : scanner.position < chars.length := by
      obtain ⟨c, text, htext⟩ := List.exists_cons_of_ne_nil hne
      rw [htext, List.cons_append] at h
      exact position_lt_of_drop h
    have hstart : (scanner.position + segment.text.length == 0) = false := by
      simp only [beq_eq_false_iff_ne]
      omega
    rw [List.length_cons, ← Nat.add_assoc, finish, if_pos hlt, step_of_fits h hfits]
    refine (ih (drop_of_append h) (hstart ▸ hrow)).trans ?_
    rw [moved, List.flatMap_cons, List.length_append, Nat.add_assoc, List.append_assoc,
      List.filterMap_cons]
    cases segment.token? vocabulary <;> rfl

theorem length_le_length_flatMap {atStart : Bool} {after : List Char} {segments : List Segment}
    (h : vocabulary.RowBefore after atStart segments) :
    segments.length ≤ (segments.flatMap Segment.text).length := by
  induction segments generalizing atStart with
  | nil => exact Nat.le_refl _
  | cons segment segments ih =>
    have hpos := List.length_pos_iff.mpr (Vocabulary.text_ne_nil_of_fits h.1)
    have hle := ih h.2
    rw [List.flatMap_cons, List.length_append, List.length_cons]
    omega

/-! ## Every step moves on -/

/-- A step fails, or moves the scanner on inside of the text and makes at
most one token. -/
theorem step_progress (htab : ∃ symbol, (symbol, "\t") ∈ vocabulary.symbols)
    (h : scanner.position < chars.length) :
    (∃ error, scanner.step vocabulary chars = .error error) ∨
      ∃ next token, scanner.step vocabulary chars = .ok next ∧
        scanner.position < next.position ∧ next.position ≤ chars.length ∧
        next.tokens = scanner.tokens ++ Option.toList token := by
  obtain ⟨segments, tail, htext, hrow, htail⟩ :=
    vocabulary.exists_rowBefore htab (scanner.position == 0) (chars.drop scanner.position)
  cases segments with
  | nil =>
    obtain rfl : tail = chars.drop scanner.position := htext
    rcases htail with hnil | ⟨literal, hopens⟩
    · rw [List.drop_eq_nil_iff] at hnil
      omega
    · exact .inl ⟨_, step_of_opens hopens⟩
  | cons segment segments =>
    rw [List.flatMap_cons, List.append_assoc] at htext
    have hpos := List.length_pos_iff.mpr (Vocabulary.text_ne_nil_of_fits hrow.1)
    have hlength := length_of_append htext.symm (Nat.le_of_lt h)
    refine .inr ⟨_, segment.token? vocabulary, step_of_fits htext.symm hrow.1, ?_, ?_, rfl⟩
    · rw [position_moved]
      omega
    · rw [position_moved]
      omega

/-- In front of a tab character that no symbol takes, a scanner makes an
empty word and stays where it is. -/
theorem step_of_tab {rest : List Char} (h : chars.drop scanner.position = '\t' :: rest)
    (hreserves : ¬vocabulary.Reserves ('\t' :: rest)) :
    scanner.step vocabulary chars =
      .ok (scanner.moved scanner.position (some (.ofWord vocabulary ""))) := by
  have hends : wordEndsAt vocabulary chars scanner.position = true := by
    have hsome : chars[scanner.position]? = some '\t' := getElem?_of_drop h 0
    rw [wordEndsAt, isAt, hsome]
    rfl
  have hclose : seek chars (wordEndsAt vocabulary chars) scanner.position = scanner.position := by
    rw [seek, if_pos (position_lt_of_drop h), if_pos hends]
  have hword : scanWord vocabulary chars scanner =
      scanner.moved scanner.position (some (.ofWord vocabulary "")) := by
    simp [scanWord, hclose, textBetween]
  rw [step_of_not_reserves h hreserves, scanUnreserved, hword]
  rfl

/-- So it never comes to the end of the text. -/
theorem finish_tab {rest : List Char} (h : chars.drop scanner.position = '\t' :: rest)
    (hreserves : ¬vocabulary.Reserves ('\t' :: rest)) (steps : Nat) :
    scanner.finish vocabulary chars steps = none := by
  induction steps generalizing scanner with
  | zero => rw [finish, if_pos (position_lt_of_drop h)]
  | succ steps ih =>
    rw [finish, if_pos (position_lt_of_drop h), step_of_tab h hreserves]
    exact ih h

end Scanner

open Scanner

/-- A scanner finds what the lexer finds, in at most as many steps as there
are characters. -/
theorem finish_start {vocabulary : Vocabulary}
    (htab : ∃ symbol, (symbol, "\t") ∈ vocabulary.symbols) (source : String) {steps : Nat}
    (hsteps : source.toList.length ≤ steps) :
    Scanner.start.finish vocabulary source.toList steps = some (vocabulary.lex source) := by
  obtain ⟨segments, tail, htext, hrow, htail⟩ :=
    vocabulary.exists_rowBefore htab true source.toList
  have hlex := Vocabulary.tokensFrom_of_rowBefore hrow
  rw [htext] at hlex
  have hlength := congrArg List.length htext
  have hle := length_le_length_flatMap hrow
  rw [List.length_append] at hlength
  obtain ⟨more, rfl⟩ : ∃ more, steps = more + segments.length :=
    ⟨steps - segments.length, by omega⟩
  have hfront : source.toList.drop start.position =
      segments.flatMap Segment.text ++ tail := htext.symm
  rw [finish_of_rowBefore more hfront hrow, Vocabulary.lex, hlex]
  have hdrop := drop_of_append hfront
  rcases htail with rfl | ⟨literal, hopens⟩
  · have hend : source.toList.length ≤
        start.position + (segments.flatMap Segment.text).length := by
      rw [← htext, List.append_nil]
      exact Nat.le_add_left _ _
    rw [Vocabulary.tokensFrom, finish_of_end hend]
    rfl
  · have hne : 0 < tail.length := by
      obtain ⟨-, rest, rfl, -⟩ := hopens
      exact Nat.succ_pos _
    obtain ⟨more, rfl⟩ : ∃ fewer, more = fewer + 1 := ⟨more - 1, by omega⟩
    rw [← hdrop] at hopens
    have hlt : start.position + (segments.flatMap Segment.text).length <
        source.toList.length := by
      rw [start, Nat.zero_add]
      omega
    rw [← hdrop, Vocabulary.tokensFrom_of_opens hopens, finish, if_pos hlt, step_of_opens hopens]
    rfl

/-- Lexing makes progress in every vocabulary that reserves the tab.  At any
position in front of the end, a step fails with an open literal or moves on
inside of the text, with at most one more token.  So as many steps as there
are characters lead to the end, where the lexer's answer is found, and there
is at most one token for each character, and `Token.endOfInput`. -/
theorem lexing_progresses {vocabulary : Vocabulary}
    (htab : ∃ symbol, (symbol, "\t") ∈ vocabulary.symbols) (source : String) :
    (∀ scanner : Scanner, scanner.position < source.toList.length →
      (∃ error : UnterminatedLiteral,
        scanner.step vocabulary source.toList = .error error) ∨
      ∃ next token, scanner.step vocabulary source.toList = .ok next ∧
        scanner.position < next.position ∧ next.position ≤ source.toList.length ∧
        next.tokens = scanner.tokens ++ Option.toList token) ∧
    (∀ steps, source.toList.length ≤ steps →
      Scanner.start.finish vocabulary source.toList steps = some (vocabulary.lex source)) ∧
    ∀ tokens, vocabulary.lex source = .ok tokens →
      ∃ content, tokens = content ++ [.endOfInput] ∧ content.length ≤ source.toList.length := by
  refine ⟨fun _ => step_progress htab, fun _ => finish_start htab source, ?_⟩
  intro tokens htokens
  obtain ⟨segments, htext, hrow, rfl⟩ := (Vocabulary.lex_eq_ok_iff htab).mp htokens
  refine ⟨_, rfl, ?_⟩
  calc (segments.filterMap (Segment.token? vocabulary)).length
      ≤ segments.length := List.length_filterMap_le _ _
    _ ≤ (segments.flatMap Segment.text).length :=
        length_le_length_flatMap (Vocabulary.rowBefore_nil_iff.mpr hrow)
    _ = source.toList.length := by rw [htext]

/-- A vocabulary with an empty spelling, a spelling that is too long, a
digit that is spelled twice, and a letter. -/
theorem lexing_progresses_of_digit_symbol :
    let vocabulary : Vocabulary :=
      ⟨[(.comma, ""), (.arrow, "==="), (.colon, "1"), (.pipe, "1"), (.tab, "\t"), (.caret, "é")],
        []⟩
    (∃ symbol, (symbol, "\t") ∈ vocabulary.symbols) ∧
      Scanner.start.finish vocabulary "é1=\t".toList 4 = some (vocabulary.lex "é1=\t") ∧
      ∃ content : List Token, [.ofSymbol .caret, .ofSymbol .colon, ⟨.ident, "="⟩, .ofSymbol .tab,
        .endOfInput] = content ++ [.endOfInput] ∧ content.length ≤ 4 := by
  intro vocabulary
  have htab : ∃ symbol, (symbol, "\t") ∈ vocabulary.symbols := ⟨.tab, by decide⟩
  have hlex : vocabulary.lex "é1=\t" =
      .ok [.ofSymbol .caret, .ofSymbol .colon, ⟨.ident, "="⟩, .ofSymbol .tab, .endOfInput] := by
    decide +kernel
  obtain ⟨-, hsteps, hcount⟩ := lexing_progresses htab "é1=\t"
  exact ⟨htab, hsteps 4 (by decide), hcount _ hlex⟩

end Flick
