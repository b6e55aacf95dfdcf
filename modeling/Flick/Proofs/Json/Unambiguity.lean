import Flick.Proofs.Json.Reader

/-!
# JSON texts denote one value

The grammar says which texts spell a value, but not how to read them.  Here
the reader is followed through a phrase.  Where a phrase stands, its reader
takes that phrase and stops behind it (`Written.read`).  The one thing that
must be known about what follows is that it does not go on with a number or
with blanks.  Inside an array or an object a comma or a closing mark follows,
so there it is always known.

With what is known of the reader, the reader reads the texts of the grammar
and no others (`read?_eq_some_iff`), and a text denotes at most one value
(`Denotes.unique`).
-/

namespace Flick.Json

/-! ## Where a reader stops -/

section Stops

variable {p : Char → Bool} {c : Char} {text rest : List Char}

/-- The text does not begin with a character that `p` holds of. -/
def Stops (p : Char → Bool) (text : List Char) : Prop := ∀ c ∈ text.head?, p c = false

@[simp] theorem stops_nil : Stops p [] := by simp [Stops]

@[simp] theorem stops_cons : Stops p (c :: rest) ↔ p c = false := by simp [Stops]

theorem Stops.takeWhile_append (h : Stops p rest) (htext : ∀ c ∈ text, p c = true) :
    (text ++ rest).takeWhile p = text := by
  rw [List.takeWhile_append_of_pos htext]
  cases rest with
  | nil => simp
  | cons c rest => simp [stops_cons.mp h]

theorem Stops.dropWhile_append (h : Stops p rest) (htext : ∀ c ∈ text, p c = true) :
    (text ++ rest).dropWhile p = rest := by
  rw [List.dropWhile_append_of_pos htext]
  cases rest with
  | nil => rfl
  | cons c rest => simp [stops_cons.mp h]

end Stops

variable {c : Char} {code bound : Nat} {text rest : List Char} {value : Json}

/-! ## Strings -/

theorem readUnit_append {digits : List Char} (h : unit? digits = some code) :
    readUnit (digits ++ rest) = some (code, rest) := by
  have hlength : digits.length = 4 := by
    unfold unit? at h
    split at h
    · rfl
    · exact absurd h (by simp)
  rw [readUnit, List.take_left' hlength, List.drop_left' hlength, h]
  rfl

theorem single?_eq_none_of_paired? {high low : Nat} (h : paired? high low = some c) :
    single? high = none := by
  rw [paired?] at h
  split at h
  next hhalves => simp [single?, Nat.isValidChar]; omega
  next => exact absurd h (by simp)

theorem Letter.read {letter : List Char} (h : Letter c letter) (rest : List Char) :
    readLetter (letter ++ rest) = some (c, rest) := by
  cases h with
  | plain hc =>
    have hne : c ≠ '\\' := by rintro rfl; exact absurd hc (by decide)
    simp [readLetter, hne, hc]
  | @named mark h =>
    have hne : mark ≠ 'u' := by rintro rfl; simp [named?] at h
    rw [List.cons_append, List.cons_append, readLetter, h]
    · rfl
    · exact hne
  | coded hcode h => simp [readLetter, readUnit_append hcode, h]
  | paired hhigh hlow h =>
    simp [readLetter, readPaired, readUnit_append hhigh, readUnit_append hlow, h,
      single?_eq_none_of_paired? h]

/-- No spelling of a character begins with a quote. -/
theorem Letter.exists_cons {letter : List Char} (h : Letter c letter) :
    ∃ d tail, letter = d :: tail ∧ d ≠ '\x22' := by
  cases h with
  | plain hc => exact ⟨c, [], rfl, by rintro rfl; exact absurd hc (by decide)⟩
  | named | coded | paired => exact ⟨_, _, rfl, by decide⟩

theorem Letters.read {letters : List Char} (h : Letters letters text) (rest : List Char)
    (hbound : text.length < bound) :
    readLetters bound (text ++ '\x22' :: rest) = some (letters, rest) := by
  induction h generalizing bound with
  | nil =>
    obtain ⟨bound, rfl⟩ := Nat.exists_eq_succ_of_ne_zero (Nat.ne_zero_of_lt hbound)
    rfl
  | @cons c letter value text head tail ih =>
    obtain ⟨bound, rfl⟩ := Nat.exists_eq_succ_of_ne_zero (Nat.ne_zero_of_lt hbound)
    have hhead := head.read (text ++ '\x22' :: rest)
    obtain ⟨d, after, rfl, hd⟩ := head.exists_cons
    simp only [List.length_append, List.length_cons] at hbound
    have htail : readLetters bound (text ++ '\x22' :: rest) = some (value, rest) :=
      ih (by omega)
    simp only [List.cons_append] at hhead
    simp [readLetters, hd, hhead, htail]

theorem Quoted.read {value : String} (h : Quoted value text) (rest : List Char) :
    readString (text ++ rest) = some (value, rest) := by
  obtain ⟨letters⟩ := h
  rw [List.cons_append, List.append_assoc, List.singleton_append, readString,
    letters.read rest (by simp)]
  simp

/-! ## Numbers -/

/-- A text of characters of numbers only. -/
def Numeric (text : List Char) : Prop := ∀ c ∈ text, isNumeric c = true

theorem isNumeric_of_isDigit (h : c.isDigit = true) : isNumeric c = true := by simp [isNumeric, h]

theorem numeric_of_dropWhile (h : Numeric (text.dropWhile Char.isDigit)) : Numeric text := by
  intro c hc
  rw [← List.takeWhile_append_dropWhile (p := Char.isDigit) (l := text), List.mem_append] at hc
  exact hc.elim (fun hc => isNumeric_of_isDigit (List.mem_takeWhile_imp hc)) (h c)

theorem numeric_of_afterMark {marks : List Char} (hmarks : Numeric marks)
    (h : Numeric (afterMark marks text)) : Numeric text := by
  cases text with
  | nil => exact h
  | cons d text =>
    rw [afterMark] at h
    split at h
    next hd => exact List.forall_mem_cons.mpr ⟨hmarks d hd, h⟩
    next => exact h

theorem numeric_of_isExponent (h : isExponent text = true) : Numeric text := by
  cases text with
  | nil => simp [Numeric]
  | cons mark text =>
    simp only [isExponent, isDigits, Bool.and_eq_true, decide_eq_true_eq, List.all_eq_true] at h
    obtain ⟨hmark, -, hdigits⟩ := h
    have hmarks : Numeric ['e', 'E'] := by simp [Numeric, isNumeric]
    have hsigns : Numeric ['+', '-'] := by simp [Numeric, isNumeric]
    refine List.forall_mem_cons.mpr ⟨hmarks mark hmark, ?_⟩
    exact numeric_of_afterMark hsigns fun c hc => isNumeric_of_isDigit (hdigits c hc)

theorem numeric_of_isFraction (h : isFraction text = true) : Numeric text := by
  unfold isFraction at h
  split at h
  next =>
    rw [Bool.and_eq_true] at h
    exact List.forall_mem_cons.mpr ⟨by decide, numeric_of_dropWhile (numeric_of_isExponent h.2)⟩
  next => exact numeric_of_isExponent h

theorem numeric_of_isUnsigned (h : isUnsigned text = true) : Numeric text := by
  unfold isUnsigned at h
  split at h
  next => exact absurd h (by simp)
  next => exact List.forall_mem_cons.mpr ⟨by decide, numeric_of_isFraction h⟩
  next =>
    rw [Bool.and_eq_true] at h
    exact List.forall_mem_cons.mpr
      ⟨isNumeric_of_isDigit h.1, numeric_of_dropWhile (numeric_of_isFraction h.2)⟩

theorem numeric_of_isNumber (h : isNumber text = true) : Numeric text :=
  numeric_of_afterMark (by simp [Numeric, isNumeric]) (numeric_of_isUnsigned h)

theorem readNumber_append (h : isNumber text = true) (hrest : Stops isNumeric rest) :
    readNumber (text ++ rest) = some (.number (.ofList text), rest) := by
  have hnumeric := numeric_of_isNumber h
  simp only [readNumber, hrest.takeWhile_append hnumeric, hrest.dropWhile_append hnumeric, h,
    if_true]

/-- A number begins with none of the letters and marks of the other values. -/
theorem exists_cons_of_isNumber (h : isNumber text = true) :
    ∃ c tail, text = c :: tail ∧ isNumeric c = true := by
  cases text with
  | nil => exact absurd h (by decide)
  | cons c tail => exact ⟨c, tail, rfl, numeric_of_isNumber h c List.mem_cons_self⟩

/-! ## The first character of a phrase -/

/-- The characters that end a value and begin none. -/
def isTrailing (c : Char) : Bool := isBlank c || c ∈ [']', '\x7d', ',', ':']

theorem not_isNumeric_of_isTrailing (h : isTrailing c = true) : isNumeric c = false := by
  simp only [isTrailing, isBlank, Bool.or_eq_true, decide_eq_true_eq, List.mem_cons,
    List.not_mem_nil, or_false] at h
  obtain (rfl | rfl | rfl | rfl) | rfl | rfl | rfl | rfl := h <;> decide

theorem Written.exists_cons (h : Written (.value value) text) :
    ∃ c tail, text = c :: tail ∧ isTrailing c = false := by
  cases h with
  | null | yes | no | emptyArray | array | emptyObject | object => exact ⟨_, _, rfl, by decide⟩
  | string h =>
    obtain ⟨letters⟩ := h
    exact ⟨_, _, rfl, by decide⟩
  | number h =>
    obtain ⟨c, tail, rfl, hc⟩ := exists_cons_of_isNumber h
    refine ⟨c, tail, rfl, ?_⟩
    rw [← Bool.not_eq_true]
    intro htrailing
    rw [not_isNumeric_of_isTrailing htrailing] at hc
    exact Bool.noConfusion hc

theorem skipBlanks_append {blanks : List Char} (h : Blank blanks) :
    skipBlanks (blanks ++ rest) = skipBlanks rest :=
  List.dropWhile_append_of_pos h

theorem skipBlanks_of_stops (h : Stops isBlank text) : skipBlanks text = text :=
  h.dropWhile_append blank_nil

theorem skipBlanks_cons (h : isBlank c = false) : skipBlanks (c :: rest) = c :: rest :=
  skipBlanks_of_stops (stops_cons.mpr h)

theorem not_isBlank_of_not_isTrailing (h : isTrailing c = false) : isBlank c = false :=
  (Bool.or_eq_false_iff.mp h).1

/-- Behind its blanks the text does not begin with a closing mark. -/
def Opens (text : List Char) : Prop :=
  ∃ blanks c tail, text = blanks ++ c :: tail ∧ Blank blanks ∧ isTrailing c = false

theorem Opens.append (h : Opens text) (rest : List Char) : Opens (text ++ rest) := by
  obtain ⟨blanks, c, tail, rfl, hblanks, hc⟩ := h
  exact ⟨blanks, c, tail ++ rest, by simp, hblanks, hc⟩

theorem Opens.head?_skipBlanks (h : Opens text) :
    ∃ c, (skipBlanks text).head? = some c ∧ isTrailing c = false := by
  obtain ⟨blanks, c, tail, rfl, hblanks, hc⟩ := h
  refine ⟨c, ?_, hc⟩
  rw [skipBlanks_append hblanks, skipBlanks_cons (not_isBlank_of_not_isTrailing hc),
    List.head?_cons]

theorem Written.opens {phrase : Phrase} {text : List Char} (h : Written phrase text) :
    Opens text := by
  cases phrase with
  | value value =>
    obtain ⟨c, tail, rfl, hc⟩ := h.exists_cons
    exact ⟨[], c, tail, rfl, blank_nil, hc⟩
  | element value =>
    cases h with
    | @element _ before text after hbefore _ h =>
      obtain ⟨c, tail, rfl, hc⟩ := h.exists_cons
      exact ⟨before, c, tail ++ after, by simp, hbefore, hc⟩
  | elements values =>
    cases h with
    | lastElement h => exact h.opens
    | elements head _ => exact head.opens.append _
  | member name value =>
    cases h with
    | @member _ _ before _ after text hbefore hname =>
      cases hname with
      | @intro letters =>
        exact ⟨before, '\x22', letters ++ '\x22' :: (after ++ ':' :: text), by simp, hbefore,
          by decide⟩
  | members members =>
    cases h with
    | lastMember h => exact h.opens
    | members head _ => exact head.opens.append _

/-! ## Lists -/

section Lists

variable {α : Type} {read : List Char → Option (α × List Char)} {closing : Char}
  {part : α} {parts : List α} {texts : List Char}

theorem readSeparated_last (h : read (text ++ closing :: rest) = some (part, closing :: rest))
    (hclosing : closing ≠ ',') (hbound : text.length < bound) :
    readSeparated read closing bound (text ++ closing :: rest) = some ([part], rest) := by
  obtain ⟨bound, rfl⟩ := Nat.exists_eq_succ_of_ne_zero (Nat.ne_zero_of_lt hbound)
  rw [readSeparated, h]
  simp

theorem readSeparated_more
    (h : read (text ++ ',' :: (texts ++ closing :: rest)) =
      some (part, ',' :: (texts ++ closing :: rest)))
    (ih : ∀ bound, texts.length < bound →
      readSeparated read closing bound (texts ++ closing :: rest) = some (parts, rest))
    (hbound : (text ++ ',' :: texts).length < bound) :
    readSeparated read closing bound (text ++ ',' :: texts ++ closing :: rest) =
      some (part :: parts, rest) := by
  obtain ⟨bound, rfl⟩ := Nat.exists_eq_succ_of_ne_zero (Nat.ne_zero_of_lt hbound)
  simp only [List.length_append, List.length_cons] at hbound
  have htail := ih bound (by omega)
  rw [List.append_assoc, List.cons_append, readSeparated, h]
  simp [htail]

theorem readEnclosed_blank {blanks : List Char} (h : Blank blanks)
    (hclosing : isBlank closing = false) :
    readEnclosed read closing (blanks ++ closing :: rest) = some ([], rest) := by
  have hskip : skipBlanks (blanks ++ closing :: rest) = closing :: rest := by
    rw [skipBlanks_append h, skipBlanks_cons hclosing]
  simp [readEnclosed, hskip]

theorem readEnclosed_of_opens (h : Opens text) (hclosing : isTrailing closing = true)
    (hparts : ∀ bound, text.length < bound →
      readSeparated read closing bound (text ++ closing :: rest) = some (parts, rest)) :
    readEnclosed read closing (text ++ closing :: rest) = some (parts, rest) := by
  obtain ⟨c, hhead, hc⟩ := (h.append (closing :: rest)).head?_skipBlanks
  have hne : c ≠ closing := by rintro rfl; simp [hclosing] at hc
  rw [readEnclosed, hhead, if_neg (by simpa using hne)]
  exact hparts _ (by simp)

end Lists

/-! ## Values -/

theorem readValue_of_readScalar (hc : c ≠ '[' ∧ c ≠ '\x7b' ∧ c ≠ '\x22')
    (h : readScalar (c :: text) = some (value, rest)) (hbound : 0 < bound) :
    readValue bound (c :: text) = some (value, rest) := by
  obtain ⟨bound, rfl⟩ := Nat.exists_eq_succ_of_ne_zero (Nat.ne_zero_of_lt hbound)
  simp [readValue, hc, h]

theorem readScalar_of_isNumeric (hc : isNumeric c = true) :
    readScalar (c :: text) = readNumber (c :: text) := by
  unfold readScalar
  split
  case h_4 => rfl
  all_goals
    next heq =>
    obtain ⟨rfl, -⟩ := List.cons.inj heq
    exact absurd hc (by decide)

theorem readValue_number (h : isNumber text = true) (hrest : Stops isNumeric rest)
    (hbound : text.length ≤ bound) :
    readValue bound (text ++ rest) = some (.number (.ofList text), rest) := by
  have hread := readNumber_append h hrest
  obtain ⟨c, tail, rfl, hc⟩ := exists_cons_of_isNumber h
  have hne : c ≠ '[' ∧ c ≠ '\x7b' ∧ c ≠ '\x22' := by
    refine ⟨?_, ?_, ?_⟩ <;> rintro rfl <;> exact absurd hc (by decide)
  rw [List.cons_append] at hread ⊢
  rw [← readScalar_of_isNumeric hc] at hread
  exact readValue_of_readScalar hne hread (Nat.lt_of_lt_of_le (by simp) hbound)

theorem readValue_string {string : String} (h : Quoted string text)
    (hbound : text.length ≤ bound) :
    readValue bound (text ++ rest) = some (.string string, rest) := by
  have hread := h.read rest
  obtain ⟨letters⟩ := h
  obtain ⟨bound, rfl⟩ := Nat.exists_eq_succ_of_ne_zero (Nat.ne_zero_of_lt hbound)
  rw [List.cons_append] at hread ⊢
  rw [readValue, if_neg (by decide), if_neg (by decide), if_pos rfl, hread]
  rfl

theorem readValue_array {values : List Json}
    (h : ∀ inner, text.length ≤ inner →
      readEnclosed (readElement (readValue inner)) ']' (text ++ ']' :: rest) =
        some (values, rest))
    (hbound : ('[' :: (text ++ [']'])).length ≤ bound) :
    readValue bound ('[' :: (text ++ [']']) ++ rest) = some (.array values, rest) := by
  obtain ⟨bound, rfl⟩ := Nat.exists_eq_succ_of_ne_zero (Nat.ne_zero_of_lt hbound)
  simp only [List.length_cons, List.length_append, List.length_nil] at hbound
  rw [List.cons_append, List.append_assoc, List.singleton_append, readValue, if_pos rfl,
    h bound (by omega)]
  rfl

theorem readValue_object {members : List (String × Json)}
    (h : ∀ inner, text.length ≤ inner →
      readEnclosed (readMember (readValue inner)) '\x7d' (text ++ '\x7d' :: rest) =
        some (members, rest))
    (hbound : ('\x7b' :: (text ++ ['\x7d'])).length ≤ bound) :
    readValue bound ('\x7b' :: (text ++ ['\x7d']) ++ rest) = some (.object members, rest) := by
  obtain ⟨bound, rfl⟩ := Nat.exists_eq_succ_of_ne_zero (Nat.ne_zero_of_lt hbound)
  simp only [List.length_cons, List.length_append, List.length_nil] at hbound
  rw [List.cons_append, List.append_assoc, List.singleton_append, readValue,
    if_neg (by decide), if_pos rfl, h bound (by omega)]
  rfl

/-! ## Phrases -/

/-- No element or member in front of the text can reach into it. -/
structure Ends (text : List Char) : Prop where
  blank : Stops isBlank text
  numeric : Stops isNumeric text

theorem ends_nil : Ends [] := ⟨stops_nil, stops_nil⟩

theorem ends_cons (hblank : isBlank c = false) (hnumeric : isNumeric c = false) :
    Ends (c :: rest) :=
  ⟨stops_cons.mpr hblank, stops_cons.mpr hnumeric⟩

/-- No number goes on behind blanks. -/
theorem Stops.blank_append {blanks : List Char} (hrest : Stops isNumeric rest)
    (h : Blank blanks) : Stops isNumeric (blanks ++ rest) := by
  cases blanks with
  | nil => exact hrest
  | cons c blanks =>
    have hc : isTrailing c = true := by simp [isTrailing, h c List.mem_cons_self]
    exact stops_cons.mpr (not_isNumeric_of_isTrailing hc)

theorem readElement_append {read : List Char → Option (Json × List Char)}
    {before after : List Char} (hbefore : Blank before) (hafter : Blank after)
    (h : Written (.value value) text)
    (hread : read (text ++ (after ++ rest)) = some (value, after ++ rest))
    (hrest : Stops isBlank rest) :
    readElement read (before ++ text ++ after ++ rest) = some (value, rest) := by
  obtain ⟨c, tail, rfl, hc⟩ := h.exists_cons
  rw [List.cons_append] at hread
  rw [List.append_assoc, List.append_assoc, readElement, skipBlanks_append hbefore,
    List.cons_append, skipBlanks_cons (not_isBlank_of_not_isTrailing hc), hread]
  simp [skipBlanks_append hafter, skipBlanks_of_stops hrest]

theorem readMember_append {read : List Char → Option (Json × List Char)} {name : String}
    {before quoted after : List Char} (hbefore : Blank before) (hname : Quoted name quoted)
    (hafter : Blank after) (hread : readElement read (text ++ rest) = some (value, rest)) :
    readMember read (before ++ quoted ++ after ++ ':' :: text ++ rest) =
      some ((name, value), rest) := by
  have hcolon : skipBlanks (after ++ ':' :: (text ++ rest)) = ':' :: (text ++ rest) := by
    rw [skipBlanks_append hafter, skipBlanks_cons (by decide)]
  have hquoted : skipBlanks (quoted ++ (after ++ ':' :: (text ++ rest))) =
      quoted ++ (after ++ ':' :: (text ++ rest)) := by
    obtain ⟨letters⟩ := hname
    exact skipBlanks_cons (by decide)
  rw [List.append_assoc, List.append_assoc, List.append_assoc, List.cons_append, readMember,
    skipBlanks_append hbefore, hquoted, hname.read, Option.bind_eq_bind, Option.bind_some]
  simp only [hcolon, hread, Option.map_some]

/-- The reader of the phrase takes the text and stops behind it. -/
def Taken : Phrase → List Char → Prop
  | .value value, text => ∀ bound rest, text.length ≤ bound → Stops isNumeric rest →
    readValue bound (text ++ rest) = some (value, rest)
  | .element value, text => ∀ bound rest, text.length ≤ bound → Ends rest →
    readElement (readValue bound) (text ++ rest) = some (value, rest)
  | .elements values, text => ∀ bound rest, text.length ≤ bound → ∀ count, text.length < count →
    readSeparated (readElement (readValue bound)) ']' count (text ++ ']' :: rest) =
      some (values, rest)
  | .member name value, text => ∀ bound rest, text.length ≤ bound → Ends rest →
    readMember (readValue bound) (text ++ rest) = some ((name, value), rest)
  | .members members, text => ∀ bound rest, text.length ≤ bound → ∀ count, text.length < count →
    readSeparated (readMember (readValue bound)) '\x7d' count (text ++ '\x7d' :: rest) =
      some (members, rest)

/-- Every phrase is taken by its reader. -/
theorem Written.read {phrase : Phrase} (h : Written phrase text) : Taken phrase text := by
  induction h with
  | null | yes | no =>
    intro bound rest hbound _
    exact readValue_of_readScalar (by decide) rfl (Nat.lt_of_lt_of_le (by simp) hbound)
  | number h =>
    intro bound rest hbound hrest
    exact readValue_number h hrest hbound
  | string h =>
    intro bound rest hbound _
    exact readValue_string h hbound
  | emptyArray h =>
    intro bound rest hbound _
    exact readValue_array (fun _ _ => readEnclosed_blank h (by decide)) hbound
  | array h ih =>
    intro bound rest hbound _
    exact readValue_array
      (fun inner hinner => readEnclosed_of_opens h.opens (by decide) (ih inner rest hinner))
      hbound
  | emptyObject h =>
    intro bound rest hbound _
    exact readValue_object (fun _ _ => readEnclosed_blank h (by decide)) hbound
  | object h ih =>
    intro bound rest hbound _
    exact readValue_object
      (fun inner hinner => readEnclosed_of_opens h.opens (by decide) (ih inner rest hinner))
      hbound
  | element hbefore hafter h ih =>
    intro bound rest hbound hrest
    simp only [List.length_append] at hbound
    have hvalue := ih bound _ (by omega) (hrest.numeric.blank_append hafter)
    exact readElement_append hbefore hafter h hvalue hrest.blank
  | lastElement h ih =>
    intro bound rest hbound count hcount
    exact readSeparated_last (ih bound _ hbound (ends_cons (by decide) (by decide)))
      (by decide) hcount
  | elements head tail ihhead ihtail =>
    intro bound rest hbound count hcount
    simp only [List.length_append, List.length_cons] at hbound
    exact readSeparated_more (ihhead bound _ (by omega) (ends_cons (by decide) (by decide)))
      (ihtail bound rest (by omega)) hcount
  | member hbefore hname hafter h ih =>
    intro bound rest hbound hrest
    simp only [List.length_append, List.length_cons] at hbound
    exact readMember_append hbefore hname hafter (ih bound rest (by omega) hrest)
  | lastMember h ih =>
    intro bound rest hbound count hcount
    exact readSeparated_last (ih bound _ hbound (ends_cons (by decide) (by decide)))
      (by decide) hcount
  | members head tail ihhead ihtail =>
    intro bound rest hbound count hcount
    simp only [List.length_append, List.length_cons] at hbound
    exact readSeparated_more (ihhead bound _ (by omega) (ends_cons (by decide) (by decide)))
      (ihtail bound rest (by omega)) hcount

/-! ## Whole texts -/

/-- The reader reads the texts of the grammar and no others. -/
theorem read?_eq_some_iff {text : String} : read? text = some value ↔ Denotes text value := by
  constructor
  · intro h
    unfold read? at h
    split at h
    next hread =>
      obtain rfl := Option.some.inj h
      obtain ⟨used, htext, hused⟩ := readElement_takesOnly (readValue_takesOnly _) hread
      rw [List.append_nil] at htext
      rwa [Denotes, htext]
    next => exact absurd h (by simp)
  · intro h
    have hread := Written.read h text.length [] (Nat.le_of_eq String.length_toList) ends_nil
    rw [List.append_nil] at hread
    rw [read?, hread]

/-- A text denotes at most one value. -/
theorem Denotes.unique {text : String} {first second : Json} (hfirst : Denotes text first)
    (hsecond : Denotes text second) : first = second := by
  rw [← read?_eq_some_iff] at hfirst hsecond
  exact Option.some.inj (hfirst.symm.trans hsecond)

end Flick.Json
