import Flick.Proofs.Json
import Mathlib.Data.List.Basic
import Mathlib.Data.List.TakeWhile

/-!
# A reader of JSON

`Json.read?` reads a value off a text.  It is made of readers that each take
a text and give what they read with the text behind it.  Only `readValue`
and the two readers of lists repeat themselves.  Their `bound` says how
often, and the length of the text is always enough.

Whatever a reader takes off a text is a phrase of the grammar
(`readValue_takesOnly`).  `Flick.Proofs.Json.Unambiguity` has the converse.
-/

namespace Flick.Json

/-! ## The readers -/

/-- The text behind the blanks in front of it. -/
def skipBlanks (text : List Char) : List Char := text.dropWhile isBlank

/-- Reads four hexadecimal digits. -/
def readUnit (text : List Char) : Option (Nat × List Char) :=
  (unit? (text.take 4)).map (·, text.drop 4)

/-- Reads the second half of a pair. -/
def readPaired (high : Nat) : List Char → Option (Char × List Char)
  | '\\' :: 'u' :: text => do
    let (low, text) ← readUnit text
    return (← paired? high low, text)
  | _ => none

/-- Reads one character of a string. -/
def readLetter : List Char → Option (Char × List Char)
  | [] => none
  | '\\' :: 'u' :: text => do
    let (code, text) ← readUnit text
    match single? code with
    | some c => return (c, text)
    | none => readPaired code text
  | '\\' :: mark :: text => (named? mark).map (·, text)
  | c :: text => if isPlain c then some (c, text) else none

/-- Reads the characters of a string up to and with the closing quote. -/
def readLetters : (bound : Nat) → List Char → Option (List Char × List Char)
  | 0, _ => none
  | _ + 1, '\x22' :: text => some ([], text)
  | bound + 1, text => do
    let (c, text) ← readLetter text
    let (value, text) ← readLetters bound text
    return (c :: value, text)

/-- Reads a string. -/
def readString : List Char → Option (String × List Char)
  | '\x22' :: text => (readLetters text.length text).map fun (value, text) => (.ofList value, text)
  | _ => none

/-- The characters that numbers are made of. -/
def isNumeric (c : Char) : Bool := c.isDigit || c ∈ ['-', '+', '.', 'e', 'E']

/-- Reads a number.  It reaches as far as there are characters of numbers. -/
def readNumber (text : List Char) : Option (Json × List Char) :=
  let number := text.takeWhile isNumeric
  if isNumber number then some (.number (.ofList number), text.dropWhile isNumeric) else none

/-- Reads one of the three names, or a number. -/
def readScalar : List Char → Option (Json × List Char)
  | 'n' :: 'u' :: 'l' :: 'l' :: text => some (.null, text)
  | 't' :: 'r' :: 'u' :: 'e' :: text => some (.bool true, text)
  | 'f' :: 'a' :: 'l' :: 's' :: 'e' :: text => some (.bool false, text)
  | text => readNumber text

/-- Reads a value with the blanks on both sides, where `read` reads values. -/
def readElement (read : List Char → Option (Json × List Char)) (text : List Char) :
    Option (Json × List Char) :=
  (read (skipBlanks text)).map fun (value, text) => (value, skipBlanks text)

/-- Reads a member, where `read` reads values. -/
def readMember (read : List Char → Option (Json × List Char)) (text : List Char) :
    Option ((String × Json) × List Char) := do
  let (name, text) ← readString (skipBlanks text)
  match skipBlanks text with
  | ':' :: text => (readElement read text).map fun (value, text) => ((name, value), text)
  | _ => none

/-- Reads parts with commas between them, up to and with the closing mark. -/
def readSeparated {α : Type} (read : List Char → Option (α × List Char)) (closing : Char) :
    (bound : Nat) → List Char → Option (List α × List Char)
  | 0, _ => none
  | bound + 1, text => do
    match ← read text with
    | (part, ',' :: text) =>
      let (parts, text) ← readSeparated read closing bound text
      return (part :: parts, text)
    | (part, c :: text) => if c = closing then some ([part], text) else none
    | (_, []) => none

/-- Reads what stands between an opening mark and the closing one. -/
def readEnclosed {α : Type} (read : List Char → Option (α × List Char)) (closing : Char)
    (text : List Char) : Option (List α × List Char) :=
  if (skipBlanks text).head? = some closing then some ([], (skipBlanks text).tail)
  else readSeparated read closing text.length text

/-- Reads a value. -/
def readValue : (bound : Nat) → List Char → Option (Json × List Char)
  | 0, _ | _ + 1, [] => none
  | bound + 1, c :: text =>
    if c = '[' then
      (readEnclosed (readElement (readValue bound)) ']' text).map fun (values, text) =>
        (.array values, text)
    else if c = '\x7b' then
      (readEnclosed (readMember (readValue bound)) '\x7d' text).map fun (members, text) =>
        (.object members, text)
    else if c = '\x22' then
      (readString (c :: text)).map fun (value, text) => (.string value, text)
    else readScalar (c :: text)

/-- The value that a text denotes. -/
def read? (text : String) : Option Json :=
  match readElement (readValue text.length) text.toList with
  | some (value, []) => some value
  | _ => none

/-! ## What the readers take is spelled right -/

/-- Whatever the reader takes off a text spells what it gives. -/
def TakesOnly {α : Type} (read : List Char → Option (α × List Char))
    (Spells : α → List Char → Prop) : Prop :=
  ∀ ⦃text : List Char⦄ ⦃part : α⦄ ⦃rest : List Char⦄, read text = some (part, rest) →
    ∃ used, text = used ++ rest ∧ Spells part used

theorem exists_blank_of_skipBlanks (text : List Char) :
    ∃ blanks, Blank blanks ∧ text = blanks ++ skipBlanks text :=
  ⟨text.takeWhile isBlank, fun _ => List.mem_takeWhile_imp,
    List.takeWhile_append_dropWhile.symm⟩

theorem readUnit_takesOnly : TakesOnly readUnit fun code digits => unit? digits = some code := by
  intro text code rest h
  simp only [readUnit, Option.map_eq_some_iff, Prod.mk.injEq] at h
  obtain ⟨_, hcode, rfl, rfl⟩ := h
  exact ⟨text.take 4, (List.take_append_drop 4 text).symm, hcode⟩

theorem readPaired_takesOnly (high : Nat) :
    TakesOnly (readPaired high) fun c text =>
      ∃ digits low, text = '\\' :: 'u' :: digits ∧ unit? digits = some low ∧
        paired? high low = some c := by
  intro text c rest h
  unfold readPaired at h
  split at h
  next text =>
    rw [Option.bind_eq_bind, Option.bind_eq_some_iff] at h
    obtain ⟨⟨low, after⟩, hunit, h⟩ := h
    rw [Option.bind_eq_bind, Option.bind_eq_some_iff] at h
    obtain ⟨c, hpaired, h⟩ := h
    simp only [Option.pure_def, Option.some.injEq, Prod.mk.injEq] at h
    obtain ⟨rfl, rfl⟩ := h
    obtain ⟨digits, rfl, hlow⟩ := readUnit_takesOnly hunit
    exact ⟨_, rfl, digits, low, rfl, hlow, hpaired⟩
  next => exact absurd h (by simp)

theorem readLetter_takesOnly : TakesOnly readLetter Letter := by
  intro text c rest h
  unfold readLetter at h
  split at h
  case h_1 => exact absurd h (by simp)
  case h_2 text =>
    rw [Option.bind_eq_bind, Option.bind_eq_some_iff] at h
    obtain ⟨⟨code, after⟩, hunit, h⟩ := h
    obtain ⟨digits, rfl, hcode⟩ := readUnit_takesOnly hunit
    simp only at h
    split at h
    next c hsingle =>
      simp only [Option.pure_def, Option.some.injEq, Prod.mk.injEq] at h
      obtain ⟨rfl, rfl⟩ := h
      exact ⟨_, rfl, .coded hcode hsingle⟩
    next =>
      obtain ⟨_, rfl, second, low, rfl, hlow, hpaired⟩ := readPaired_takesOnly code h
      exact ⟨_, by simp, .paired hcode hlow hpaired⟩
  case h_3 mark text _ =>
    simp only [Option.map_eq_some_iff, Prod.mk.injEq] at h
    obtain ⟨_, hnamed, rfl, rfl⟩ := h
    exact ⟨_, rfl, .named hnamed⟩
  case h_4 c text _ _ =>
    split at h
    next hplain =>
      simp only [Option.some.injEq, Prod.mk.injEq] at h
      obtain ⟨rfl, rfl⟩ := h
      exact ⟨_, rfl, .plain hplain⟩
    next => exact absurd h (by simp)

theorem exists_letters_of_readLetters {bound : Nat} {text value rest : List Char}
    (h : readLetters bound text = some (value, rest)) :
    ∃ used, text = used ++ '\x22' :: rest ∧ Letters value used := by
  fun_induction readLetters bound text generalizing value with
  | case1 => exact absurd h (by simp)
  | case2 _ text =>
    simp only [Option.some.injEq, Prod.mk.injEq] at h
    obtain ⟨rfl, rfl⟩ := h
    exact ⟨[], rfl, .nil⟩
  | case3 bound text hquote ih =>
    rw [Option.bind_eq_bind, Option.bind_eq_some_iff] at h
    obtain ⟨⟨c, middle⟩, hletter, h⟩ := h
    rw [Option.bind_eq_bind, Option.bind_eq_some_iff] at h
    obtain ⟨⟨letters, after⟩, hletters, h⟩ := h
    simp only [Option.pure_def, Option.some.injEq, Prod.mk.injEq] at h
    obtain ⟨rfl, rfl⟩ := h
    obtain ⟨letter, rfl, hc⟩ := readLetter_takesOnly hletter
    obtain ⟨used, rfl, hused⟩ := ih _ hletters
    exact ⟨letter ++ used, by simp, .cons hc hused⟩

theorem readString_takesOnly : TakesOnly readString Quoted := by
  intro text value rest h
  unfold readString at h
  split at h
  next text =>
    simp only [Option.map_eq_some_iff, Prod.mk.injEq] at h
    obtain ⟨⟨letters, _⟩, hletters, rfl, rfl⟩ := h
    obtain ⟨used, rfl, hused⟩ := exists_letters_of_readLetters hletters
    exact ⟨'\x22' :: (used ++ ['\x22']), by simp, .intro (by simpa using hused)⟩
  next => exact absurd h (by simp)

theorem readNumber_takesOnly : TakesOnly readNumber fun value => Written (.value value) := by
  intro text value rest h
  simp only [readNumber] at h
  split at h
  next hnumber =>
    simp only [Option.some.injEq, Prod.mk.injEq] at h
    obtain ⟨rfl, rfl⟩ := h
    exact ⟨_, List.takeWhile_append_dropWhile.symm, .number hnumber⟩
  next => exact absurd h (by simp)

theorem readScalar_takesOnly : TakesOnly readScalar fun value => Written (.value value) := by
  intro text value rest h
  unfold readScalar at h
  split at h
  case h_4 => exact readNumber_takesOnly h
  all_goals
    simp only [Option.some.injEq, Prod.mk.injEq] at h
    obtain ⟨rfl, rfl⟩ := h
  · exact ⟨_, rfl, .null⟩
  · exact ⟨_, rfl, .yes⟩
  · exact ⟨_, rfl, .no⟩

section Parts

variable {read : List Char → Option (Json × List Char)}

theorem readElement_takesOnly (hread : TakesOnly read fun value => Written (.value value)) :
    TakesOnly (readElement read) fun value => Written (.element value) := by
  intro text value rest h
  simp only [readElement, Option.map_eq_some_iff, Prod.mk.injEq] at h
  obtain ⟨⟨_, middle⟩, hvalue, rfl, rfl⟩ := h
  obtain ⟨before, hbefore, htext⟩ := exists_blank_of_skipBlanks text
  obtain ⟨used, hused, hwritten⟩ := hread hvalue
  obtain ⟨after, hafter, hmiddle⟩ := exists_blank_of_skipBlanks middle
  refine ⟨before ++ used ++ after, ?_, .element hbefore hafter hwritten⟩
  rw [htext, hused, List.append_assoc, List.append_assoc, ← hmiddle]

theorem readMember_takesOnly (hread : TakesOnly read fun value => Written (.value value)) :
    TakesOnly (readMember read) fun member => Written (.member member.1 member.2) := by
  intro text member rest h
  rw [readMember, Option.bind_eq_bind, Option.bind_eq_some_iff] at h
  obtain ⟨⟨name, middle⟩, hname, h⟩ := h
  obtain ⟨before, hbefore, htext⟩ := exists_blank_of_skipBlanks text
  obtain ⟨quoted, hquoted, hname⟩ := readString_takesOnly hname
  obtain ⟨after, hafter, hmiddle⟩ := exists_blank_of_skipBlanks middle
  simp only at h
  split at h
  next colon hcolon =>
    simp only [Option.map_eq_some_iff, Prod.mk.injEq] at h
    obtain ⟨⟨value, _⟩, hvalue, rfl, rfl⟩ := h
    obtain ⟨used, hused, hwritten⟩ := readElement_takesOnly hread hvalue
    refine ⟨before ++ quoted ++ after ++ ':' :: used, ?_, .member hbefore hname hafter hwritten⟩
    rw [htext, hquoted, hmiddle, hcolon, hused]
    simp
  next => exact absurd h (by simp)

end Parts

section Separated

variable {α : Type} {read : List Char → Option (α × List Char)} {closing : Char}
  {One : α → List Char → Prop} {Many : List α → List Char → Prop} {bound : Nat}
  {part : α} {parts : List α} {text rest : List Char}

theorem exists_of_readSeparated (hsep : Separated One Many) (hread : TakesOnly read One)
    (h : readSeparated read closing bound text = some (parts, rest)) :
    ∃ used, text = used ++ closing :: rest ∧ Many parts used := by
  induction bound generalizing text parts with
  | zero => exact absurd h (by simp [readSeparated])
  | succ bound ih =>
    rw [readSeparated, Option.bind_eq_bind, Option.bind_eq_some_iff] at h
    obtain ⟨⟨part, after⟩, hpart, h⟩ := h
    obtain ⟨used, rfl, hused⟩ := hread hpart
    simp only at h
    split at h
    next heq =>
      simp only [Prod.mk.injEq] at heq
      obtain ⟨rfl, rfl⟩ := heq
      rw [Option.bind_eq_bind, Option.bind_eq_some_iff] at h
      obtain ⟨⟨others, _⟩, hothers, h⟩ := h
      simp only [Option.pure_def, Option.some.injEq, Prod.mk.injEq] at h
      obtain ⟨rfl, rfl⟩ := h
      obtain ⟨texts, rfl, htexts⟩ := ih hothers
      exact ⟨used ++ ',' :: texts, by simp, hsep.more hused htexts⟩
    next heq =>
      simp only [Prod.mk.injEq] at heq
      obtain ⟨rfl, rfl⟩ := heq
      split at h
      next hclosing =>
        simp only [Option.some.injEq, Prod.mk.injEq] at h
        obtain ⟨rfl, rfl⟩ := h
        exact ⟨used, by rw [hclosing], hsep.last hused⟩
      next => exact absurd h (by simp)
    next => exact absurd h (by simp)

theorem exists_of_readEnclosed (hsep : Separated One Many) (hread : TakesOnly read One)
    (h : readEnclosed read closing text = some (parts, rest)) :
    ∃ used, text = used ++ closing :: rest ∧ (Blank used ∧ parts = [] ∨ Many parts used) := by
  rw [readEnclosed] at h
  split at h
  next hclosing =>
    simp only [Option.some.injEq, Prod.mk.injEq] at h
    obtain ⟨rfl, rfl⟩ := h
    obtain ⟨blanks, hblanks, htext⟩ := exists_blank_of_skipBlanks text
    refine ⟨blanks, ?_, .inl ⟨hblanks, rfl⟩⟩
    rw [List.cons_head?_tail (by simpa using hclosing), ← htext]
  next =>
    obtain ⟨used, htext, hused⟩ := exists_of_readSeparated hsep hread h
    exact ⟨used, htext, .inr hused⟩

end Separated

theorem readValue_takesOnly (bound : Nat) :
    TakesOnly (readValue bound) fun value => Written (.value value) := by
  induction bound with
  | zero => intro text value rest h; exact absurd h (by simp [readValue])
  | succ bound ih =>
    intro text value rest h
    cases text with
    | nil => exact absurd h (by simp [readValue])
    | cons c text =>
      rw [readValue] at h
      split at h
      next hc =>
        subst hc
        simp only [Option.map_eq_some_iff, Prod.mk.injEq] at h
        obtain ⟨⟨values, _⟩, hvalues, rfl, rfl⟩ := h
        obtain ⟨used, rfl, ⟨hblank, rfl⟩ | hused⟩ :=
          exists_of_readEnclosed separated_elements (readElement_takesOnly ih) hvalues
        · exact ⟨_, by simp, .emptyArray hblank⟩
        · exact ⟨_, by simp, .array hused⟩
      split at h
      next hc =>
        subst hc
        simp only [Option.map_eq_some_iff, Prod.mk.injEq] at h
        obtain ⟨⟨members, _⟩, hmembers, rfl, rfl⟩ := h
        obtain ⟨used, rfl, ⟨hblank, rfl⟩ | hused⟩ :=
          exists_of_readEnclosed separated_members (readMember_takesOnly ih) hmembers
        · exact ⟨_, by simp, .emptyObject hblank⟩
        · exact ⟨_, by simp, .object hused⟩
      split at h
      next =>
        simp only [Option.map_eq_some_iff, Prod.mk.injEq] at h
        obtain ⟨⟨value, _⟩, hvalue, rfl, rfl⟩ := h
        obtain ⟨used, htext, hused⟩ := readString_takesOnly hvalue
        exact ⟨used, htext, .string hused⟩
      next => exact readScalar_takesOnly h

end Flick.Json
