/-!
# JSON values and their texts

The grammar of JSON over characters, all of it: what a reader of JSON may
be given, not only what the printer of trees writes.  `Letter` spells one
character of a string, `Letters` and `Quoted` a whole string, and `isNumber`
tells which texts are numbers.  `Written` puts them together.  It relates a
`Phrase` to the texts that spell it, with one rule for each alternative of
the grammar.  `Denotes` is the case of a whole text.  `Separated` is what
arrays and objects have in common.

A value keeps what its text determines.  Numbers stay as they are written,
and the members of an object stay in their order.
-/

namespace Flick

/-- A JSON value. -/
inductive Json where
  | null
  | bool (value : Bool)
  | number (text : String)
  | string (value : String)
  | array (values : List Json)
  | object (members : List (String × Json))

namespace Json

/-- The blanks that may stand around values and marks. -/
def isBlank (c : Char) : Bool := c ∈ [' ', '\t', '\n', '\r']

/-- A text of blanks only. -/
def Blank (text : List Char) : Prop := ∀ c ∈ text, isBlank c = true

theorem blank_nil : Blank [] := by simp [Blank]

/-! ## Strings -/

/-- The characters that stand for themselves in a string. -/
def isPlain (c : Char) : Bool := 0x20 ≤ c.toNat && c ≠ '\x22' && c ≠ '\\'

/-- The character that a backslash and a letter or mark stand for. -/
def named? : Char → Option Char
  | '\x22' => some '\x22'
  | '\\' => some '\\'
  | '/' => some '/'
  | 'b' => some '\x08'
  | 'f' => some '\x0c'
  | 'n' => some '\n'
  | 'r' => some '\r'
  | 't' => some '\t'
  | _ => none

/-- The value of a hexadecimal digit of either case. -/
def hexDigit? (c : Char) : Option Nat :=
  if c.isDigit then some (c.toNat - '0'.toNat)
  else if 'a' ≤ c ∧ c ≤ 'f' then some (c.toNat - 'a'.toNat + 10)
  else if 'A' ≤ c ∧ c ≤ 'F' then some (c.toNat - 'A'.toNat + 10)
  else none

/-- The number that four hexadecimal digits write. -/
def unit? : List Char → Option Nat
  | [a, b, c, d] => do
    return (((← hexDigit? a) * 16 + (← hexDigit? b)) * 16 + (← hexDigit? c)) * 16 + (← hexDigit? d)
  | _ => none

/-- The character of a code point.  The two halves of a pair are none. -/
def single? (code : Nat) : Option Char :=
  if code.isValidChar then some (Char.ofNat code) else none

/-- The character beyond the first 65536 that two halves make. -/
def paired? (high low : Nat) : Option Char :=
  if 0xd800 ≤ high ∧ high < 0xdc00 ∧ 0xdc00 ≤ low ∧ low < 0xe000 then
    some (Char.ofNat (0x10000 + (high - 0xd800) * 0x400 + (low - 0xdc00)))
  else none

/-- The spellings of one character in a string. -/
inductive Letter : Char → List Char → Prop
  | plain {c : Char} (h : isPlain c = true) : Letter c [c]
  | named {c mark : Char} (h : named? mark = some c) : Letter c ['\\', mark]
  | coded {c : Char} {digits : List Char} {code : Nat} (hcode : unit? digits = some code)
      (h : single? code = some c) : Letter c ('\\' :: 'u' :: digits)
  | paired {c : Char} {first second : List Char} {high low : Nat}
      (hhigh : unit? first = some high) (hlow : unit? second = some low)
      (h : paired? high low = some c) :
      Letter c ('\\' :: 'u' :: (first ++ '\\' :: 'u' :: second))

/-- The spellings of several characters, one after the other. -/
inductive Letters : List Char → List Char → Prop
  | nil : Letters [] []
  | cons {c : Char} {letter value text : List Char} (head : Letter c letter)
      (tail : Letters value text) : Letters (c :: value) (letter ++ text)

/-- A string between its quotes. -/
inductive Quoted : String → List Char → Prop
  | intro {value : String} {text : List Char} (letters : Letters value.toList text) :
      Quoted value ('\x22' :: (text ++ ['\x22']))

/-! ## Numbers -/

/-- The text without the mark in front of it, if one of `marks` stands there. -/
def afterMark (marks : List Char) : List Char → List Char
  | [] => []
  | c :: text => if c ∈ marks then text else c :: text

/-- One digit or more. -/
def isDigits (text : List Char) : Bool := !text.isEmpty && text.all Char.isDigit

/-- What may follow the fraction: nothing, or a mark, a sign if there is
one, and digits. -/
def isExponent : List Char → Bool
  | [] => true
  | mark :: text => mark ∈ ['e', 'E'] && isDigits (afterMark ['+', '-'] text)

/-- What may follow the whole part: a point and digits if there are any,
and an exponent. -/
def isFraction : List Char → Bool
  | '.' :: text =>
    isDigits (text.takeWhile Char.isDigit) && isExponent (text.dropWhile Char.isDigit)
  | text => isExponent text

/-- A number without its sign.  A whole part of several digits does not
begin with a zero. -/
def isUnsigned : List Char → Bool
  | [] => false
  | '0' :: text => isFraction text
  | c :: text => c.isDigit && isFraction (text.dropWhile Char.isDigit)

/-- A number: a minus if there is one, and an unsigned number. -/
def isNumber (text : List Char) : Bool := isUnsigned (afterMark ['-'] text)

/-! ## Values -/

/-- What the rules of the grammar spell. -/
inductive Phrase where
  | value (value : Json)
  /-- A value and the blanks on both sides. -/
  | element (value : Json)
  /-- One element or more, with commas between them. -/
  | elements (values : List Json)
  | member (name : String) (value : Json)
  /-- One member or more, with commas between them. -/
  | members (members : List (String × Json))

/-- The grammar of JSON: the phrase is spelled by the text. -/
inductive Written : Phrase → List Char → Prop
  | null : Written (.value .null) ['n', 'u', 'l', 'l']
  | yes : Written (.value (.bool true)) ['t', 'r', 'u', 'e']
  | no : Written (.value (.bool false)) ['f', 'a', 'l', 's', 'e']
  | number {text : List Char} (h : isNumber text = true) :
      Written (.value (.number (String.ofList text))) text
  | string {value : String} {text : List Char} (h : Quoted value text) :
      Written (.value (.string value)) text
  | emptyArray {blanks : List Char} (h : Blank blanks) :
      Written (.value (.array [])) ('[' :: (blanks ++ [']']))
  | array {values : List Json} {text : List Char} (h : Written (.elements values) text) :
      Written (.value (.array values)) ('[' :: (text ++ [']']))
  | emptyObject {blanks : List Char} (h : Blank blanks) :
      Written (.value (.object [])) ('\x7b' :: (blanks ++ ['\x7d']))
  | object {members : List (String × Json)} {text : List Char}
      (h : Written (.members members) text) :
      Written (.value (.object members)) ('\x7b' :: (text ++ ['\x7d']))
  | element {value : Json} {before text after : List Char} (hbefore : Blank before)
      (hafter : Blank after) (h : Written (.value value) text) :
      Written (.element value) (before ++ text ++ after)
  | lastElement {value : Json} {text : List Char} (h : Written (.element value) text) :
      Written (.elements [value]) text
  | elements {value : Json} {values : List Json} {text texts : List Char}
      (head : Written (.element value) text) (tail : Written (.elements values) texts) :
      Written (.elements (value :: values)) (text ++ ',' :: texts)
  | member {name : String} {value : Json} {before quoted after text : List Char}
      (hbefore : Blank before) (hname : Quoted name quoted) (hafter : Blank after)
      (h : Written (.element value) text) :
      Written (.member name value) (before ++ quoted ++ after ++ ':' :: text)
  | lastMember {name : String} {value : Json} {text : List Char}
      (h : Written (.member name value) text) : Written (.members [(name, value)]) text
  | members {name : String} {value : Json} {members : List (String × Json)}
      {text texts : List Char} (head : Written (.member name value) text)
      (tail : Written (.members members) texts) :
      Written (.members ((name, value) :: members)) (text ++ ',' :: texts)

/-- The text is JSON, and the value is what it says. -/
def Denotes (text : String) (value : Json) : Prop := Written (.element value) text.toList

/-! ## Lists -/

/-- The texts of a list whose parts have commas between them. -/
structure Separated {α : Type} (One : α → List Char → Prop) (Many : List α → List Char → Prop) :
    Prop where
  last : ∀ {part : α} {text : List Char}, One part text → Many [part] text
  more : ∀ {part : α} {parts : List α} {text texts : List Char}, One part text →
    Many parts texts → Many (part :: parts) (text ++ ',' :: texts)

theorem separated_elements :
    Separated (fun value => Written (.element value)) fun values => Written (.elements values) where
  last := .lastElement
  more := .elements

theorem separated_members :
    Separated (fun member : String × Json => Written (.member member.1 member.2))
      fun members => Written (.members members) where
  last := .lastMember
  more := .members

end Json

end Flick
