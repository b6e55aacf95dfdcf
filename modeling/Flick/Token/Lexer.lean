import Flick.Token
import Flick.Diagnostic

/-!
# From source text to tokens

Lexing reads the source from left to right and never goes back.  At each
position the first rule that applies takes some characters:

* two characters that a reserved symbol spells;
* one character that a reserved symbol spells;
* a run of ASCII digits, or a literal up to its closing delimiter;
* a space, which is one unit of indentation, or at the very start of the
  source nothing at all; a carriage return, which is nothing;
* a bare word, which ends where a blank or a reserved symbol begins.

`Vocabulary.scan` is one such step.  It always takes a character
(`scan_rest_lt`), so `Vocabulary.tokensFrom` repeats it by recursion on
what is left.  `Vocabulary.lex` runs it on a whole source and turns an
open literal into a span of bytes.
-/

namespace Flick

/-- The number of bytes of the characters in UTF-8. -/
def byteLength : List Char → Nat
  | [] => 0
  | c :: rest => c.utf8Size + byteLength rest

/-- The kind of a closed literal's token. -/
def TokenKind.ofLiteral : Literal → TokenKind
  | .string => .string
  | .comment => .comment

namespace Vocabulary

/-! ## One step -/

/-- The reserved symbol at the front of the text, and what follows it.
Two characters take precedence over one. -/
def leadingSymbol? (vocabulary : Vocabulary) : List Char → Option (Symbol × List Char)
  | [] => none
  | [c] => (vocabulary.symbolChar? c).map (·, [])
  | c :: d :: rest =>
    match vocabulary.symbolPair? c d with
    | some symbol => some (symbol, rest)
    | none => (vocabulary.symbolChar? c).map (·, d :: rest)

/-- Whether a bare word ends in front of this text. -/
def endsWord (vocabulary : Vocabulary) (c : Char) (rest : List Char) : Bool :=
  c == ' ' || c == '\t' || c == '\r' || (vocabulary.leadingSymbol? (c :: rest)).isSome

/-- The text up to the end of the word, and the text after it. -/
def splitWord (vocabulary : Vocabulary) : List Char → List Char × List Char
  | [] => ([], [])
  | c :: rest =>
    if vocabulary.endsWord c rest then ([], c :: rest)
    else (c :: (vocabulary.splitWord rest).1, (vocabulary.splitWord rest).2)

/-- Reads on after the opening delimiter of a literal.  The text between
the delimiters is taken as it is: there are no escapes. -/
def scanLiteral (literal : Literal) (rest : List Char) :
    Except Literal (Option Token × List Char) :=
  match rest.dropWhile (· != literal.delimiter) with
  | [] => .error literal
  | _ :: after =>
    let text := String.ofList (rest.takeWhile (· != literal.delimiter))
    .ok (some ⟨.ofLiteral literal, text⟩, after)

/-- Takes the characters of one step from the front of `c :: rest`.  The
answer is the token, if the step makes one, and what is left, or the
literal that is never closed.  `atStart` tells that `c` is the first
character of the source. -/
def scan (vocabulary : Vocabulary) (atStart : Bool) (c : Char) (rest : List Char) :
    Except Literal (Option Token × List Char) :=
  match vocabulary.leadingSymbol? (c :: rest) with
  | some (symbol, after) => .ok (some (.ofSymbol symbol), after)
  | none =>
    if c.isDigit then
      let digits := c :: rest.takeWhile Char.isDigit
      .ok (some ⟨.number, String.ofList digits⟩, rest.dropWhile Char.isDigit)
    else if c == Literal.comment.delimiter then scanLiteral .comment rest
    else if c == Literal.string.delimiter then scanLiteral .string rest
    else if c == ' ' then
      .ok (if atStart then none else some (.ofSymbol .tab), rest)
    else if c == '\r' then .ok (none, rest)
    else
      -- A word keeps its first character even if the vocabulary leaves the tab free.
      let (word, after) := vocabulary.splitWord rest
      .ok (some (.ofWord vocabulary (String.ofList (c :: word))), after)

theorem leadingSymbol?_rest_le {vocabulary : Vocabulary} {c : Char} {rest after : List Char}
    {symbol : Symbol} (h : vocabulary.leadingSymbol? (c :: rest) = some (symbol, after)) :
    after.length ≤ rest.length := by
  cases rest with
  | nil =>
    simp only [leadingSymbol?, Option.map_eq_some_iff, Prod.mk.injEq] at h
    obtain ⟨_, _, _, rfl⟩ := h
    exact Nat.le_refl _
  | cons d rest =>
    simp only [leadingSymbol?] at h
    split at h
    · simp only [Option.some.injEq, Prod.mk.injEq] at h
      obtain ⟨_, rfl⟩ := h
      exact Nat.le_succ _
    · simp only [Option.map_eq_some_iff, Prod.mk.injEq] at h
      obtain ⟨_, _, _, rfl⟩ := h
      exact Nat.le_refl _

theorem splitWord_rest_le (vocabulary : Vocabulary) (chars : List Char) :
    (vocabulary.splitWord chars).2.length ≤ chars.length := by
  induction chars with
  | nil => exact Nat.le_refl _
  | cons c rest ih =>
    rw [splitWord]
    split
    · exact Nat.le_refl _
    · exact Nat.le_succ_of_le ih

theorem scanLiteral_rest_le {literal : Literal} {rest after : List Char} {token : Option Token}
    (h : scanLiteral literal rest = .ok (token, after)) : after.length ≤ rest.length := by
  have hle : (rest.dropWhile (· != literal.delimiter)).length ≤ rest.length :=
    (List.dropWhile_sublist _).length_le
  simp only [scanLiteral] at h
  split at h
  · exact absurd h (by simp)
  next heq =>
    rw [heq, List.length_cons] at hle
    simp only [Except.ok.injEq, Prod.mk.injEq] at h
    rw [← h.2]
    omega

/-- A step takes at least one character. -/
theorem scan_rest_lt {vocabulary : Vocabulary} {atStart : Bool} {c : Char}
    {rest after : List Char} {token : Option Token}
    (h : vocabulary.scan atStart c rest = .ok (token, after)) :
    after.length < (c :: rest).length := by
  have hle : after.length ≤ rest.length := by
    simp only [scan] at h
    split at h
    next heq =>
      simp only [Except.ok.injEq, Prod.mk.injEq] at h
      exact h.2 ▸ leadingSymbol?_rest_le heq
    split at h
    · simp only [Except.ok.injEq, Prod.mk.injEq] at h
      exact h.2 ▸ (List.dropWhile_sublist _).length_le
    split at h
    · exact scanLiteral_rest_le h
    split at h
    · exact scanLiteral_rest_le h
    split at h
    · simp only [Except.ok.injEq, Prod.mk.injEq] at h
      exact h.2 ▸ Nat.le_refl _
    split at h
    · simp only [Except.ok.injEq, Prod.mk.injEq] at h
      exact h.2 ▸ Nat.le_refl _
    · simp only [Except.ok.injEq, Prod.mk.injEq] at h
      exact h.2 ▸ splitWord_rest_le _ _
  exact Nat.lt_succ_of_le hle

/-! ## All steps -/

/-- An open literal, and the text from its opening delimiter to the end. -/
structure OpenLiteral where
  literal : Literal
  tail : List Char

/-- The tokens of the text, or the literal in it that is never closed. -/
def tokensFrom (vocabulary : Vocabulary) (atStart : Bool) :
    List Char → Except OpenLiteral (List Token)
  | [] => .ok [.endOfInput]
  | c :: rest =>
    match _h : vocabulary.scan atStart c rest with
    | .error literal => .error ⟨literal, c :: rest⟩
    | .ok (token, after) =>
      match vocabulary.tokensFrom false after with
      | .error unclosed => .error unclosed
      | .ok tokens => .ok (token.toList ++ tokens)
termination_by chars => chars.length
decreasing_by exact scan_rest_lt _h

/-- The span of an open literal in the source that it is the tail of. -/
def OpenLiteral.span (unclosed : OpenLiteral) (source : List Char) : UnterminatedLiteral where
  literal := unclosed.literal
  offset := byteLength source - byteLength unclosed.tail
  length := byteLength unclosed.tail

/-- The tokens of a source text.  The last one is `Token.endOfInput`. -/
def lex (vocabulary : Vocabulary) (source : String) :
    Except UnterminatedLiteral (List Token) :=
  match vocabulary.tokensFrom true source.toList with
  | .ok tokens => .ok tokens
  | .error unclosed => .error (unclosed.span source.toList)

end Vocabulary

/-- The tokens of a source text in the standard vocabulary. -/
def lex (source : String) : Except UnterminatedLiteral (List Token) :=
  Vocabulary.standard.lex source

end Flick
