import Flick.Proofs.Calls.Adequacy
import Mathlib.Data.List.Forall2

/-!
# Other texts

The parser looks at the kinds of tokens.  Of their texts it asks one thing:
whether an identifier is an operator.  All else that it does with a text is
to copy it into the tree or into an error.

A `Renaming` has one map of texts for each kind of token, and the one for
identifiers keeps operators apart from other names.  To rename the tokens
before parsing is to rename the program or the error that comes out
(`parse_map_rename`).  The lemmas go through the lookaheads, the readings
and the calls of a run, each time in one direction only, since a token list
either parses or fails.

So the shape of a tree is a matter of kinds and operators.  Two token lists
that agree in these have one list in common to which they can be renamed
(`Renaming.plain`), and their trees differ in texts alone.
-/

namespace Flick

open Layout

/-- One map of texts for each kind of token.  An identifier is renamed to an
operator exactly if it is one. -/
structure Renaming where
  text : TokenKind → String → String
  operator_iff : ∀ name, text .ident name ∈ prefixOperators ↔ name ∈ prefixOperators

/-! ## What is renamed -/

/-- The token with the text that its kind's map gives it. -/
def Token.rename (texts : TokenKind → String → String) (token : Token) : Token :=
  { token with text := texts token.kind token.text }

namespace Node

mutual

/-- The tree with other texts.  The names of assignments and operators are
texts of identifiers. -/
def rename (texts : TokenKind → String → String) : Node → Node
  | .leaf kind text => .leaf kind (texts kind.tokenKind text)
  | .group form body => .group form (renameAll texts body)
  | .assignment name body => .assignment (texts .ident name) (renameAll texts body)
  | .conditional condition body =>
    .conditional (renameAll texts condition) (renameAll texts body)
  | .operator symbol operand => .operator (texts .ident symbol) (operand.rename texts)

/-- The trees with other texts. -/
def renameAll (texts : TokenKind → String → String) : List Node → List Node
  | [] => []
  | node :: nodes => node.rename texts :: renameAll texts nodes

end

theorem renameAll_append (texts : TokenKind → String → String) (first second : List Node) :
    renameAll texts (first ++ second) = renameAll texts first ++ renameAll texts second := by
  induction first with
  | nil => rfl
  | cons node first ih => simp [renameAll, ih]

mutual

/-- To rename twice is to rename by both maps at once. -/
theorem rename_rename (first second : TokenKind → String → String) :
    (node : Node) → (node.rename first).rename second =
      node.rename fun kind text => second kind (first kind text)
  | .leaf .. => by simp only [rename]
  | .group _ body | .assignment _ body => by
    simp only [rename, renameAll_renameAll first second body]
  | .conditional condition body => by
    simp only [rename, renameAll_renameAll first second condition,
      renameAll_renameAll first second body]
  | .operator _ operand => by simp only [rename, rename_rename first second operand]

theorem renameAll_renameAll (first second : TokenKind → String → String) :
    (nodes : List Node) → renameAll second (renameAll first nodes) =
      renameAll (fun kind text => second kind (first kind text)) nodes
  | [] => rfl
  | node :: nodes => by
    simp only [renameAll, rename_rename first second node, renameAll_renameAll first second nodes]

end

end Node

/-- The program with other texts. -/
def Program.rename (texts : TokenKind → String → String) (program : Program) : Program where
  body := Node.renameAll texts program.body

/-- The error with another text for its operator. -/
def ParseError.rename (texts : TokenKind → String → String) : ParseError → ParseError
  | .missingOperand operator => .missingOperand (texts .ident operator)
  | .unexpectedEnd construct => .unexpectedEnd construct
  | .nestingTooDeep construct => .nestingTooDeep construct

/-- What a token list parses to, with other texts. -/
def renameOutcome (texts : TokenKind → String → String)
    (outcome : Except ParseError Program) : Except ParseError Program :=
  (outcome.map (.rename texts)).mapError (.rename texts)

theorem renameOutcome_renameOutcome (first second : TokenKind → String → String)
    (outcome : Except ParseError Program) :
    renameOutcome second (renameOutcome first outcome) =
      renameOutcome (fun kind text => second kind (first kind text)) outcome := by
  cases outcome with
  | ok program =>
    have hbody := Node.renameAll_renameAll first second program.body
    exact congrArg (fun body => Except.ok (Program.mk body)) hbody
  | error error => cases error <;> rfl

/-! ## Lookaheads -/

section Lookahead

variable {texts : TokenKind → String → String} {token : Token} {tokens rest : List Token}

@[simp] theorem Token.kind_rename : (token.rename texts).kind = token.kind := rfl

theorem Token.text_rename (texts : TokenKind → String → String) {kind : TokenKind}
    (h : token.kind = kind) : (token.rename texts).text = texts kind token.text := by
  rw [rename, h]

namespace Layout

@[simp] theorem startsWith_rename (kind : TokenKind) :
    startsWith kind (tokens.map (.rename texts)) = startsWith kind tokens := by
  cases tokens <;> rfl

@[simp] theorem atEnd_rename : atEnd (tokens.map (.rename texts)) = atEnd tokens := by
  cases tokens <;> rfl

/-- A scan over kinds stops at the same place. -/
theorem dropWhile_rename (passes : TokenKind → Bool) :
    (tokens.map (Token.rename texts)).dropWhile (passes ·.kind) =
      (tokens.dropWhile (passes ·.kind)).map (Token.rename texts) := by
  simp [List.dropWhile_map, Function.comp_def]

theorem afterTabs_rename :
    afterTabs (tokens.map (.rename texts)) = (afterTabs tokens).map (.rename texts) :=
  dropWhile_rename (· == .tab)

theorem afterNewlines_rename :
    afterNewlines (tokens.map (.rename texts)) = (afterNewlines tokens).map (.rename texts) :=
  dropWhile_rename (· == .newline)

theorem afterTrivia_rename :
    afterTrivia (tokens.map (.rename texts)) = (afterTrivia tokens).map (.rename texts) :=
  dropWhile_rename TokenKind.isTrivia

theorem nextLine_rename (width : Nat) :
    nextLine width (tokens.map (.rename texts)) =
      ((nextLine width tokens).1, (nextLine width tokens).2.map (.rename texts)) := by
  induction tokens generalizing width with
  | nil => rfl
  | cons token rest ih =>
    rw [List.map_cons, nextLine, nextLine, Token.kind_rename]
    split
    · exact ih (width + 1)
    split
    · exact ih 0
    · rfl

theorem continuation?_rename (width : Nat) :
    continuation? width (tokens.map (.rename texts)) =
      (continuation? width tokens).map (List.map (.rename texts)) := by
  simp only [continuation?, startsWith_rename, nextLine_rename, atEnd_rename]
  split
  · split <;> rfl
  · rfl

end Layout

@[simp] theorem assigns_rename :
    Parser.assigns (tokens.map (.rename texts)) = Parser.assigns tokens := by
  rw [Parser.assigns, Parser.assigns, afterTabs_rename, startsWith_rename]

variable (naming : Renaming)

theorem Renaming.token_operator_iff (hkind : token.kind = .ident) :
    (token.rename naming.text).text ∈ prefixOperators ↔ token.text ∈ prefixOperators := by
  rw [Token.text_rename naming.text hkind]
  exact naming.operator_iff token.text

theorem opened?_rename :
    opened? (token.rename naming.text) (rest.map (.rename naming.text)) =
      opened? token rest := by
  simp only [opened?, Token.kind_rename, assigns_rename]
  split
  case h_6 hkind =>
    simp only [List.contains_iff_mem, naming.token_operator_iff hkind]
  all_goals rfl

end Lookahead

/-! ## Readings -/

section Runs

variable {limit : Nat} {tokens : List Token} (naming : Renaming)

/-- What is read from the tokens is read from the renamed ones, with the new
texts. -/
theorem Reads.rename {mode : Mode} {context : Context} {after : List Token} {nodes : List Node}
    (h : Reads limit mode context tokens nodes after) :
    Reads limit mode context (tokens.map (.rename naming.text))
      (Node.renameAll naming.text nodes) (after.map (.rename naming.text)) := by
  induction h with
  | leaf kind hkind hident =>
    rw [Node.renameAll, Node.rename, ← Token.text_rename naming.text hkind]
    refine .leaf kind hkind fun heq => ?_
    rw [assigns_rename, naming.token_operator_iff (hkind.trans (heq ▸ rfl))]
    exact hident heq
  | newline hkind =>
    rw [← afterNewlines_rename]
    exact .newline hkind
  | skip hkind hnewline => exact .skip hkind hnewline
  | lineFunction hkind hnesting hline _ ih =>
    refine .lineFunction hkind hnesting ?_ ih
    rw [afterTabs_rename, startsWith_rename, hline]
  | blockFunction hkind hnesting hline _ ih =>
    refine .blockFunction hkind hnesting ?_ ih
    rw [afterTabs_rename, startsWith_rename, hline]
  | returnExpression hkind hnesting _ ih => exact .returnExpression hkind hnesting ih
  | assignment hkind hnesting hassigns _ ih =>
    rw [List.map_tail, ← afterTabs_rename] at ih
    rw [Node.renameAll, Node.rename, ← Token.text_rename naming.text hkind]
    exact .assignment hkind hnesting (by simpa using hassigns) ih
  | operator hkind hnesting hassigns hsymbol hnext hend hcloser _ ih =>
    rw [Node.renameAll, Node.rename, ← Token.text_rename naming.text hkind]
    refine .operator hkind hnesting (by simpa using hassigns) ?_ ?_ (by simpa using hend)
      (by simpa using hcloser) ih
    · exact (naming.token_operator_iff hkind).mpr hsymbol
    · rw [afterTrivia_rename, hnext, List.map_cons]
  | bracketed bracket hkind hnesting _ ih =>
    rw [List.map_tail]
    exact .bracketed bracket hkind hnesting ih
  | lineIf hkind hnesting _ hthen _ ihcondition ihbody =>
    rw [List.map_tail] at ihbody
    exact .lineIf hkind hnesting ihcondition (by simpa using hthen) ihbody
  | blockIf hkind hnesting _ hthen _ ihcondition ihbody =>
    exact .blockIf hkind hnesting ihcondition (by simpa using hthen) ihbody
  | lineElse hkind hnesting hnext hend _ ih =>
    refine .lineElse hkind hnesting ?_ (by simpa using hend) ih
    rw [afterTabs_rename, hnext, List.map_cons]
  | blockElse hkind hnesting hline _ ih =>
    rw [← afterTabs_rename] at ih
    refine .blockElse hkind hnesting ?_ ih
    rw [afterTabs_rename, startsWith_rename, hline]
  | stop hstops => exact .stop hstops
  | step hstops hend _ _ ihitem ihmore =>
    rw [Node.renameAll_append]
    exact .step hstops hend ihitem ihmore
  | lastLine _ hlast ih =>
    exact .lastLine ih (by rw [continuation?_rename, hlast, Option.map_none])
  | moreLines _ hnext _ ihline ihmore =>
    rw [Node.renameAll_append]
    exact .moreLines ihline (by rw [continuation?_rename, hnext, Option.map_some]) ihmore
  | block hline _ ih => exact .block (by rw [nextLine_rename, hline]) ih
  | done => exact .done
  | statement _ _ ihitem ihmore =>
    rw [Node.renameAll_append]
    exact .statement ihitem ihmore

/-! ## Runs that fail -/

/-- The moment with other texts in the tokens that are left. -/
def Moment.rename (texts : TokenKind → String → String) (moment : Moment) : Moment :=
  { moment with tokens := moment.tokens.map (.rename texts) }

/-- The fault with other texts, in the error and in the tokens that are
left. -/
def Fault.rename (texts : TokenKind → String → String) (fault : Fault) : Fault :=
  { fault with error := fault.error.rename texts, rest := fault.rest.map (.rename texts) }

variable {moment next : Moment} {fault : Fault}

theorem Calls.rename (h : Calls limit moment next) :
    Calls limit (moment.rename naming.text) (next.rename naming.text) := by
  simp only [Moment.rename]
  cases h with
  | enter hopened hnesting => exact .enter ((opened?_rename naming).trans hopened) hnesting
  | lineFunction hkind hline =>
    refine .lineFunction hkind ?_
    rw [afterTabs_rename, startsWith_rename, hline]
  | blockFunction hkind hline =>
    refine .blockFunction hkind ?_
    rw [afterTabs_rename, startsWith_rename, hline]
  | returnExpression hkind => exact .returnExpression hkind
  | assignment hkind hassigns =>
    rw [List.map_tail, ← afterTabs_rename]
    exact .assignment hkind (by simpa using hassigns)
  | operand hkind hassigns hsymbol hnext hend hcloser =>
    refine .operand hkind (by simpa using hassigns) ?_ ?_ hend hcloser
    · exact (naming.token_operator_iff hkind).mpr hsymbol
    · rw [afterTrivia_rename, hnext, List.map_cons]
  | bracketed bracket hkind => exact .bracketed bracket hkind
  | condition hkind => exact .condition hkind
  | lineIf hkind hcondition hthen =>
    rw [List.map_tail]
    exact .lineIf hkind (hcondition.rename naming) (by simpa using hthen)
  | blockIf hkind hcondition hthen =>
    exact .blockIf hkind (hcondition.rename naming) (by simpa using hthen)
  | lineElse hkind hnext hend =>
    refine .lineElse hkind ?_ hend
    rw [afterTabs_rename, hnext, List.map_cons]
  | blockElse hkind hline =>
    rw [← afterTabs_rename]
    refine .blockElse hkind ?_
    rw [afterTabs_rename, startsWith_rename, hline]
  | turn hstops hend => exact .turn hstops hend
  | furtherTurn hstops hend hitem => exact .furtherTurn hstops hend (hitem.rename naming)
  | line => exact .line
  | furtherLine hline hnext =>
    refine .furtherLine (hline.rename naming) ?_
    rw [continuation?_rename, hnext, Option.map_some]
  | @block context construct tokens =>
    have hcall := @Calls.block limit context construct (tokens.map (.rename naming.text))
    rwa [nextLine_rename] at hcall
  | statement => exact .statement
  | furtherStatement hitem => exact .furtherStatement (hitem.rename naming)

theorem Stuck.rename (h : Stuck limit moment fault) :
    Stuck limit (moment.rename naming.text) (fault.rename naming.text) := by
  simp only [Moment.rename, Fault.rename]
  cases h with
  | noItem => exact .noItem
  | tooDeep hopened hnesting => exact .tooDeep ((opened?_rename naming).trans hopened) hnesting
  | noTurn => exact .noTurn
  | ended hstops hend => exact .ended hstops hend
  | endedOperand hkind hassigns hsymbol hend =>
    rw [← afterTrivia_rename]
    refine .endedOperand hkind (by simpa using hassigns) ?_ ?_
    · exact (naming.token_operator_iff hkind).mpr hsymbol
    · rw [afterTrivia_rename, atEnd_rename, hend]
  | noOperand hkind hassigns hsymbol hnext hstop =>
    rw [ParseError.rename, ← Token.text_rename naming.text hkind]
    refine .noOperand hkind (by simpa using hassigns) ?_ ?_ hstop
    · exact (naming.token_operator_iff hkind).mpr hsymbol
    · rw [afterTrivia_rename, hnext, List.map_cons]
  | emptyOperand hkind hassigns hsymbol hnext hend hcloser hitem =>
    rw [ParseError.rename, ← Token.text_rename naming.text hkind]
    refine .emptyOperand hkind (by simpa using hassigns) ?_ ?_ (by simpa using hend)
      (by simpa using hcloser) (hitem.rename naming)
    · exact (naming.token_operator_iff hkind).mpr hsymbol
    · rw [afterTrivia_rename, hnext, List.map_cons]
  | endedElse hkind hend =>
    rw [← afterTabs_rename]
    refine .endedElse hkind ?_
    rw [afterTabs_rename, atEnd_rename, hend]

theorem Fails.rename (h : Fails limit moment fault) :
    Fails limit (moment.rename naming.text) (fault.rename naming.text) := by
  obtain ⟨last, hreaches, hstuck⟩ := h
  have hlifted : Reaches limit (moment.rename naming.text) (last.rename naming.text) :=
    hreaches.lift _ fun _ _ hcall => hcall.rename naming
  exact ⟨_, hlifted, hstuck.rename naming⟩

end Runs

/-! ## The parser -/

/-- To rename the tokens before parsing is to rename what comes out. -/
theorem parse_map_rename (naming : Renaming) (tokens : List Token) :
    parse (tokens.map (.rename naming.text)) = renameOutcome naming.text (parse tokens) := by
  cases hparse : parse tokens with
  | ok program => exact parse_eq_ok_iff.mpr ((parse_eq_ok_iff.mp hparse).rename naming)
  | error error =>
    obtain ⟨fault, rfl, hfails⟩ := parse_eq_error_iff.mp hparse
    exact parse_eq_error_iff.mpr ⟨fault.rename naming.text, rfl, hfails.rename naming⟩

/-! ## Shapes -/

/-- The tokens are of one kind, and if they are identifiers, then both are
operators or neither is. -/
def Token.Alike (first second : Token) : Prop :=
  first.kind = second.kind ∧
    (first.kind = .ident → (first.text ∈ prefixOperators ↔ second.text ∈ prefixOperators))

/-- No text at all. -/
def noTexts : TokenKind → String → String := fun _ _ => ""

/-- The same text for all tokens but operators, and the same operator for
these. -/
def Renaming.plain : Renaming where
  text kind text := if kind = .ident ∧ text ∈ prefixOperators then "+" else ""
  operator_iff name := by
    by_cases hname : name ∈ prefixOperators
    · have hplus : "+" ∈ prefixOperators := by decide
      simp only [hname, and_self, if_true, hplus]
    · have hempty : "" ∉ prefixOperators := by decide
      simp only [hname, and_false, if_false, hempty]

theorem Token.Alike.rename_plain {first second : Token} (h : first.Alike second) :
    first.rename Renaming.plain.text = second.rename Renaming.plain.text := by
  obtain ⟨hkind, htext⟩ := h
  have hplain : (first.kind = .ident ∧ first.text ∈ prefixOperators) ↔
      (second.kind = .ident ∧ second.text ∈ prefixOperators) := by
    rw [← hkind]
    exact and_congr_right htext
  simp only [rename, Renaming.plain, hplain]
  rw [hkind]

/-- Tokens that are alike one by one are renamed to one list. -/
theorem map_rename_plain {tokens others : List Token}
    (h : List.Forall₂ Token.Alike tokens others) :
    tokens.map (Token.rename Renaming.plain.text) =
      others.map (Token.rename Renaming.plain.text) := by
  induction h with
  | nil => rfl
  | cons halike _ ih => rw [List.map_cons, List.map_cons, halike.rename_plain, ih]

theorem renameOutcome_noTexts {tokens others : List Token}
    (h : List.Forall₂ Token.Alike tokens others) :
    renameOutcome noTexts (parse tokens) = renameOutcome noTexts (parse others) := by
  have hplain : renameOutcome Renaming.plain.text (parse tokens) =
      renameOutcome Renaming.plain.text (parse others) := by
    rw [← parse_map_rename, ← parse_map_rename, map_rename_plain h]
  have hshape := congrArg (renameOutcome noTexts) hplain
  rwa [renameOutcome_renameOutcome, renameOutcome_renameOutcome] at hshape

/-- Renaming commutes with parsing: for one map of texts for each kind, of
which the one for identifiers keeps operators apart from other names, the
renamed tokens parse to the renamed program, or fail with the renamed error.
And whatever texts two token lists have, if they agree in kinds and in
which identifiers are operators, then what they parse to is the same but for
texts. -/
theorem parse_rename :
    (∀ (naming : Renaming) (tokens : List Token),
      parse (tokens.map (.rename naming.text)) = renameOutcome naming.text (parse tokens)) ∧
    ∀ tokens others : List Token, List.Forall₂ Token.Alike tokens others →
      renameOutcome noTexts (parse tokens) = renameOutcome noTexts (parse others) :=
  ⟨parse_map_rename, fun _ _ halike => renameOutcome_noTexts halike⟩

/-- An assignment of an operator to a string, once complete and once cut off
in front of the string, with other names, operators and strings.  The two
uses of `x` may also be renamed apart. -/
theorem parse_rename_of_operator :
    let naming : Renaming :=
      { text := fun kind text =>
          match kind with
          | .ident => if text = "+" then "*" else if text = "x" then "+x" else text
          | .string => "other"
          | _ => text ++ "!"
        operator_iff := by
          intro name
          by_cases hplus : name = "+"
          · simp [hplus, prefixOperators]
          by_cases hx : name = "x"
          · simp [hx, prefixOperators]
          · simp [hplus, hx] }
    let x : Token := ⟨.ident, "x"⟩
    let header : List Token := [x, ⟨.assign, "="⟩, x, ⟨.ident, "+"⟩]
    let line : List Token := header ++ [⟨.string, "text"⟩, ⟨.endOfInput, ""⟩]
    let cut : List Token := header ++ [⟨.newline, "\n"⟩]
    let apart : List Token :=
      [x, ⟨.assign, ":="⟩, ⟨.ident, "y"⟩, ⟨.ident, "-"⟩, ⟨.string, "+"⟩, ⟨.endOfInput, ""⟩]
    parse (line.map (.rename naming.text)) =
        .ok ⟨[.assignment "+x" [.leaf .ident "+x", .operator "*" (.leaf .string "other")]]⟩ ∧
      parse (cut.map (.rename naming.text)) = .error (.missingOperand "*") ∧
      List.Forall₂ Token.Alike line apart ∧
      renameOutcome noTexts (parse line) = renameOutcome noTexts (parse apart) := by
  intro naming x header line cut apart
  have halike : List.Forall₂ Token.Alike line apart := by
    simp [line, header, apart, x, Token.Alike, prefixOperators]
  refine ⟨?_, ?_, halike, parse_rename.2 line apart halike⟩
  · exact (parse_rename.1 naming line).trans rfl
  · exact (parse_rename.1 naming cut).trans rfl

end Flick
