import Flick.Compilation
import Flick.Proofs.Barrier
import Flick.Proofs.TokenLanguage

/-!
# The errors of a compilation

Whatever the parser is at work on has a name, and there is an error about
each name for the case that the tokens run out.  Not all of these errors
are met.  The end of the input stops everything that runs to the end of its
line, and only a program takes that token.  So in the tokens of a source
text it is still to come wherever a construct is open (`Moment.Faces`), and
it is an error only for what needs a token of its own after it: a group
and a condition, which have to be closed, an operand, and the body of an
`else`.  Names that stand for no construct are in no error, whatever the
tokens are (`Calls.labelled`).

Nor do all operators of the parser come from a source.  One of them is a
reserved symbol, which the lexer makes no identifier of.

`exists_compile_error_iff` lists the parse errors of source texts.  None is
missing: each construct can be cut off or nested too deeply by tokens that
a source can have, for brackets can be put around anything
(`exists_fails_tooDeep`).
-/

namespace Flick

open Layout

/-- The parse errors that a source text can have. -/
def ParseError.IsReported : ParseError → Prop
  | .unexpectedEnd construct =>
    construct ∈ [.bracketed .square, .bracketed .round, .bracketed .curly, .operand,
      .ifCondition, .elseBody]
  | .missingOperand operator => operator ∈ ["+", "-", "*", "/"]
  | .nestingTooDeep construct => construct ≠ .statement ∧ construct ≠ .ifCondition

/-! ## The names of the work -/

/-- The work is done for a construct, and unless that is a group or a
condition, the end of the input stops it. -/
def Task.Labelled : Task → Prop
  | .upTo construct stops =>
    construct ≠ .statement ∧
      (stops .endOfInput = true ∨ construct = .ifCondition ∨
        ∃ bracket, construct = .bracketed bracket)
  | .lines construct _ | .block construct => construct ≠ .statement
  | .item | .inside | .program => True

/-- What holds at each moment of a run, whatever the tokens are. -/
structure Moment.Proper (moment : Moment) : Prop where
  labelled : moment.task.Labelled
  item : moment.task = .item → moment.tokens ≠ []

section AnyTokens

variable {limit : Nat} {moment next : Moment} {fault : Fault}

theorem Calls.labelled (h : Calls limit moment next) (hmoment : moment.task.Labelled) :
    next.task.Labelled := by
  cases h with
  | lineFunction | returnExpression | assignment | lineIf | lineElse =>
    exact ⟨by simp, .inl rfl⟩
  | line => exact ⟨hmoment, .inl rfl⟩
  | bracketed bracket => exact ⟨by simp, .inr (.inr ⟨bracket, rfl⟩)⟩
  | condition => exact ⟨by simp, .inr (.inl rfl)⟩
  | blockFunction | blockIf | blockElse => exact Construct.noConfusion
  | furtherTurn | furtherLine | block => exact hmoment
  | enter | operand | turn | statement | furtherStatement => trivial

/-- An item is begun only if there is a token. -/
theorem Calls.ne_nil_of_item (h : Calls limit moment next) (htask : next.task = .item) :
    next.tokens ≠ [] := by
  cases h with
  | operand | turn | statement => exact List.cons_ne_nil _ _
  | _ => cases htask

theorem Fails.exists_proper {tokens : List Token} (h : Fails limit (.ofTokens tokens) fault) :
    ∃ last, last.Proper ∧ Reaches limit (.ofTokens tokens) last ∧ Stuck limit last fault := by
  obtain ⟨last, hreaches, hstuck⟩ := h
  have hproper := hreaches.invariant Moment.Proper
    (fun _ _ hcall hmoment => ⟨hcall.labelled hmoment.labelled, hcall.ne_nil_of_item⟩)
    ⟨trivial, nofun⟩
  exact ⟨last, hproper, hreaches, hstuck⟩

/-- A construct that is opened is neither a statement nor a condition. -/
theorem opened?_ne {token : Token} {rest : List Token} {construct : Construct}
    (h : opened? token rest = some construct) :
    construct ≠ .statement ∧ construct ≠ .ifCondition := by
  unfold opened? at h
  split at h
  case h_6 => split_ifs at h <;> cases h <;> simp
  all_goals cases h <;> simp

/-- No error is about the end of a statement. -/
theorem Stuck.error_ne_statement (h : Stuck limit moment fault) (hmoment : moment.Proper) :
    fault.error ≠ .unexpectedEnd .statement := by
  cases h with
  | noItem => exact absurd rfl (hmoment.item rfl)
  | noTurn | ended =>
    intro herror
    exact hmoment.labelled.1 (ParseError.unexpectedEnd.inj herror)
  | _ => simp

end AnyTokens

/-! ## Before the end of the input -/

section EndOfInput

variable {limit : Nat} {moment : Moment} {fault : Fault} {front : List Token} {last : Token}

/-- Where the end of the input is still to come, it is an error for few
constructs. -/
theorem Stuck.isReported (h : Stuck limit moment fault) (hmoment : moment.Proper)
    (hfaces : moment.Faces [last])
    (hoperator : ∀ token ∈ moment.tokens, token.kind = .ident → token.text ≠ "^") :
    fault.error.IsReported := by
  have hmissing {token : Token} {rest : List Token} (hmem : token :: rest = moment.tokens)
      (hkind : token.kind = .ident) (hsymbol : token.text ∈ prefixOperators) :
      ParseError.IsReported (.missingOperand token.text) := by
    have hcaret := hoperator token (hmem ▸ List.mem_cons_self) hkind
    simpa [ParseError.IsReported, prefixOperators, hcaret] using hsymbol
  cases h with
  | noItem | noTurn => exact absurd hfaces.suffix (by simp)
  | tooDeep hopened => exact opened?_ne hopened
  | ended hstops hkind =>
    rcases hmoment.labelled.2 with hline | rfl | ⟨bracket, rfl⟩
    · rw [hkind, hline] at hstops
      cases hstops
    · simp [ParseError.IsReported]
    · cases bracket <;> simp [ParseError.IsReported]
  | endedOperand | endedElse => simp [ParseError.IsReported]
  | noOperand hkind _ hsymbol => exact hmissing rfl hkind hsymbol
  | emptyOperand hkind _ hsymbol => exact hmissing rfl hkind hsymbol

theorem Fails.isReported (h : Fails limit (.ofTokens (front ++ [last])) fault)
    (hlast : last.kind = .endOfInput)
    (hoperator : ∀ token ∈ front ++ [last], token.kind = .ident → token.text ≠ "^") :
    fault.error.IsReported := by
  obtain ⟨stuck, hproper, hreaches, hstuck⟩ := h.exists_proper
  rcases hreaches.faces_or_behind hlast (List.suffix_append front [last]) with hfaces | hbehind
  · exact hstuck.isReported hproper hfaces fun token hmem =>
      hoperator token (hreaches.suffix.subset hmem)
  · -- Nothing is behind the end of the input, and nothing goes wrong there.
    exact absurd ⟨stuck, hbehind, hstuck⟩ not_fails_program_nil

end EndOfInput

/-! ## Each of these errors has a source -/

section Sources

/-- Where a construct can be opened, it can be opened inside of as many
groups as the limit allows. -/
theorem exists_fails_tooDeep {limit count : Nat} {context : Context} {token : Token}
    {rest : List Token} {construct : Construct} (hopened : opened? token rest = some construct)
    (hcount : context.nesting + count = limit) :
    ∃ fault, fault.error = .nestingTooDeep construct ∧
      Fails limit ⟨.item, context,
        List.replicate count (.ofSymbol (.opening .round)) ++ token :: rest⟩ fault := by
  induction count generalizing context with
  | zero =>
    refine ⟨_, rfl, (fails_item hopened).mpr (.inl ⟨?_, rfl⟩)⟩
    omega
  | succ count ih =>
    obtain ⟨fault, herror, hfails⟩ := @ih (context.nest.inGroup .round) (by
      show context.nesting + 1 + count = limit
      omega)
    refine ⟨fault, herror, ?_⟩
    rw [List.replicate_succ, List.cons_append, fails_item rfl]
    refine .inr ⟨by omega, (fails_opening rfl).mpr ?_⟩
    -- The next token opens something, so it neither closes the group nor ends the input.
    cases count with
    | zero =>
      have hclosing : token.kind ≠ .closing .round := by
        intro hkind
        simp [opened?, hkind] at hopened
      refine (fails_upTo_of_turn (by simpa using hclosing) ?_).mpr (.inl hfails)
      exact ne_endOfInput_of_opened? hopened
    | succ count => exact (fails_upTo_of_turn (by rfl) (by decide)).mpr (.inl hfails)

theorem parse_tooDeep {token : Token} {rest : List Token} {construct : Construct}
    (hopened : opened? token rest = some construct) :
    parse (List.replicate maxNesting (.ofSymbol (.opening .round)) ++ token :: rest) =
      .error (.nestingTooDeep construct) := by
  obtain ⟨fault, herror, hfails⟩ :=
    @exists_fails_tooDeep maxNesting maxNesting .fresh _ _ _ hopened (Nat.zero_add maxNesting)
  exact parse_eq_error_iff.mpr ⟨fault, herror, fails_program_cons.mpr (.inl hfails)⟩

theorem exists_compile_of_regular {front : List Token} {error : ParseError}
    (hfront : ∀ token ∈ front, token.kind ≠ .endOfInput ∧ token.Regular)
    (hparse : parse (front ++ [.endOfInput]) = .error error) :
    ∃ source, compile source = .error (.parse error) := by
  obtain ⟨segments, hrow, rfl⟩ := Token.exists_row_of_regular hfront true
  refine ⟨String.ofList (segments.flatMap Segment.text), ?_⟩
  have hlex : Vocabulary.standard.lex (String.ofList (segments.flatMap Segment.text)) = .ok _ :=
    (Vocabulary.lex_eq_ok_iff ⟨.tab, by decide⟩).mpr ⟨segments, by simp, hrow, rfl⟩
  rw [compile, Vocabulary.compile, hlex]
  simp only [hparse]

/-- Every construct but a statement and a condition is opened by tokens of a
source. -/
theorem exists_opened? {construct : Construct} (hstatement : construct ≠ .statement)
    (hcondition : construct ≠ .ifCondition) :
    ∃ token more, opened? token (more ++ [.endOfInput]) = some construct ∧
      ∀ other ∈ token :: more, other.kind ≠ .endOfInput ∧ other.Regular := by
  have hsymbol (symbol : Symbol) (h : (Token.ofSymbol symbol).kind ≠ .endOfInput) :
      ∀ other ∈ [Token.ofSymbol symbol], other.kind ≠ .endOfInput ∧ other.Regular := by
    simpa using ⟨h, Token.regular_ofSymbol symbol⟩
  have hword (word : String) (htext : IsWordText word.toList)
      (h : (Token.ofWord .standard word).kind ≠ .endOfInput) :
      ∀ other ∈ [Token.ofWord .standard word], other.kind ≠ .endOfInput ∧ other.Regular := by
    simpa using ⟨h, Token.regular_ofWord htext⟩
  cases construct with
  | statement => exact absurd rfl hstatement
  | ifCondition => exact absurd rfl hcondition
  | functionBody => exact ⟨_, [], rfl, hsymbol .arrow (by decide)⟩
  | returnExpression => exact ⟨_, [], rfl, hsymbol .caret (by decide)⟩
  | bracketed bracket => exact ⟨_, [], rfl, hsymbol (.opening bracket) TokenKind.noConfusion⟩
  | operand => exact ⟨_, [], rfl, hword "+" (by decide) (by decide)⟩
  | ifBody => exact ⟨_, [], rfl, hword "if" (by decide) (by decide)⟩
  | elseBody => exact ⟨_, [], rfl, hword "else" (by decide) (by decide)⟩
  | assignment =>
    refine ⟨.ofWord .standard "a", [.ofSymbol .equals], rfl, List.forall_mem_cons.mpr ⟨?_, ?_⟩⟩
    · exact hword "a" (by decide) (by decide) _ List.mem_cons_self
    · exact hsymbol .equals (by decide)

theorem exists_compile_of_isReported {error : ParseError} (h : error.IsReported) :
    ∃ source, compile source = .error (.parse error) := by
  cases error with
  | unexpectedEnd construct =>
    simp only [ParseError.IsReported, List.mem_cons, List.not_mem_nil, or_false] at h
    rcases h with rfl | rfl | rfl | rfl | rfl | rfl
    · exact ⟨"[", by decide +kernel⟩
    · exact ⟨"(", by decide +kernel⟩
    · exact ⟨"\x7b", by decide +kernel⟩
    · exact ⟨"+", by decide +kernel⟩
    · exact ⟨"if", by decide +kernel⟩
    · exact ⟨"else", by decide +kernel⟩
  | missingOperand operator =>
    simp only [ParseError.IsReported, List.mem_cons, List.not_mem_nil, or_false] at h
    rcases h with rfl | rfl | rfl | rfl
    · exact ⟨"+\n", by decide +kernel⟩
    · exact ⟨"-\n", by decide +kernel⟩
    · exact ⟨"*\n", by decide +kernel⟩
    · exact ⟨"/\n", by decide +kernel⟩
  | nestingTooDeep construct =>
    obtain ⟨token, more, hopened, hregular⟩ := exists_opened? h.1 h.2
    have hparse := parse_tooDeep hopened
    rw [← List.cons_append, ← List.append_assoc] at hparse
    refine exists_compile_of_regular (fun other hmem => ?_) hparse
    rcases List.mem_append.mp hmem with hgroup | hmem
    · rw [(List.mem_replicate.mp hgroup).2]
      exact ⟨by decide, Token.regular_ofSymbol _⟩
    · exact hregular other hmem

end Sources

/-- The tokens of a source end in `Token.endOfInput`, and none is an
identifier that is spelled as the return sign. -/
theorem exists_front_of_lex {source : String} {tokens : List Token}
    (h : Vocabulary.standard.lex source = .ok tokens) :
    ∃ front, tokens = front ++ [.endOfInput] ∧
      ∀ token ∈ tokens, token.kind = .ident → token.text ≠ "^" := by
  obtain ⟨segments, -, hrow, rfl⟩ := (Vocabulary.lex_eq_ok_iff ⟨.tab, by decide⟩).mp h
  have hregular : ∀ token ∈ segments.filterMap (Segment.token? .standard), token.Regular := by
    intro token hmem
    obtain ⟨segment, hsegment, htoken⟩ := List.mem_filterMap.mp hmem
    obtain ⟨before, after, hsplit⟩ := List.append_of_mem hsegment
    exact (Token.regular_of_fits (hrow.fits hsplit) htoken).2
  refine ⟨_, rfl, ?_⟩
  intro token hmem hkind htext
  rcases List.mem_append.mp hmem with hfront | hlast
  · have hword := (hregular token hfront).word (.inl hkind)
    rw [htext] at hword
    exact absurd hword (by decide)
  · rw [List.mem_singleton.mp hlast] at hkind
    cases hkind

/-- The parse errors of source texts are those of `ParseError.IsReported`,
and no token list at all has an error about the end of a statement. -/
theorem exists_compile_error_iff :
    (∀ error : ParseError,
      (∃ source, compile source = .error (.parse error)) ↔ error.IsReported) ∧
    ∀ tokens, parse tokens ≠ .error (.unexpectedEnd .statement) := by
  constructor
  · refine fun error => ⟨?_, exists_compile_of_isReported⟩
    intro h
    obtain ⟨source, hcompile⟩ := h
    rw [compile, Vocabulary.compile] at hcompile
    split at hcompile
    · cases hcompile
    next tokens hlex =>
      split at hcompile
      next found hparse =>
        obtain rfl := CompileError.parse.inj (Except.error.inj hcompile)
        obtain ⟨front, rfl, hoperator⟩ := exists_front_of_lex hlex
        obtain ⟨fault, rfl, hfails⟩ := parse_eq_error_iff.mp hparse
        exact hfails.isReported rfl hoperator
      · cases hcompile
  · intro tokens hparse
    obtain ⟨fault, herror, hfails⟩ := parse_eq_error_iff.mp hparse
    obtain ⟨stuck, hproper, -, hstuck⟩ := hfails.exists_proper
    exact hstuck.error_ne_statement hproper herror

end Flick
