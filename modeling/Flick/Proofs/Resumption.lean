import Flick.Proofs.Restoration

/-!
# Asking again

A parser that failed can be asked again.  It goes on where the error was
found, with the blocks of that place still open, and it may fail again.

It cannot fail for ever.  The first thing that an open construct does is to
take its first token, so an error inside of it leaves less than there was
(`Calls.suffix_tail_of_inside`).  The one error in front of a token is that
constructs are nested too deeply, and no construct is open at the front of a
run.  So a run that fails takes a token, a run that succeeds takes all of
them, and what comes after a success is nothing.
-/

namespace Flick

open Layout

/-! ## Errors come behind a token -/

section Failures

variable {limit : Nat} {context : Context} {tokens rest : List Token} {token : Token}
  {fault : Fault}

/-- What an open construct begins is behind its first token. -/
theorem Calls.suffix_tail_of_inside {next : Moment}
    (h : Calls limit ⟨.inside, context, tokens⟩ next) : next.tokens <:+ tokens.tail := by
  cases h with
  | lineFunction | blockFunction | returnExpression | bracketed | condition =>
    exact List.suffix_refl _
  | assignment => exact (List.tail_suffix _).trans (afterTabs_suffix _)
  | operand _ _ _ hnext => exact hnext ▸ afterTrivia_suffix _
  | lineIf _ hcondition => exact (List.tail_suffix _).trans hcondition.suffix
  | blockIf _ hcondition => exact hcondition.suffix
  | lineElse _ hnext => exact hnext ▸ afterTabs_suffix _
  | blockElse => exact afterTabs_suffix _

/-- An error that an open construct finds itself is behind its first
token. -/
theorem Stuck.suffix_tail_of_inside (h : Stuck limit ⟨.inside, context, tokens⟩ fault) :
    fault.rest <:+ tokens.tail := by
  cases h with
  | endedOperand => exact afterTrivia_suffix _
  | noOperand _ _ _ hnext => exact hnext ▸ afterTrivia_suffix _
  | emptyOperand _ _ _ hnext _ _ hitem => exact hitem.suffix.trans (hnext ▸ afterTrivia_suffix _)
  | endedElse => exact afterTabs_suffix _

theorem Fails.suffix_tail_of_inside (h : Fails limit ⟨.inside, context, tokens⟩ fault) :
    fault.rest <:+ tokens.tail := by
  rcases fails_iff.mp h with hstuck | ⟨next, hcall, hfails⟩
  · exact hstuck.suffix_tail_of_inside
  · exact hfails.suffix.trans hcall.suffix_tail_of_inside

/-- Below the limit, an item that fails has taken its first token. -/
theorem Fails.suffix_of_item (hnesting : context.nesting < limit)
    (h : Fails limit ⟨.item, context, token :: rest⟩ fault) : fault.rest <:+ rest := by
  cases hopened : opened? token rest with
  | none => exact absurd h (not_fails_item hopened)
  | some construct =>
    rcases (fails_item hopened).mp h with ⟨htooDeep, -⟩ | ⟨-, hinside⟩
    · omega
    · exact hinside.suffix_tail_of_inside

/-- Below the limit, a run that fails has taken a token. -/
theorem Fails.length_lt_of_program (hnesting : context.nesting < limit)
    (h : Fails limit ⟨.program, context, tokens⟩ fault) : fault.rest.length < tokens.length := by
  cases tokens with
  | nil => exact absurd h not_fails_program_nil
  | cons token rest =>
    have hsuffix : fault.rest <:+ rest := by
      rcases fails_program_cons.mp h with hitem | ⟨nodes, middle, hitem, hmore⟩
      · exact hitem.suffix_of_item hnesting
      · exact hmore.suffix.trans (hitem.suffix_and_item.2 rfl).1
    have hle := hsuffix.length_le
    rw [List.length_cons]
    omega

end Failures

namespace Parser

/-! ## One call -/

/-- A call that succeeds takes all tokens. -/
theorem rest_of_parse_ok {parser : Parser} {program : Program}
    (h : parser.parse.1 = .ok program) : parser.parse.2.rest = [] := by
  have hrun : parser.parse = (.ok program, parser.parse.2) := Prod.ext h rfl
  obtain ⟨rest, hafter, hreads⟩ :=
    (@parseWithin_eq_ok_iff maxNesting parser.context parser.rest _ _).mp hrun
  rw [hafter]
  exact hreads.program_after

/-- A call below the limit that fails takes a token, and it does not go
back. -/
theorem rest_of_parse_error {parser : Parser} {error : ParseError}
    (hnesting : parser.nesting < maxNesting) (h : parser.parse.1 = .error error) :
    parser.parse.2.rest <:+ parser.rest ∧
      parser.parse.2.rest.length < parser.rest.length := by
  have hrun : parser.parse = (.error error, parser.parse.2) := Prod.ext h rfl
  obtain ⟨fault, -, hafter, hfails⟩ :=
    (@parseWithin_eq_error_iff maxNesting parser.context parser.rest _ _).mp hrun
  rw [hafter]
  exact ⟨hfails.suffix, hfails.length_lt_of_program hnesting⟩

/-- Where no token is left, there is nothing to read. -/
theorem parse_of_rest_nil {parser : Parser} (h : parser.rest = []) :
    parser.parse = (.ok ⟨[]⟩, parser) := by
  obtain ⟨rest, blocks, nesting, closer⟩ := parser
  obtain rfl : rest = [] := h
  exact (@parseWithin_eq_ok_iff maxNesting ⟨blocks, nesting, closer⟩ _ _ _).mpr ⟨[], rfl, .done⟩

/-! ## Call after call -/

/-- The parser after it was asked so many times. -/
def asked (parser : Parser) (calls : Nat) : Parser :=
  (fun parser => parser.parse.2)^[calls] parser

/-- The place of a parser over the tokens: how many of them are in front of
it. -/
def cursor (tokens : List Token) (parser : Parser) : Nat := tokens.length - parser.rest.length

theorem asked_succ (parser : Parser) (calls : Nat) :
    parser.asked (calls + 1) = (parser.asked calls).parse.2 :=
  Function.iterate_succ_apply' _ calls parser

theorem asked_parse (parser : Parser) (calls : Nat) :
    parser.parse.2.asked calls = parser.asked (calls + 1) :=
  (Function.iterate_succ_apply _ calls parser).symm

theorem asked_keeps (parser : Parser) (calls : Nat) : parser.Keeps (parser.asked calls) :=
  iterate_parse_keeps calls parser

/-- Asked again, a parser is still below the limit. -/
theorem asked_nesting_lt {parser : Parser} (hnesting : parser.nesting < maxNesting)
    (calls : Nat) : (parser.asked calls).nesting < maxNesting := by
  rw [(parser.asked_keeps calls).nesting]
  exact hnesting

/-- A parser never goes back. -/
theorem asked_suffix {parser : Parser} (hnesting : parser.nesting < maxNesting) (calls : Nat) :
    (parser.asked calls).rest <:+ parser.rest := by
  induction calls with
  | zero => exact List.suffix_refl _
  | succ calls ih =>
    rw [asked_succ]
    cases hresult : (parser.asked calls).parse.1 with
    | ok program =>
      rw [rest_of_parse_ok hresult]
      exact List.nil_suffix
    | error error =>
      have hstep := rest_of_parse_error (asked_nesting_lt hnesting calls) hresult
      exact hstep.1.trans ih

/-- Once no token is left, nothing changes any more. -/
theorem asked_eq_of_rest_nil {parser : Parser} {calls later : Nat}
    (h : (parser.asked calls).rest = []) (hlater : calls ≤ later) :
    parser.asked later = parser.asked calls := by
  induction hlater with
  | refl => rfl
  | step _ ih => rw [asked_succ, ih, parse_of_rest_nil h]

/-- Asked again and again, a parser fails no more often than it has tokens
left, and then it succeeds. -/
theorem exists_asked_ok {parser : Parser} (hnesting : parser.nesting < maxNesting) :
    ∃ calls ≤ parser.rest.length,
      (∀ earlier < calls, ∃ error, (parser.asked earlier).parse.1 = .error error) ∧
        ∃ program, (parser.asked calls).parse.1 = .ok program := by
  induction hlength : parser.rest.length using Nat.strongRecOn generalizing parser with
  | _ length ih =>
    cases hresult : parser.parse.1 with
    | ok program => exact ⟨0, Nat.zero_le _, nofun, program, hresult⟩
    | error error =>
      have hlt := (rest_of_parse_error hnesting hresult).2
      have hafter : parser.parse.2.nesting < maxNesting := asked_nesting_lt hnesting 1
      obtain ⟨calls, hle, hfails, hok⟩ := ih _ (hlength ▸ hlt) hafter rfl
      refine ⟨calls + 1, by omega, ?_, ?_⟩
      · intro earlier hearlier
        cases earlier with
        | zero => exact ⟨error, hresult⟩
        | succ earlier =>
          rw [← asked_parse]
          exact hfails earlier (by omega)
      · rw [← asked_parse]
        exact hok

/-- What is left of the tokens are those from the cursor on. -/
theorem rest_eq_drop_cursor {tokens : List Token} {parser : Parser} (h : parser.rest <:+ tokens) :
    parser.rest = tokens.drop (parser.cursor tokens) :=
  List.suffix_iff_eq_drop.mp h

end Parser

/-- However often a parser over the tokens is asked, it stands at a place of
them with no construct open and no bracket expected.  A call that fails
moves it on, and a call that succeeds moves it to the end; a call after that
answers the empty program and changes nothing.  So no more calls fail than
there are tokens, and then one succeeds.  From call to call blocks are
added, and none is taken away. -/
theorem parser_resumes (tokens : List Token) :
    let asked := (Parser.ofTokens tokens).asked
    (∀ calls, (asked calls).rest = tokens.drop ((asked calls).cursor tokens) ∧
      (asked calls).nesting = 0 ∧ (asked calls).closer = none ∧
      (asked calls).blocks <:+ (asked (calls + 1)).blocks) ∧
    (∀ calls error, (asked calls).parse.1 = .error error →
      (asked calls).cursor tokens < (asked (calls + 1)).cursor tokens) ∧
    (∀ calls program, (asked calls).parse.1 = .ok program →
      (asked (calls + 1)).cursor tokens = tokens.length ∧
        ∀ later, calls < later → (asked later).parse = (.ok ⟨[]⟩, asked later)) ∧
    ∃ calls ≤ tokens.length,
      (∀ earlier < calls, ∃ error, (asked earlier).parse.1 = .error error) ∧
        ∃ program, (asked calls).parse.1 = .ok program := by
  intro asked
  have hsucc (calls : Nat) : asked (calls + 1) = (asked calls).parse.2 := Parser.asked_succ _ calls
  have hfresh : (Parser.ofTokens tokens).nesting < maxNesting := Nat.zero_lt_succ _
  have hsuffix (calls : Nat) : (asked calls).rest <:+ tokens := Parser.asked_suffix hfresh calls
  refine ⟨?_, ?_, ?_, Parser.exists_asked_ok hfresh⟩
  · intro calls
    have hkeeps : (Parser.ofTokens tokens).Keeps (asked calls) := Parser.asked_keeps _ calls
    have hnext : (asked calls).Keeps (asked (calls + 1)) := by
      rw [hsucc]
      exact Parser.asked_keeps (asked calls) 1
    exact ⟨Parser.rest_eq_drop_cursor (hsuffix calls), hkeeps.nesting, hkeeps.closer, hnext.blocks⟩
  · intro calls error herror
    have hlt : (asked calls).parse.2.rest.length < (asked calls).rest.length :=
      (Parser.rest_of_parse_error (Parser.asked_nesting_lt hfresh calls) herror).2
    have hle := (hsuffix calls).length_le
    rw [hsucc]
    simp only [Parser.cursor]
    omega
  · intro calls program hprogram
    have hrest : (asked (calls + 1)).rest = [] := by
      rw [hsucc]
      exact Parser.rest_of_parse_ok hprogram
    refine ⟨by simp [Parser.cursor, hrest], fun later hlater => ?_⟩
    have hsame : asked later = asked (calls + 1) := Parser.asked_eq_of_rest_nil hrest hlater
    rw [hsame]
    exact Parser.parse_of_rest_nil hrest

/-- An operator with a comma for an operand, and an open group in the block of
a function.  The first call stops behind the comma, the second one at the
end with the block still open, and from then on there is nothing left. -/
theorem parser_resumes_of_operator_and_group :
    let tokens : List Token :=
      [⟨.ident, "+"⟩, ⟨.comma, ","⟩, ⟨.arrow, "->"⟩, ⟨.newline, "\n"⟩, ⟨.tab, "\t"⟩,
        ⟨.opening .round, "("⟩]
    let asked := (Parser.ofTokens tokens).asked
    (asked 0).parse.1 = .error (.missingOperand "+") ∧
      (asked 0).cursor tokens < (asked 1).cursor tokens ∧
      (asked 1).parse.1 = .error (.unexpectedEnd (.bracketed .round)) ∧
      (asked 1).cursor tokens < (asked 2).cursor tokens ∧
      asked 2 = ⟨[], [.indented 1], 0, none⟩ ∧ (asked 2).parse.1 = .ok ⟨[]⟩ ∧
      (asked 7).parse = (.ok ⟨[]⟩, asked 7) := by
  intro tokens asked
  obtain ⟨-, herror, hok, -⟩ := parser_resumes tokens
  have hfirst : (asked 0).parse.1 = .error (.missingOperand "+") := rfl
  have hsecond : (asked 1).parse.1 = .error (.unexpectedEnd (.bracketed .round)) := rfl
  have hthird : (asked 2).parse.1 = .ok ⟨[]⟩ := rfl
  exact ⟨hfirst, herror 0 _ hfirst, hsecond, herror 1 _ hsecond, rfl, hthird,
    (hok 2 _ hthird).2 7 (by decide)⟩

end Flick
