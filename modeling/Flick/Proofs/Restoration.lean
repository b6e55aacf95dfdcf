import Flick.Proofs.Calls.Adequacy
import Flick.Proofs.Watched
import Mathlib.Logic.Function.Iterate

/-!
# What the parser puts back

An item, and with it a whole run, leaves the number of open constructs and
the expected bracket as it found them, whether it succeeds or fails.  The
blocks it leaves as they were only if it succeeds.  A failure keeps the
blocks of the place where it was found, on top of the ones that were open
before, and a parser that is asked again goes on with them.

While a fresh parser runs for the first time, no more blocks than
constructs are open.  A construct opens at most one block of its own, and
`Task.reserve` counts the one that is still to come; with it the inequality
is kept by every call.  The same is seen from inside of the run: a check in
front of every item is never failed.
-/

namespace Flick

/-- The number of blocks that the work itself is still to open. -/
def Task.reserve : Task → Nat
  | .inside | .block _ => 1
  | .item | .upTo .. | .lines .. | .program => 0

/-- A call keeps a construct for each block, those to come included. -/
theorem Calls.blocks_le {limit : Nat} {moment next : Moment} (h : Calls limit moment next)
    (hle : moment.context.blocks.length + moment.task.reserve ≤ moment.context.nesting) :
    next.context.blocks.length + next.task.reserve ≤ next.context.nesting := by
  cases h with
  | enter => exact Nat.succ_le_succ hle
  | lineFunction | blockFunction | blockIf | blockElse | block | turn | furtherTurn | line
  | furtherLine | statement | furtherStatement => exact hle
  | returnExpression | assignment | operand | bracketed | condition | lineIf | lineElse =>
    exact Nat.le_of_succ_le hle

/-- At every moment of a fresh parser's first run there is a construct for
each block, and the constructs are within the limit. -/
theorem Reaches.blocks_le {limit : Nat} {tokens : List Token} {moment : Moment}
    (h : Reaches limit (.ofTokens tokens) moment) :
    moment.context.blocks.length ≤ moment.context.nesting ∧ moment.context.nesting ≤ limit := by
  have hblocks := h.invariant
    (fun other => other.context.blocks.length + other.task.reserve ≤ other.context.nesting)
    (fun _ _ hcall hle => hcall.blocks_le hle) (Nat.le_refl 0)
  have hnesting := h.invariant (fun other => other.context.nesting ≤ limit)
    (fun _ _ hcall hle => hcall.nesting_le hle) (Nat.zero_le limit)
  exact ⟨Nat.le_of_add_right_le hblocks, hnesting⟩

namespace Parser

/-- The parser `after` has the count and the bracket of `parser`, and the
blocks of `parser` are at the bottom of its own. -/
structure Keeps (parser after : Parser) : Prop where
  nesting : after.nesting = parser.nesting
  closer : after.closer = parser.closer
  blocks : parser.blocks <:+ after.blocks

namespace Keeps

theorem refl (parser : Parser) : Keeps parser parser := ⟨rfl, rfl, List.suffix_refl _⟩

theorem trans {first second third : Parser} (h : Keeps first second)
    (hmore : Keeps second third) : Keeps first third where
  nesting := hmore.nesting.trans h.nesting
  closer := hmore.closer.trans h.closer
  blocks := h.blocks.trans hmore.blocks

/-- A parser that only moved on is as it was. -/
theorem ofContext (parser : Parser) (rest : List Token) :
    Keeps parser (parser.context.parser rest) :=
  ⟨rfl, rfl, List.suffix_refl _⟩

theorem ofFault {limit : Nat} {task : Task} {parser : Parser} {fault : Fault}
    (h : Fails limit ⟨task, parser.context, parser.rest⟩ fault) :
    Keeps parser (fault.parser parser.context) :=
  ⟨rfl, rfl, h.blocks_suffix⟩

end Keeps

/-- What an item leaves of the parser's state. -/
theorem item_keeps {limit bound depth : Nat} {parser : Parser}
    (hdepth : limit - parser.nesting < depth) (hbound : parser.rest.length < bound) :
    match item limit bound depth parser with
    | .ok _ after => Keeps parser after ∧ after.blocks = parser.blocks
    | .error _ after => Keeps parser after := by
  have houtcome := item_outcome hdepth hbound
  generalize item limit bound depth parser = run at houtcome ⊢
  cases run with
  | ok node after =>
    obtain ⟨rest, rfl, -⟩ := houtcome
    exact ⟨.ofContext parser rest, rfl⟩
  | error failure after =>
    obtain ⟨fault, -, rfl, hfails⟩ := houtcome
    exact .ofFault hfails

/-- What a run leaves of the parser's state. -/
theorem parse_keeps (parser : Parser) :
    match parser.parse with
    | (.ok _, after) => Keeps parser after ∧ after.blocks = parser.blocks
    | (.error _, after) => Keeps parser after := by
  split
  next program after hrun =>
    obtain ⟨rest, rfl, -⟩ := (@parseWithin_eq_ok_iff maxNesting parser.context _ _ _).mp hrun
    exact ⟨.ofContext parser rest, rfl⟩
  next error after hrun =>
    obtain ⟨fault, -, rfl, hfails⟩ :=
      (@parseWithin_eq_error_iff maxNesting parser.context _ _ _).mp hrun
    exact .ofFault hfails

/-- However often a parser is asked, it keeps what it had. -/
theorem iterate_parse_keeps (calls : Nat) (parser : Parser) :
    Keeps parser ((fun parser => parser.parse.2)^[calls] parser) := by
  induction calls generalizing parser with
  | zero => exact .refl parser
  | succ calls ih =>
    have honce : Keeps parser parser.parse.2 := by
      have hkeeps := parse_keeps parser
      generalize parser.parse = answer at hkeeps ⊢
      obtain ⟨result, after⟩ := answer
      cases result with
      | ok program => exact hkeeps.1
      | error error => exact hkeeps
    rw [Function.iterate_succ_apply]
    exact honce.trans (ih parser.parse.2)

end Parser

/-- Every item and every run puts back the number of open constructs and
the expected bracket, and a successful one also the blocks; a failure
leaves the blocks that were open at the bottom.  In the first run of a
fresh parser there are never more blocks than constructs open, and never
more constructs than the limit, up to the moment at which an error is
found, so a run that checks this in front of every item goes as it would
without; and a run that succeeds ends with no block and no token left. -/
theorem parser_restores :
    (∀ (parser : Parser) (bound depth : Nat),
      parser.rest.length < bound → maxNesting - parser.nesting < depth →
      match Parser.item maxNesting bound depth parser with
      | .ok _ after => parser.Keeps after ∧ after.blocks = parser.blocks
      | .error _ after => parser.Keeps after) ∧
    (∀ parser : Parser,
      match parser.parse with
      | (.ok _, after) => parser.Keeps after ∧ after.blocks = parser.blocks
      | (.error _, after) => parser.Keeps after) ∧
    (∀ (calls : Nat) (parser : Parser),
      parser.Keeps ((fun parser => parser.parse.2)^[calls] parser)) ∧
    (∀ (tokens : List Token) (moment : Moment), Reaches maxNesting (.ofTokens tokens) moment →
      moment.context.blocks.length ≤ moment.context.nesting ∧
        moment.context.nesting ≤ maxNesting) ∧
    (∀ tokens : List Token,
      let bound := tokens.length + 1
      let watched := Parser.statements (Parser.watchedItem maxNesting bound (maxNesting + 1)) bound
        (.ofTokens tokens)
      watched = Parser.statements (Parser.item maxNesting bound (maxNesting + 1)) bound
          (.ofTokens tokens) ∧
        ∀ after, watched ≠ .error .exhausted after) ∧
    (∀ (tokens : List Token) (error : ParseError) (after : Parser),
      (Parser.ofTokens tokens).parse = (.error error, after) →
      ∃ moment fault, Reaches maxNesting (.ofTokens tokens) moment ∧
        Stuck maxNesting moment fault ∧ fault.error = error ∧ after.rest = fault.rest ∧
        after.blocks = moment.context.blocks) ∧
    (∀ (tokens : List Token) (program : Program) (after : Parser),
      (Parser.ofTokens tokens).parse = (.ok program, after) →
      after.blocks = [] ∧ after.rest = []) := by
  refine ⟨?_, Parser.parse_keeps, Parser.iterate_parse_keeps, ?_, ?_, ?_, ?_⟩
  · intro parser bound depth hbound hdepth
    exact Parser.item_keeps hdepth hbound
  · intro tokens moment hreaches
    exact hreaches.blocks_le
  · intro tokens bound watched
    have hwatched := Parser.statements_watchedItem maxNesting bound (maxNesting + 1) bound tokens
    refine ⟨hwatched, fun after hrun => ?_⟩
    exact Parser.statements_ne_exhausted maxNesting tokens after (hwatched.symm.trans hrun)
  · intro tokens error after hrun
    obtain ⟨fault, herror, rfl, moment, hreaches, hstuck⟩ :=
      (@Parser.parseWithin_eq_error_iff maxNesting .fresh tokens error after).mp hrun
    exact ⟨moment, fault, hreaches, hstuck, herror, rfl, hstuck.blocks_eq⟩
  · intro tokens program after hrun
    obtain ⟨rest, rfl, hreads⟩ :=
      (@Parser.parseWithin_eq_ok_iff maxNesting .fresh tokens program after).mp hrun
    exact ⟨rfl, hreads.program_after⟩

/-- A group that is not closed in the block of a function leaves the block
open, and a second run keeps it.  A name alone leaves nothing. -/
theorem parser_restores_of_open_block :
    let tokens : List Token :=
      [⟨.arrow, "->"⟩, ⟨.newline, "\n"⟩, ⟨.tab, "\t"⟩, ⟨.opening .round, "("⟩]
    let stopped : Parser := ⟨[], [.indented 1], 0, none⟩
    let inside : Moment := ⟨.inside, Context.fresh.nest, tokens⟩
    let name : List Token := [⟨.ident, "x"⟩]
    (Parser.ofTokens tokens).parse = (.error (.unexpectedEnd (.bracketed .round)), stopped) ∧
      (match Parser.item maxNesting 5 129 (.ofTokens tokens) with
        | .ok _ after => (Parser.ofTokens tokens).Keeps after ∧ after.blocks = []
        | .error _ after => (Parser.ofTokens tokens).Keeps after) ∧
      (Parser.ofTokens tokens).Keeps stopped ∧ stopped.Keeps stopped.parse.2 ∧
      Reaches maxNesting (.ofTokens tokens) inside ∧ inside.context.blocks.length ≤ 1 ∧
      (∃ moment fault, Reaches maxNesting (.ofTokens tokens) moment ∧
        Stuck maxNesting moment fault ∧ fault.rest = [] ∧
        moment.context.blocks = [.indented 1]) ∧
      (Parser.ofTokens name).parse = (.ok ⟨[.leaf .ident "x"]⟩, ⟨[], [], 0, none⟩) := by
  intro tokens stopped inside name
  obtain ⟨hitem, -, hcalls, hmoments, -, herror, -⟩ := parser_restores
  have hrun : (Parser.ofTokens tokens).parse =
      (.error (.unexpectedEnd (.bracketed .round)), stopped) := rfl
  have hname : (Parser.ofTokens name).parse =
      (.ok ⟨[.leaf .ident "x"]⟩, ⟨[], [], 0, none⟩) := rfl
  have hreaches : Reaches maxNesting (.ofTokens tokens) inside :=
    .head .statement (.head (.enter rfl (by decide)) .refl)
  obtain ⟨moment, fault, hmoment, hstuck, -, hrest, hblocks⟩ := herror tokens _ _ hrun
  refine ⟨hrun, hitem (.ofTokens tokens) 5 129 (by decide) (by decide), ?_, hcalls 1 stopped,
    hreaches, (hmoments tokens inside hreaches).1, ?_, hname⟩
  · exact hcalls 1 (.ofTokens tokens)
  · exact ⟨moment, fault, hmoment, hstuck, hrest.symm, hblocks.symm⟩

end Flick
