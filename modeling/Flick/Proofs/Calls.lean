import Flick.Proofs.Reading
import Mathlib.Logic.Relation

/-!
# The calls of a run

`Reads` says what a successful run comes to.  This module says what
happens on the way, and where a run ends that does not succeed.

A `Moment` is a point of a run at which some piece of work begins: the
work itself, the context, and the tokens that are left.  `Calls` relates
two moments if the work of the first one begins the work of the second,
either as a part of itself or as its own next turn.  A part that comes
late is begun only if the parts before it were read, so the rules quote
`Reads`.  The moments that a run passes through are the ones that are
reached by calls from its first moment, and the moments from the first one
to a given one are the calls that are open then.

Nothing catches an error.  So a run fails exactly if a moment is reached
that is `Stuck`, and the parser is left with the tokens and the blocks of
that moment.  `Fails` says this, and the lemmas of the last section say
how the failures of a moment come from those of the moments it calls.
-/

namespace Flick

open Layout

/-! ## Moments -/

/-- The construct that a token opens in front of these tokens. -/
def opened? (token : Token) (rest : List Token) : Option Construct :=
  match token.kind with
  | .arrow => some .functionBody
  | .returnMark => some .returnExpression
  | .opening bracket => some (.bracketed bracket)
  | .ifWord => some .ifBody
  | .elseWord => some .elseBody
  | .ident =>
    if Parser.assigns rest then some .assignment
    else if prefixOperators.contains token.text then some .operand
    else none
  | _ => none

/-- A piece of the parser's work.  The construct is the one that an early
end of the tokens is reported for. -/
inductive Task where
  | item
  /-- The construct that the next token opens, now that it is open. -/
  | inside
  /-- A turn of the items up to a token of a kind that stops them. -/
  | upTo (construct : Construct) (stops : TokenKind → Bool)
  /-- A turn of the lines of a block. -/
  | lines (construct : Construct) (width : Nat)
  /-- The block below a header line. -/
  | block (construct : Construct)
  /-- A turn of the items up to the end. -/
  | program

/-- Whether the work is to read one item. -/
def Task.isItem : Task → Bool
  | .item => true
  | _ => false

/-- A point of a run at which a piece of work begins. -/
structure Moment where
  task : Task
  context : Context
  tokens : List Token

/-- The work of the first moment begins the work of the second one. -/
inductive Calls (limit : Nat) : Moment → Moment → Prop where
  | enter {context : Context} {token : Token} {rest : List Token} {construct : Construct}
      (hopened : opened? token rest = some construct) (hnesting : context.nesting < limit) :
      Calls limit ⟨.item, context, token :: rest⟩ ⟨.inside, context.nest, token :: rest⟩
  | lineFunction {context : Context} {token : Token} {rest : List Token}
      (hkind : token.kind = .arrow) (hline : startsWith .newline (afterTabs rest) = false) :
      Calls limit ⟨.inside, context, token :: rest⟩
        ⟨.upTo .functionBody (context.stopsLine []), context.inBlock .inline, rest⟩
  | blockFunction {context : Context} {token : Token} {rest : List Token}
      (hkind : token.kind = .arrow) (hline : startsWith .newline (afterTabs rest) = true) :
      Calls limit ⟨.inside, context, token :: rest⟩ ⟨.block .functionBody, context, rest⟩
  | returnExpression {context : Context} {token : Token} {rest : List Token}
      (hkind : token.kind = .returnMark) :
      Calls limit ⟨.inside, context, token :: rest⟩
        ⟨.upTo .returnExpression (context.stopsLine []), context, rest⟩
  | assignment {context : Context} {token : Token} {rest : List Token}
      (hkind : token.kind = .ident) (hassigns : Parser.assigns rest = true) :
      Calls limit ⟨.inside, context, token :: rest⟩
        ⟨.upTo .assignment (context.stopsLine []), context, (afterTabs rest).tail⟩
  | operand {context : Context} {token next : Token} {rest more : List Token}
      (hkind : token.kind = .ident) (hassigns : Parser.assigns rest = false)
      (hsymbol : token.text ∈ prefixOperators) (hnext : afterTrivia rest = next :: more)
      (hend : next.kind.endsLine = false) (hcloser : context.closes next.kind = false) :
      Calls limit ⟨.inside, context, token :: rest⟩ ⟨.item, context, next :: more⟩
  | bracketed {context : Context} {token : Token} {rest : List Token} (bracket : Bracket)
      (hkind : token.kind = .opening bracket) :
      Calls limit ⟨.inside, context, token :: rest⟩
        ⟨.upTo (.bracketed bracket) (· == .closing bracket), context.inGroup bracket, rest⟩
  | condition {context : Context} {token : Token} {rest : List Token}
      (hkind : token.kind = .ifWord) :
      Calls limit ⟨.inside, context, token :: rest⟩
        ⟨.upTo .ifCondition endsCondition, context, rest⟩
  | lineIf {context : Context} {token : Token} {rest middle : List Token}
      {condition : List Node} (hkind : token.kind = .ifWord)
      (hcondition : Reads limit (.upTo endsCondition) context rest condition middle)
      (hthen : startsWith .thenWord middle = true) :
      Calls limit ⟨.inside, context, token :: rest⟩
        ⟨.upTo .ifBody (context.stopsLine [.elseWord]), context, middle.tail⟩
  | blockIf {context : Context} {token : Token} {rest middle : List Token}
      {condition : List Node} (hkind : token.kind = .ifWord)
      (hcondition : Reads limit (.upTo endsCondition) context rest condition middle)
      (hthen : startsWith .thenWord middle = false) :
      Calls limit ⟨.inside, context, token :: rest⟩ ⟨.block .ifBody, context, middle⟩
  | lineElse {context : Context} {token next : Token} {rest more : List Token}
      (hkind : token.kind = .elseWord) (hnext : afterTabs rest = next :: more)
      (hend : next.kind.endsLine = false) :
      Calls limit ⟨.inside, context, token :: rest⟩
        ⟨.upTo .elseBody (context.stopsLine []), context, next :: more⟩
  | blockElse {context : Context} {token : Token} {rest : List Token}
      (hkind : token.kind = .elseWord) (hline : startsWith .newline (afterTabs rest) = true) :
      Calls limit ⟨.inside, context, token :: rest⟩ ⟨.block .elseBody, context, afterTabs rest⟩
  | turn {context : Context} {construct : Construct} {stops : TokenKind → Bool}
      {token : Token} {rest : List Token} (hstops : stops token.kind = false)
      (hend : token.kind ≠ .endOfInput) :
      Calls limit ⟨.upTo construct stops, context, token :: rest⟩ ⟨.item, context, token :: rest⟩
  | furtherTurn {context : Context} {construct : Construct} {stops : TokenKind → Bool}
      {token : Token} {rest middle : List Token} {nodes : List Node}
      (hstops : stops token.kind = false) (hend : token.kind ≠ .endOfInput)
      (hitem : Reads limit .item context (token :: rest) nodes middle) :
      Calls limit ⟨.upTo construct stops, context, token :: rest⟩
        ⟨.upTo construct stops, context, middle⟩
  | line {context : Context} {construct : Construct} {width : Nat} {tokens : List Token} :
      Calls limit ⟨.lines construct width, context, tokens⟩
        ⟨.upTo construct (context.stopsLine []), context, tokens⟩
  | furtherLine {context : Context} {construct : Construct} {width : Nat}
      {tokens middle next : List Token} {nodes : List Node}
      (hline : Reads limit (.upTo (context.stopsLine [])) context tokens nodes middle)
      (hnext : continuation? width middle = some next) :
      Calls limit ⟨.lines construct width, context, tokens⟩ ⟨.lines construct width, context, next⟩
  | block {context : Context} {construct : Construct} {tokens : List Token} :
      Calls limit ⟨.block construct, context, tokens⟩
        ⟨.lines construct (nextLine 0 tokens).1,
          context.inBlock (.indented (nextLine 0 tokens).1), (nextLine 0 tokens).2⟩
  | statement {context : Context} {token : Token} {rest : List Token} :
      Calls limit ⟨.program, context, token :: rest⟩ ⟨.item, context, token :: rest⟩
  | furtherStatement {context : Context} {token : Token} {rest middle : List Token}
      {nodes : List Node} (hitem : Reads limit .item context (token :: rest) nodes middle) :
      Calls limit ⟨.program, context, token :: rest⟩ ⟨.program, context, middle⟩

/-- The second moment is one of the run that begins at the first. -/
def Reaches (limit : Nat) : Moment → Moment → Prop := Relation.ReflTransGen (Calls limit)

/-! ## Failures -/

/-- An error, and what is left where it was found: the tokens, and the
blocks that are still open. -/
structure Fault where
  error : ParseError
  rest : List Token
  blocks : List Block

/-- The parser that a fault leaves behind.  The rest of the context is as
it was. -/
def Fault.parser (fault : Fault) (context : Context) : Parser where
  rest := fault.rest
  blocks := fault.blocks
  nesting := context.nesting
  closer := context.closer

/-- The work of the moment finds the fault itself. -/
inductive Stuck (limit : Nat) : Moment → Fault → Prop where
  | noItem {context : Context} :
      Stuck limit ⟨.item, context, []⟩ ⟨.unexpectedEnd .statement, [], context.blocks⟩
  | tooDeep {context : Context} {token : Token} {rest : List Token} {construct : Construct}
      (hopened : opened? token rest = some construct) (hnesting : limit ≤ context.nesting) :
      Stuck limit ⟨.item, context, token :: rest⟩
        ⟨.nestingTooDeep construct, token :: rest, context.blocks⟩
  | noTurn {context : Context} {construct : Construct} {stops : TokenKind → Bool} :
      Stuck limit ⟨.upTo construct stops, context, []⟩
        ⟨.unexpectedEnd construct, [], context.blocks⟩
  | ended {context : Context} {construct : Construct} {stops : TokenKind → Bool}
      {token : Token} {rest : List Token} (hstops : stops token.kind = false)
      (hend : token.kind = .endOfInput) :
      Stuck limit ⟨.upTo construct stops, context, token :: rest⟩
        ⟨.unexpectedEnd construct, token :: rest, context.blocks⟩
  | endedOperand {context : Context} {token : Token} {rest : List Token}
      (hkind : token.kind = .ident) (hassigns : Parser.assigns rest = false)
      (hsymbol : token.text ∈ prefixOperators) (hend : atEnd (afterTrivia rest) = true) :
      Stuck limit ⟨.inside, context, token :: rest⟩
        ⟨.unexpectedEnd .operand, afterTrivia rest, context.blocks⟩
  | noOperand {context : Context} {token next : Token} {rest more : List Token}
      (hkind : token.kind = .ident) (hassigns : Parser.assigns rest = false)
      (hsymbol : token.text ∈ prefixOperators) (hnext : afterTrivia rest = next :: more)
      (hstop : next.kind = .newline ∨ context.closes next.kind = true) :
      Stuck limit ⟨.inside, context, token :: rest⟩
        ⟨.missingOperand token.text, next :: more, context.blocks⟩
  | emptyOperand {context : Context} {token next : Token} {rest more middle : List Token}
      (hkind : token.kind = .ident) (hassigns : Parser.assigns rest = false)
      (hsymbol : token.text ∈ prefixOperators) (hnext : afterTrivia rest = next :: more)
      (hend : next.kind.endsLine = false) (hcloser : context.closes next.kind = false)
      (hitem : Reads limit .item context (next :: more) [] middle) :
      Stuck limit ⟨.inside, context, token :: rest⟩
        ⟨.missingOperand token.text, middle, context.blocks⟩
  | endedElse {context : Context} {token : Token} {rest : List Token}
      (hkind : token.kind = .elseWord) (hend : atEnd (afterTabs rest) = true) :
      Stuck limit ⟨.inside, context, token :: rest⟩
        ⟨.unexpectedEnd .elseBody, afterTabs rest, context.blocks⟩

/-- The run that begins at the moment ends with the fault. -/
def Fails (limit : Nat) (moment : Moment) (fault : Fault) : Prop :=
  ∃ last, Reaches limit moment last ∧ Stuck limit last fault

/-! ## What a call keeps -/

namespace Calls

variable {limit : Nat} {moment next : Moment}

/-- A call never goes back, and it stays inside of the tokens. -/
theorem suffix (h : Calls limit moment next) : next.tokens <:+ moment.tokens := by
  cases h with
  | enter | turn | line | statement => exact List.suffix_refl _
  | lineFunction | blockFunction | returnExpression | bracketed | condition =>
    exact List.suffix_cons _ _
  | assignment =>
    exact ((List.tail_suffix _).trans (afterTabs_suffix _)).trans (List.suffix_cons _ _)
  | operand _ _ _ hnext => exact (hnext ▸ afterTrivia_suffix _).trans (List.suffix_cons _ _)
  | lineIf _ hcondition =>
    exact ((List.tail_suffix _).trans hcondition.suffix).trans (List.suffix_cons _ _)
  | blockIf _ hcondition => exact hcondition.suffix.trans (List.suffix_cons _ _)
  | lineElse _ hnext => exact (hnext ▸ afterTabs_suffix _).trans (List.suffix_cons _ _)
  | blockElse => exact (afterTabs_suffix _).trans (List.suffix_cons _ _)
  | furtherTurn _ _ hitem | furtherStatement hitem => exact hitem.suffix
  | furtherLine hline hnext =>
    exact ((continuation?_suffix hnext).1.trans (List.tail_suffix _)).trans hline.suffix
  | block => exact nextLine_suffix 0 _

/-- A call closes no block. -/
theorem blocks_suffix (h : Calls limit moment next) :
    moment.context.blocks <:+ next.context.blocks := by
  cases h with
  | lineFunction | block => exact List.suffix_cons _ _
  | _ => exact List.suffix_refl _

/-- An item opens one construct, and it does so below the limit only. -/
theorem nesting_of_isItem (h : Calls limit moment next) (htask : moment.task.isItem = true) :
    next.context.nesting = moment.context.nesting + 1 ∧ next.context.nesting ≤ limit := by
  cases h with
  | enter _ hnesting => exact ⟨rfl, hnesting⟩
  | _ => cases htask

/-- Other work opens none. -/
theorem nesting_of_not_isItem (h : Calls limit moment next)
    (htask : moment.task.isItem = false) : next.context.nesting = moment.context.nesting := by
  cases h with
  | enter => cases htask
  | _ => rfl

/-- A call keeps the number of open constructs within the limit. -/
theorem nesting_le (h : Calls limit moment next)
    (hnesting : moment.context.nesting ≤ limit) : next.context.nesting ≤ limit := by
  cases htask : moment.task.isItem with
  | true => exact (h.nesting_of_isItem htask).2
  | false => exact h.nesting_of_not_isItem htask ▸ hnesting

end Calls

namespace Reaches

variable {limit : Nat} {moment last : Moment}

/-- What every call keeps, a run keeps. -/
theorem invariant (h : Reaches limit moment last) (holds : Moment → Prop)
    (hstep : ∀ moment next, Calls limit moment next → holds moment → holds next)
    (hfirst : holds moment) : holds last := by
  induction h with
  | refl => exact hfirst
  | tail _ hcall ih => exact hstep _ _ hcall ih

theorem suffix (h : Reaches limit moment last) : last.tokens <:+ moment.tokens :=
  h.invariant (fun other => other.tokens <:+ moment.tokens)
    (fun _ _ hcall hsuffix => hcall.suffix.trans hsuffix) (List.suffix_refl _)

theorem blocks_suffix (h : Reaches limit moment last) :
    moment.context.blocks <:+ last.context.blocks :=
  h.invariant (fun other => moment.context.blocks <:+ other.context.blocks)
    (fun _ _ hcall hsuffix => hsuffix.trans hcall.blocks_suffix) (List.suffix_refl _)

end Reaches

/-! ## How failures come about -/

section Failures

variable {limit : Nat} {context : Context} {fault : Fault}

/-- A fault is found among the tokens of its moment. -/
theorem Stuck.suffix {moment : Moment} (h : Stuck limit moment fault) :
    fault.rest <:+ moment.tokens := by
  cases h with
  | noItem | tooDeep | noTurn | ended => exact List.suffix_refl _
  | endedOperand => exact (afterTrivia_suffix _).trans (List.suffix_cons _ _)
  | noOperand _ _ _ hnext => exact (hnext ▸ afterTrivia_suffix _).trans (List.suffix_cons _ _)
  | emptyOperand _ _ _ hnext _ _ hitem =>
    exact (hitem.suffix.trans (hnext ▸ afterTrivia_suffix _)).trans (List.suffix_cons _ _)
  | endedElse => exact (afterTabs_suffix _).trans (List.suffix_cons _ _)

theorem Stuck.blocks_eq {moment : Moment} (h : Stuck limit moment fault) :
    fault.blocks = moment.context.blocks := by
  cases h <;> rfl

theorem Fails.suffix {moment : Moment} (h : Fails limit moment fault) :
    fault.rest <:+ moment.tokens := by
  obtain ⟨last, hreaches, hstuck⟩ := h
  exact hstuck.suffix.trans hreaches.suffix

theorem Fails.blocks_suffix {moment : Moment} (h : Fails limit moment fault) :
    moment.context.blocks <:+ fault.blocks := by
  obtain ⟨last, hreaches, hstuck⟩ := h
  rw [hstuck.blocks_eq]
  exact hreaches.blocks_suffix

/-- A run fails where it begins, or in the work that it begins next. -/
theorem fails_iff {moment : Moment} :
    Fails limit moment fault ↔
      Stuck limit moment fault ∨ ∃ next, Calls limit moment next ∧ Fails limit next fault := by
  constructor
  · intro h
    obtain ⟨last, hreaches, hstuck⟩ := h
    rcases Relation.ReflTransGen.cases_head hreaches with rfl | ⟨next, hcall, hreaches⟩
    · exact .inl hstuck
    · exact .inr ⟨next, hcall, last, hreaches, hstuck⟩
  · intro h
    rcases h with hstuck | ⟨next, hcall, last, hreaches, hstuck⟩
    · exact ⟨moment, .refl, hstuck⟩
    · exact ⟨last, .head hcall hreaches, hstuck⟩

/-! ### Sequences -/

section Sequences

variable {construct : Construct} {stops : TokenKind → Bool} {width : Nat} {token : Token}
  {rest tokens : List Token}

theorem fails_upTo_nil :
    Fails limit ⟨.upTo construct stops, context, []⟩ fault ↔
      fault = ⟨.unexpectedEnd construct, [], context.blocks⟩ := by
  rw [fails_iff]
  constructor
  · intro h
    rcases h with hstuck | ⟨next, hcall, -⟩
    · cases hstuck
      rfl
    · cases hcall
  · intro h
    exact .inl (h ▸ .noTurn)

theorem not_fails_upTo_of_stops (hstops : stops token.kind = true) :
    ¬Fails limit ⟨.upTo construct stops, context, token :: rest⟩ fault := by
  rw [fails_iff]
  intro h
  rcases h with hstuck | ⟨next, hcall, -⟩
  · cases hstuck
    simp_all
  · cases hcall <;> simp_all

theorem fails_upTo_of_end (hstops : stops token.kind = false) (hend : token.kind = .endOfInput) :
    Fails limit ⟨.upTo construct stops, context, token :: rest⟩ fault ↔
      fault = ⟨.unexpectedEnd construct, token :: rest, context.blocks⟩ := by
  rw [fails_iff]
  constructor
  · intro h
    rcases h with hstuck | ⟨next, hcall, -⟩
    · cases hstuck
      rfl
    · cases hcall <;> contradiction
  · intro h
    exact .inl (h ▸ .ended hstops hend)

theorem fails_upTo_of_turn (hstops : stops token.kind = false) (hend : token.kind ≠ .endOfInput) :
    Fails limit ⟨.upTo construct stops, context, token :: rest⟩ fault ↔
      Fails limit ⟨.item, context, token :: rest⟩ fault ∨
        ∃ nodes middle, Reads limit .item context (token :: rest) nodes middle ∧
          Fails limit ⟨.upTo construct stops, context, middle⟩ fault := by
  rw [fails_iff]
  constructor
  · intro h
    rcases h with hstuck | ⟨next, hcall, hnext⟩
    · cases hstuck
      contradiction
    · cases hcall with
      | turn => exact .inl hnext
      | furtherTurn _ _ hitem => exact .inr ⟨_, _, hitem, hnext⟩
  · intro h
    rcases h with hitem | ⟨nodes, middle, hitem, hmore⟩
    · exact .inr ⟨_, .turn hstops hend, hitem⟩
    · exact .inr ⟨_, .furtherTurn hstops hend hitem, hmore⟩

theorem fails_lines :
    Fails limit ⟨.lines construct width, context, tokens⟩ fault ↔
      Fails limit ⟨.upTo construct (context.stopsLine []), context, tokens⟩ fault ∨
        ∃ nodes middle, Reads limit (.upTo (context.stopsLine [])) context tokens nodes middle ∧
          ∃ next, continuation? width middle = some next ∧
            Fails limit ⟨.lines construct width, context, next⟩ fault := by
  rw [fails_iff]
  constructor
  · intro h
    rcases h with hstuck | ⟨next, hcall, hnext⟩
    · cases hstuck
    · cases hcall with
      | line => exact .inl hnext
      | furtherLine hline hcontinues => exact .inr ⟨_, _, hline, _, hcontinues, hnext⟩
  · intro h
    rcases h with hline | ⟨nodes, middle, hline, next, hcontinues, hmore⟩
    · exact .inr ⟨_, .line, hline⟩
    · exact .inr ⟨_, .furtherLine hline hcontinues, hmore⟩

theorem fails_block :
    Fails limit ⟨.block construct, context, tokens⟩ fault ↔
      Fails limit ⟨.lines construct (nextLine 0 tokens).1,
        context.inBlock (.indented (nextLine 0 tokens).1), (nextLine 0 tokens).2⟩ fault := by
  rw [fails_iff]
  constructor
  · intro h
    rcases h with hstuck | ⟨next, hcall, hnext⟩
    · cases hstuck
    · cases hcall
      exact hnext
  · intro h
    exact .inr ⟨_, .block, h⟩

theorem not_fails_program_nil : ¬Fails limit ⟨.program, context, []⟩ fault := by
  rw [fails_iff]
  intro h
  rcases h with hstuck | ⟨next, hcall, -⟩
  · cases hstuck
  · cases hcall

theorem fails_program_cons :
    Fails limit ⟨.program, context, token :: rest⟩ fault ↔
      Fails limit ⟨.item, context, token :: rest⟩ fault ∨
        ∃ nodes middle, Reads limit .item context (token :: rest) nodes middle ∧
          Fails limit ⟨.program, context, middle⟩ fault := by
  rw [fails_iff]
  constructor
  · intro h
    rcases h with hstuck | ⟨next, hcall, hnext⟩
    · cases hstuck
    · cases hcall with
      | statement => exact .inl hnext
      | furtherStatement hitem => exact .inr ⟨_, _, hitem, hnext⟩
  · intro h
    rcases h with hitem | ⟨nodes, middle, hitem, hmore⟩
    · exact .inr ⟨_, .statement, hitem⟩
    · exact .inr ⟨_, .furtherStatement hitem, hmore⟩

end Sequences

/-! ### Items and constructs -/

section FirstToken

variable {token : Token} {rest : List Token}

theorem fails_item_nil :
    Fails limit ⟨.item, context, []⟩ fault ↔
      fault = ⟨.unexpectedEnd .statement, [], context.blocks⟩ := by
  rw [fails_iff]
  constructor
  · intro h
    rcases h with hstuck | ⟨next, hcall, -⟩
    · cases hstuck
      rfl
    · cases hcall
  · intro h
    exact .inl (h ▸ .noItem)

/-- A token that opens nothing is taken without fail. -/
theorem not_fails_item (hopened : opened? token rest = none) :
    ¬Fails limit ⟨.item, context, token :: rest⟩ fault := by
  rw [fails_iff]
  intro h
  rcases h with hstuck | ⟨next, hcall, -⟩
  · cases hstuck
    simp_all
  · cases hcall
    simp_all

theorem fails_item {construct : Construct} (hopened : opened? token rest = some construct) :
    Fails limit ⟨.item, context, token :: rest⟩ fault ↔
      limit ≤ context.nesting ∧
          fault = ⟨.nestingTooDeep construct, token :: rest, context.blocks⟩ ∨
        context.nesting < limit ∧ Fails limit ⟨.inside, context.nest, token :: rest⟩ fault := by
  rw [fails_iff]
  constructor
  · intro h
    rcases h with hstuck | ⟨next, hcall, hnext⟩
    · cases hstuck with
      | tooDeep hother hnesting =>
        obtain rfl : construct = _ := Option.some.inj (hopened.symm.trans hother)
        exact .inl ⟨hnesting, rfl⟩
    · cases hcall with
      | enter _ hnesting => exact .inr ⟨hnesting, hnext⟩
  · intro h
    rcases h with ⟨hnesting, rfl⟩ | ⟨hnesting, hinside⟩
    · exact .inl (.tooDeep hopened hnesting)
    · exact .inr ⟨_, .enter hopened hnesting, hinside⟩

theorem fails_arrow (hkind : token.kind = .arrow) :
    Fails limit ⟨.inside, context, token :: rest⟩ fault ↔
      if startsWith .newline (afterTabs rest) then
        Fails limit ⟨.block .functionBody, context, rest⟩ fault
      else
        Fails limit ⟨.upTo .functionBody (context.stopsLine []), context.inBlock .inline, rest⟩
          fault := by
  rw [fails_iff]
  constructor
  · intro h
    rcases h with hstuck | ⟨next, hcall, hnext⟩
    · cases hstuck <;> simp_all
    · cases hcall <;> simp_all
  · intro h
    split at h
    next hline => exact .inr ⟨_, .blockFunction hkind hline, h⟩
    next hline => exact .inr ⟨_, .lineFunction hkind (by simpa using hline), h⟩

theorem fails_returnMark (hkind : token.kind = .returnMark) :
    Fails limit ⟨.inside, context, token :: rest⟩ fault ↔
      Fails limit ⟨.upTo .returnExpression (context.stopsLine []), context, rest⟩ fault := by
  rw [fails_iff]
  constructor
  · intro h
    rcases h with hstuck | ⟨next, hcall, hnext⟩
    · cases hstuck <;> simp_all
    · cases hcall <;> simp_all
  · intro h
    exact .inr ⟨_, .returnExpression hkind, h⟩

theorem fails_assignment (hkind : token.kind = .ident) (hassigns : Parser.assigns rest = true) :
    Fails limit ⟨.inside, context, token :: rest⟩ fault ↔
      Fails limit ⟨.upTo .assignment (context.stopsLine []), context, (afterTabs rest).tail⟩
        fault := by
  rw [fails_iff]
  constructor
  · intro h
    rcases h with hstuck | ⟨next, hcall, hnext⟩
    · cases hstuck <;> simp_all
    · cases hcall <;> simp_all
  · intro h
    exact .inr ⟨_, .assignment hkind hassigns, h⟩

theorem fails_operator (hkind : token.kind = .ident) (hassigns : Parser.assigns rest = false)
    (hsymbol : token.text ∈ prefixOperators) :
    Fails limit ⟨.inside, context, token :: rest⟩ fault ↔
      atEnd (afterTrivia rest) = true ∧
          fault = ⟨.unexpectedEnd .operand, afterTrivia rest, context.blocks⟩ ∨
        ∃ next more, afterTrivia rest = next :: more ∧
          ((next.kind = .newline ∨ context.closes next.kind = true) ∧
              fault = ⟨.missingOperand token.text, next :: more, context.blocks⟩ ∨
            next.kind.endsLine = false ∧ context.closes next.kind = false ∧
              (Fails limit ⟨.item, context, next :: more⟩ fault ∨
                ∃ middle, Reads limit .item context (next :: more) [] middle ∧
                  fault = ⟨.missingOperand token.text, middle, context.blocks⟩)) := by
  rw [fails_iff]
  constructor
  · intro h
    rcases h with hstuck | ⟨next, hcall, hnext⟩
    · cases hstuck with
      | endedOperand _ _ _ hend => exact .inl ⟨hend, rfl⟩
      | noOperand _ _ _ hnext hstop => exact .inr ⟨_, _, hnext, .inl ⟨hstop, rfl⟩⟩
      | emptyOperand _ _ _ hnext hend hcloser hitem =>
        exact .inr ⟨_, _, hnext, .inr ⟨hend, hcloser, .inr ⟨_, hitem, rfl⟩⟩⟩
      | endedElse => simp_all
    · cases hcall with
      | operand _ _ _ hafter hend hcloser =>
        exact .inr ⟨_, _, hafter, .inr ⟨hend, hcloser, .inl hnext⟩⟩
      | _ => simp_all
  · intro h
    rcases h with ⟨hend, rfl⟩ | ⟨next, more, hnext, ⟨hstop, rfl⟩ | ⟨hend, hcloser, hoperand⟩⟩
    · exact .inl (.endedOperand hkind hassigns hsymbol hend)
    · exact .inl (.noOperand hkind hassigns hsymbol hnext hstop)
    · rcases hoperand with hitem | ⟨middle, hitem, rfl⟩
      · exact .inr ⟨_, .operand hkind hassigns hsymbol hnext hend hcloser, hitem⟩
      · exact .inl (.emptyOperand hkind hassigns hsymbol hnext hend hcloser hitem)

theorem fails_opening {bracket : Bracket} (hkind : token.kind = .opening bracket) :
    Fails limit ⟨.inside, context, token :: rest⟩ fault ↔
      Fails limit
        ⟨.upTo (.bracketed bracket) (· == .closing bracket), context.inGroup bracket, rest⟩
        fault := by
  rw [fails_iff]
  constructor
  · intro h
    rcases h with hstuck | ⟨next, hcall, hnext⟩
    · cases hstuck <;> simp_all
    · cases hcall <;> simp_all
  · intro h
    exact .inr ⟨_, .bracketed bracket hkind, h⟩

theorem fails_ifWord (hkind : token.kind = .ifWord) :
    Fails limit ⟨.inside, context, token :: rest⟩ fault ↔
      Fails limit ⟨.upTo .ifCondition endsCondition, context, rest⟩ fault ∨
        ∃ condition middle, Reads limit (.upTo endsCondition) context rest condition middle ∧
          if startsWith .thenWord middle then
            Fails limit ⟨.upTo .ifBody (context.stopsLine [.elseWord]), context, middle.tail⟩ fault
          else Fails limit ⟨.block .ifBody, context, middle⟩ fault := by
  rw [fails_iff]
  constructor
  · intro h
    rcases h with hstuck | ⟨next, hcall, hnext⟩
    · cases hstuck <;> simp_all
    · cases hcall with
      | condition => exact .inl hnext
      | lineIf _ hcondition hthen => exact .inr ⟨_, _, hcondition, by simpa [hthen] using hnext⟩
      | blockIf _ hcondition hthen => exact .inr ⟨_, _, hcondition, by simpa [hthen] using hnext⟩
      | _ => simp_all
  · intro h
    rcases h with hcondition | ⟨condition, middle, hcondition, hbody⟩
    · exact .inr ⟨_, .condition hkind, hcondition⟩
    · split at hbody
      next hthen => exact .inr ⟨_, .lineIf hkind hcondition hthen, hbody⟩
      next hthen => exact .inr ⟨_, .blockIf hkind hcondition (by simpa using hthen), hbody⟩

theorem fails_elseWord (hkind : token.kind = .elseWord) :
    Fails limit ⟨.inside, context, token :: rest⟩ fault ↔
      atEnd (afterTabs rest) = true ∧
          fault = ⟨.unexpectedEnd .elseBody, afterTabs rest, context.blocks⟩ ∨
        startsWith .newline (afterTabs rest) = true ∧
          Fails limit ⟨.block .elseBody, context, afterTabs rest⟩ fault ∨
        ∃ next more, afterTabs rest = next :: more ∧ next.kind.endsLine = false ∧
          Fails limit ⟨.upTo .elseBody (context.stopsLine []), context, next :: more⟩ fault := by
  rw [fails_iff]
  constructor
  · intro h
    rcases h with hstuck | ⟨next, hcall, hnext⟩
    · cases hstuck with
      | endedElse _ hend => exact .inl ⟨hend, rfl⟩
      | _ => simp_all
    · cases hcall with
      | lineElse _ hafter hend => exact .inr (.inr ⟨_, _, hafter, hend, hnext⟩)
      | blockElse _ hline => exact .inr (.inl ⟨hline, hnext⟩)
      | _ => simp_all
  · intro h
    rcases h with ⟨hend, rfl⟩ | ⟨hline, hblock⟩ | ⟨next, more, hnext, hend, hline⟩
    · exact .inl (.endedElse hkind hend)
    · exact .inr ⟨_, .blockElse hkind hline, hblock⟩
    · exact .inr ⟨_, .lineElse hkind hnext hend, hline⟩

end FirstToken

end Failures

end Flick
