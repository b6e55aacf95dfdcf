import Flick.Proofs.Reading

/-!
# The parser reads by the rules

`parse_eq_ok_iff` says that the parser answers a program exactly when the
rules of `Reads` read its token list to the end.  A fact about all
successful runs is then an induction over readings, and a run is shown to
succeed by giving a reading.

`Yields` is how an action of the parser is described: it says with which
values, and in front of which tokens, the action succeeds in a place, and
that it succeeds with no others.  Each action has one such lemma, built
from those of the actions that it runs.  The bounds on the recursion and
on the loops stay inside of these lemmas: a loop has one turn more than
there are tokens, and an item is at least one of them.
-/

namespace Flick

namespace Parser

open Layout

/-! ## Exact outcomes -/

section Outcomes

variable {α β : Type} {context : Context} {tokens : List Token}

/-- The action succeeds in this place exactly with the values, and in
front of the tokens, that `outcome` tells.  It leaves the context as it
was. -/
def Yields (action : ParserM α) (context : Context) (tokens : List Token)
    (outcome : α → List Token → Prop) : Prop :=
  ∀ value parser, action (context.parser tokens) = .ok value parser ↔
    ∃ after, parser = context.parser after ∧ outcome value after

namespace Yields

theorem congr {action : ParserM α} {first second : α → List Token → Prop}
    (h : Yields action context tokens first)
    (hiff : ∀ value after, first value after ↔ second value after) :
    Yields action context tokens second := by
  intro value parser
  rw [h value parser]
  simp only [hiff]

theorem pure (value : α) :
    Yields (pure value) context tokens fun other after => other = value ∧ after = tokens := by
  intro other parser
  show EStateM.Result.ok value (context.parser tokens) = .ok other parser ↔ _
  simp only [EStateM.Result.ok.injEq]
  constructor
  · intro h
    exact ⟨tokens, h.2.symm, h.1.symm, rfl⟩
  · intro h
    obtain ⟨after, rfl, rfl, rfl⟩ := h
    exact ⟨rfl, rfl⟩

theorem fail (error : ParseError) :
    Yields (fail error : ParserM α) context tokens fun _ _ => False := by
  intro value parser
  show EStateM.Result.error (Failure.invalid error) (context.parser tokens) = .ok value parser ↔ _
  simp

theorem bind {action : ParserM α} {next : α → ParserM β} {first : α → List Token → Prop}
    {second : α → List Token → β → List Token → Prop}
    (haction : Yields action context tokens first)
    (hnext : ∀ value middle, first value middle →
      Yields (next value) context middle (second value middle)) :
    Yields (action >>= next) context tokens fun result after =>
      ∃ value middle, first value middle ∧ second value middle result after := by
  intro result parser
  show EStateM.bind action next (context.parser tokens) = .ok result parser ↔ _
  unfold EStateM.bind
  cases hrun : action (context.parser tokens) with
  | error error parser' =>
    simp only [reduceCtorEq, false_iff]
    intro h
    obtain ⟨after, -, value, middle, hfirst, -⟩ := h
    have hok := (haction value _).mpr ⟨middle, rfl, hfirst⟩
    exact absurd (hok.symm.trans hrun) (by simp)
  | ok value parser' =>
    obtain ⟨middle, rfl, hfirst⟩ := (haction value parser').mp hrun
    show next value (context.parser middle) = .ok result parser ↔ _
    rw [hnext value middle hfirst result parser]
    constructor
    · intro h
      obtain ⟨after, hparser, hsecond⟩ := h
      exact ⟨after, hparser, value, middle, hfirst, hsecond⟩
    · intro h
      obtain ⟨after, hparser, other, front, hother, hsecond⟩ := h
      have hok := (haction other _).mpr ⟨front, rfl, hother⟩
      obtain ⟨rfl, hfront⟩ := EStateM.Result.ok.inj (hrun.symm.trans hok)
      obtain rfl : middle = front := congrArg Parser.rest hfront
      exact ⟨after, hparser, hsecond⟩

/-- The last step of an action makes the value. -/
theorem bindPure {action : ParserM α} {make : α → β} {outcome : α → List Token → Prop}
    (haction : Yields action context tokens outcome) :
    Yields (action >>= fun value => Pure.pure (make value)) context tokens fun result after =>
      ∃ value, outcome value after ∧ result = make value := by
  refine (haction.bind fun value _ _ => pure (make value)).congr fun result after => ?_
  constructor
  · intro h
    obtain ⟨value, middle, houtcome, hresult, rfl⟩ := h
    exact ⟨value, houtcome, hresult⟩
  · intro h
    obtain ⟨value, houtcome, hresult⟩ := h
    exact ⟨value, after, houtcome, hresult, rfl⟩

/-- The last step of an action makes the value, or fails if there is
nothing to make it from. -/
theorem bindSome {action : ParserM (Option α)} {next : Option α → ParserM β} {make : α → β}
    {error : ParseError} {outcome : Option α → List Token → Prop}
    (haction : Yields action context tokens outcome)
    (hsome : ∀ value, next (some value) = Pure.pure (make value))
    (hnone : next none = Parser.fail error) :
    Yields (action >>= next) context tokens fun result after =>
      ∃ value, outcome (some value) after ∧ result = make value := by
  have hnext : ∀ value middle, Yields (next value) context middle fun result after =>
      ∃ found, value = some found ∧ result = make found ∧ after = middle := by
    intro value middle
    cases value with
    | none =>
      rw [hnone]
      exact (fail error).congr fun result after => ⟨False.elim, by simp⟩
    | some found =>
      rw [hsome]
      exact (pure (make found)).congr fun result after => by simp
  refine (haction.bind fun value middle _ => hnext value middle).congr fun result after => ?_
  constructor
  · intro h
    obtain ⟨_, middle, houtcome, found, rfl, hresult, rfl⟩ := h
    exact ⟨found, houtcome, hresult⟩
  · intro h
    obtain ⟨found, houtcome, hresult⟩ := h
    exact ⟨some found, after, houtcome, found, rfl, hresult, rfl⟩

theorem map {action : ParserM α} {make : α → β} {outcome : α → List Token → Prop}
    (haction : Yields action context tokens outcome) :
    Yields (make <$> action) context tokens fun result after =>
      ∃ value, outcome value after ∧ result = make value := by
  have hmap : make <$> action = action >>= fun value => Pure.pure (make value) := by
    funext parser
    show EStateM.map make action parser = EStateM.bind action _ parser
    unfold EStateM.map EStateM.bind
    cases action parser <;> rfl
  rw [hmap]
  exact haction.bindPure

/-- An action may look at the parser that it starts from. -/
theorem ofGet {next : Parser → ParserM α} {outcome : α → List Token → Prop}
    (h : Yields (next (context.parser tokens)) context tokens outcome) :
    Yields (get >>= next) context tokens outcome := h

/-- After a move the action goes on at the new tokens. -/
theorem ofMove {action : ParserM α} {target : List Token} {outcome : α → List Token → Prop}
    (h : Yields action context target outcome) :
    Yields (moveTo target >>= fun _ => action) context tokens outcome := h

theorem ofAdvance {action : ParserM α} {outcome : α → List Token → Prop}
    (h : Yields action context tokens.tail outcome) :
    Yields (advance >>= fun _ => action) context tokens outcome := h

theorem ofModifyRest {action : ParserM α} {f : List Token → List Token}
    {outcome : α → List Token → Prop} (h : Yields action context (f tokens) outcome) :
    Yields ((modify fun parser => { parser with rest := f parser.rest }) >>= fun _ => action)
      context tokens outcome := h

/-- With a token in front, an action that asks for it gets it. -/
theorem ofCurrent {construct : Construct} {next : Token → ParserM α} {token : Token}
    {rest : List Token} {outcome : α → List Token → Prop}
    (h : Yields (next token) context (token :: rest) outcome) :
    Yields (current construct >>= next) context (token :: rest) outcome := h

theorem ofCurrent_nil {construct : Construct} {next : Token → ParserM α} :
    Yields (current construct >>= next) context [] fun _ _ => False :=
  fail (.unexpectedEnd construct)

/-- An action that runs another one in a context of its own, and restores
what it changed, succeeds as the other one does. -/
theorem ofInner {action outer : ParserM α} {inner : Context} {outcome : α → List Token → Prop}
    (restore : Parser → Parser) (h : Yields action inner tokens outcome)
    (houter : ∀ value parser, outer (context.parser tokens) = .ok value parser ↔
      ∃ stopped, action (inner.parser tokens) = .ok value stopped ∧ restore stopped = parser)
    (hrestore : ∀ after, restore (inner.parser after) = context.parser after) :
    Yields outer context tokens outcome := by
  intro value parser
  rw [houter]
  constructor
  · intro hvalue
    obtain ⟨stopped, hrun, rfl⟩ := hvalue
    obtain ⟨after, rfl, houtcome⟩ := (h value stopped).mp hrun
    exact ⟨after, hrestore after, houtcome⟩
  · intro hvalue
    obtain ⟨after, rfl, houtcome⟩ := hvalue
    exact ⟨_, (h value _).mpr ⟨after, rfl, houtcome⟩, hrestore after⟩

theorem nested {limit : Nat} {construct : Construct} {action : ParserM α}
    {outcome : α → List Token → Prop}
    (h : context.nesting < limit → Yields action context.nest tokens outcome) :
    Yields (Parser.nested limit construct action) context tokens fun value after =>
      context.nesting < limit ∧ outcome value after := by
  by_cases hlimit : limit ≤ context.nesting
  · intro value parser
    have hnot : ¬context.nesting < limit := by omega
    simp [Parser.nested, Context.parser, hlimit, hnot]
  · have hlt : context.nesting < limit := by omega
    have hinner : Yields (Parser.nested limit construct action) context tokens outcome := by
      refine (h hlt).ofInner (fun parser => { parser with nesting := parser.nesting - 1 })
        (fun value parser => ?_) fun after => rfl
      show (if limit ≤ context.nesting then _ else _) = _ ↔ _
      rw [if_neg hlimit]
      split
      next hrun =>
        replace hrun : action (context.nest.parser tokens) = .ok _ _ := hrun
        simp [hrun, and_assoc]
      next hrun =>
        replace hrun : action (context.nest.parser tokens) = .error _ _ := hrun
        simp [hrun]
    exact hinner.congr fun value after => by simp [hlt]

/-- A construct is one node, made inside of one more open construct. -/
theorem construct {limit : Nat} {construct : Construct} {action : ParserM Node}
    {outcome : Node → List Token → Prop}
    (h : context.nesting < limit → Yields action context.nest tokens outcome) :
    Yields (some <$> Parser.nested limit construct action) context tokens fun result after =>
      ∃ node, result.toList = [node] ∧ context.nesting < limit ∧ outcome node after := by
  refine (nested h).map.congr fun result after => ?_
  cases result with
  | none => simp
  | some node => simp [and_comm]

theorem closedBy {bracket : Bracket} {action : ParserM α} {outcome : α → List Token → Prop}
    (h : Yields action (context.inGroup bracket) tokens outcome) :
    Yields (Parser.closedBy bracket action) context tokens outcome := by
  refine h.ofInner (fun parser => { parser with closer := context.closer })
    (fun value parser => ?_) fun after => rfl
  unfold Parser.closedBy
  split
  next hrun =>
    replace hrun : action ((context.inGroup bracket).parser tokens) = .ok _ _ := hrun
    rw [hrun]
    simp [Context.parser, and_assoc]
  next hrun =>
    replace hrun : action ((context.inGroup bracket).parser tokens) = .error _ _ := hrun
    simp [hrun]

theorem inBlock {block : Block} {action : ParserM α} {outcome : α → List Token → Prop}
    (h : Yields action (context.inBlock block) tokens outcome) :
    Yields (Parser.inBlock block action) context tokens outcome := by
  refine h.ofInner (fun parser => { parser with blocks := parser.blocks.tail })
    (fun value parser => ?_) fun after => rfl
  show EStateM.bind action _ ((context.inBlock block).parser tokens) = _ ↔ _
  unfold EStateM.bind
  cases action ((context.inBlock block).parser tokens) with
  | error error stopped => simp
  | ok found stopped =>
    show EStateM.Result.ok found { stopped with blocks := stopped.blocks.tail } = _ ↔ _
    simp [and_assoc]

end Yields

end Outcomes

/-! ## Loops -/

section Loops

variable {limit bound nesting : Nat} {item : ParserM (Option Node)} {context : Context}

/-- The action reads items as the rules do, in every context with so many
open constructs and in front of fewer than `bound` tokens. -/
def ReadsItems (limit bound nesting : Nat) (item : ParserM (Option Node)) : Prop :=
  ∀ context tokens, context.nesting = nesting → tokens.length < bound →
    Yields item context tokens fun node after => Reads limit .item context tokens node.toList after

/-- The items in front of a stop, with more turns than tokens. -/
theorem items_yields (hitem : ReadsItems limit bound nesting item)
    (hcontext : context.nesting = nesting) (construct : Construct) (stops : TokenKind → Bool)
    {turns : Nat} {tokens : List Token} (hbound : tokens.length < bound)
    (hturns : tokens.length < turns) :
    Yields (items construct stops item turns) context tokens
      (Reads limit (.upTo stops) context tokens) := by
  induction turns generalizing tokens with
  | zero => exact absurd hturns (Nat.not_lt_zero _)
  | succ turns ih =>
    cases tokens with
    | nil => exact Yields.ofCurrent_nil.congr fun nodes after => ⟨False.elim, nofun⟩
    | cons token rest =>
      apply Yields.ofCurrent
      split
      next hstops =>
        refine (Yields.pure []).congr fun nodes after => ?_
        constructor
        · intro h
          obtain ⟨rfl, rfl⟩ := h
          exact .stop hstops
        · intro h
          cases h with
          | stop => exact ⟨rfl, rfl⟩
          | step hnot => simp [hstops] at hnot
      next hstops =>
      split
      next hend =>
        refine (Yields.fail _).congr fun nodes after => ⟨False.elim, fun h => ?_⟩
        cases h with
        | stop hyes => exact hstops hyes
        | step _ hnot => exact hnot hend
      next hend =>
        have hread := hitem context (token :: rest) hcontext hbound
        refine (hread.bind fun node middle hnode => (ih ?_ ?_).bindPure).congr
          fun nodes after => ?_
        · exact Nat.lt_of_le_of_lt hnode.length_le hbound
        · exact Nat.lt_of_lt_of_le hnode.length_lt (Nat.le_of_lt_succ hturns)
        constructor
        · intro h
          obtain ⟨node, middle, hnode, more, hmore, rfl⟩ := h
          exact .step (by simpa using hstops) hend hnode hmore
        · intro h
          cases h with
          | stop hyes => exact absurd hyes hstops
          | step _ _ hnode hmore =>
            obtain ⟨node, rfl⟩ := hnode.exists_toList_eq
            exact ⟨node, _, hnode, _, hmore, rfl⟩

/-- How the lines of a block go on after one of them. -/
def LinesAfter (limit width : Nat) (context : Context) (nodes : List Node)
    (middle : List Token) (result : List Node) (after : List Token) : Prop :=
  match continuation? width middle with
  | none => result = nodes ∧ after = middle
  | some next => ∃ more, Reads limit (.lines width) context next more after ∧
      result = nodes ++ more

theorem reads_lines_iff {width : Nat} {tokens after : List Token} {result : List Node} :
    Reads limit (.lines width) context tokens result after ↔
      ∃ nodes middle, Reads limit (.upTo (context.stopsLine [])) context tokens nodes middle ∧
        LinesAfter limit width context nodes middle result after := by
  constructor
  · intro h
    cases h with
    | lastLine hline hlast => exact ⟨_, _, hline, by simp [LinesAfter, hlast]⟩
    | moreLines hline hnext hmore =>
      exact ⟨_, _, hline, by simpa [LinesAfter, hnext] using hmore⟩
  · intro h
    obtain ⟨nodes, middle, hline, hafter⟩ := h
    rw [LinesAfter] at hafter
    split at hafter
    next hlast =>
      obtain ⟨rfl, rfl⟩ := hafter
      exact .lastLine hline hlast
    next hnext =>
      obtain ⟨more, hmore, rfl⟩ := hafter
      exact .moreLines hline hnext hmore

/-- All lines of a block, with more turns than tokens. -/
theorem lines_yields {width turns : Nat} {line : ParserM (List Node)} {tokens : List Token}
    (hline : ∀ tokens, tokens.length < bound →
      Yields line context tokens (Reads limit (.upTo (context.stopsLine [])) context tokens))
    (hbound : tokens.length < bound) (hturns : tokens.length < turns) :
    Yields (lines width line turns) context tokens (Reads limit (.lines width) context tokens) := by
  induction turns generalizing tokens with
  | zero => exact absurd hturns (Nat.not_lt_zero _)
  | succ turns ih =>
    refine Yields.congr ?_ fun nodes after => reads_lines_iff.symm
    refine (hline tokens hbound).bind fun nodes middle hnodes => Yields.ofGet ?_
    have hle := hnodes.length_le
    show Yields (match continuation? width middle with | none => _ | some rest => _) _ _ _
    unfold LinesAfter
    cases hnext : continuation? width middle with
    | none => exact Yields.pure nodes
    | some next =>
      obtain ⟨hsuffix, hne⟩ := continuation?_suffix hnext
      have hlt := hsuffix.length_le
      have hpos := List.length_pos_iff.mpr hne
      rw [List.length_tail] at hlt
      apply Yields.ofMove
      exact (ih (by omega) (by omega)).bindPure

/-- All statements, with more turns than tokens. -/
theorem statements_yields (hitem : ReadsItems limit bound nesting item)
    (hcontext : context.nesting = nesting) {turns : Nat} {tokens : List Token}
    (hbound : tokens.length < bound) (hturns : tokens.length < turns) :
    Yields (statements item turns) context tokens (Reads limit .program context tokens) := by
  induction turns generalizing tokens with
  | zero => exact absurd hturns (Nat.not_lt_zero _)
  | succ turns ih =>
    apply Yields.ofGet
    cases tokens with
    | nil => exact (Yields.pure []).congr fun nodes after => Reads.program_nil_iff.symm
    | cons token rest =>
      have hread := hitem context (token :: rest) hcontext hbound
      refine (hread.bind fun node middle hnode => (ih ?_ ?_).bindPure).congr
        fun nodes after => ?_
      · exact Nat.lt_of_le_of_lt hnode.length_le hbound
      · exact Nat.lt_of_lt_of_le hnode.length_lt (Nat.le_of_lt_succ hturns)
      constructor
      · intro h
        obtain ⟨node, middle, hnode, more, hmore, rfl⟩ := h
        exact .statement hnode hmore
      · intro h
        cases h with
        | statement hnode hmore =>
          obtain ⟨node, rfl⟩ := hnode.exists_toList_eq
          exact ⟨node, _, hnode, _, hmore, rfl⟩

end Loops

/-! ## Constructs -/

section Constructs

variable {limit bound nesting : Nat} {item : ParserM (Option Node)} {context : Context}
  {tokens : List Token}

theorem restOfLine_yields (hitem : ReadsItems limit bound nesting item)
    (hcontext : context.nesting = nesting) (hbound : tokens.length < bound)
    (construct : Construct) (stops : List TokenKind) :
    Yields (restOfLine item bound construct stops) context tokens
      (Reads limit (.upTo (context.stopsLine stops)) context tokens) :=
  Yields.ofGet (items_yields hitem hcontext construct _ hbound hbound)

theorem indentedBody_yields (hitem : ReadsItems limit bound nesting item)
    (hcontext : context.nesting = nesting) (hbound : tokens.length < bound)
    (construct : Construct) :
    Yields (indentedBody item bound construct) context tokens
      (Reads limit .block context tokens) := by
  have hle := Nat.lt_of_le_of_lt (nextLine_suffix 0 tokens).length_le hbound
  have hblock : (context.inBlock (.indented (nextLine 0 tokens).1)).nesting = nesting := hcontext
  refine Yields.congr ?_ fun nodes after => Reads.block_iff.symm
  apply Yields.ofGet
  apply Yields.ofMove
  apply Yields.inBlock
  apply lines_yields (fun tokens hbound => ?_) hle hle
  exact restOfLine_yields hitem hblock hbound construct []

theorem functionBody_yields (hitem : ReadsItems limit bound nesting item)
    (hcontext : context.nesting = nesting) (hbound : tokens.length < bound) :
    Yields (functionBody item bound) context tokens fun body after =>
      if startsWith .newline (afterTabs tokens) then Reads limit .block context tokens body after
      else
        Reads limit (.upTo (context.stopsLine [])) (context.inBlock .inline) tokens body after := by
  apply Yields.ofGet
  show Yields (if startsWith .newline (afterTabs tokens) then _ else _) _ _ _
  split
  · exact indentedBody_yields hitem hcontext hbound .functionBody
  · apply Yields.inBlock
    exact restOfLine_yields hitem (show (context.inBlock .inline).nesting = nesting from hcontext)
      hbound .functionBody []

variable {token : Token} {rest : List Token}

theorem function_yields (hitem : ReadsItems limit bound nesting item)
    (hcontext : context.nesting = nesting) (hbound : (token :: rest).length < bound) :
    Yields (function item bound) context (token :: rest) fun node after =>
      ∃ body,
        (if startsWith .newline (afterTabs rest) then Reads limit .block context rest body after
          else Reads limit (.upTo (context.stopsLine [])) (context.inBlock .inline) rest body
            after) ∧
        node = .group context.functionForm body := by
  apply Yields.ofGet
  apply Yields.ofAdvance
  exact (functionBody_yields hitem hcontext (Nat.lt_of_succ_lt hbound)).bindPure

theorem returnExpression_yields (hitem : ReadsItems limit bound nesting item)
    (hcontext : context.nesting = nesting) (hbound : (token :: rest).length < bound) :
    Yields (returnExpression item bound) context (token :: rest) fun node after =>
      ∃ body, Reads limit (.upTo (context.stopsLine [])) context rest body after ∧
        node = .group .returnExpression body := by
  apply Yields.ofAdvance
  exact (restOfLine_yields hitem hcontext (Nat.lt_of_succ_lt hbound) _ []).bindPure

theorem assignment_yields (hitem : ReadsItems limit bound nesting item)
    (hcontext : context.nesting = nesting) (hbound : (token :: rest).length < bound) :
    Yields (assignment item bound) context (token :: rest) fun node after =>
      ∃ body, Reads limit (.upTo (context.stopsLine [])) context (afterTabs rest).tail body after ∧
        node = .assignment token.text body := by
  have hsuffix := (List.tail_suffix _).trans (afterTabs_suffix rest)
  have hle := Nat.lt_of_le_of_lt hsuffix.length_le (Nat.lt_of_succ_lt hbound)
  apply Yields.ofCurrent
  apply Yields.ofGet
  apply Yields.ofMove
  exact (restOfLine_yields hitem hcontext hle _ []).bindPure

theorem bracketed_yields (hitem : ReadsItems limit bound nesting item)
    (hcontext : context.nesting = nesting) (hbound : (token :: rest).length < bound)
    (bracket : Bracket) :
    Yields (bracketed item bound bracket) context (token :: rest) fun node after =>
      ∃ body, (∃ middle, Reads limit (.upTo (· == .closing bracket)) (context.inGroup bracket)
          rest body middle ∧ after = middle.tail) ∧
        node = .group (.bracketed bracket) body := by
  have hgroup : (context.inGroup bracket).nesting = nesting := hcontext
  have hle := Nat.lt_of_succ_lt hbound
  apply Yields.ofAdvance
  refine (Yields.closedBy ?_).bindPure
  refine ((items_yields hitem hgroup _ _ hle hle).bind fun body middle _ =>
    Yields.ofAdvance (Yields.pure body)).congr fun body after => ?_
  constructor
  · intro h
    obtain ⟨_, middle, hbody, rfl, rfl⟩ := h
    exact ⟨middle, hbody, rfl⟩
  · intro h
    obtain ⟨middle, hbody, rfl⟩ := h
    exact ⟨body, middle, hbody, rfl, rfl⟩

theorem operator_yields (hitem : ReadsItems limit bound nesting item)
    (hcontext : context.nesting = nesting) (hbound : (token :: rest).length < bound) :
    Yields (operator item) context (token :: rest) fun node after =>
      ∃ operand, node = .operator token.text operand ∧
        ∃ next more, afterTrivia rest = next :: more ∧ next.kind.endsLine = false ∧
          context.closes next.kind = false ∧
          Reads limit .item context (next :: more) [operand] after := by
  have hle := Nat.lt_of_le_of_lt (afterTrivia_suffix rest).length_le (Nat.lt_of_succ_lt hbound)
  apply Yields.ofCurrent
  apply Yields.ofGet
  apply Yields.ofMove
  show Yields _ _ (afterTrivia rest) _
  cases hnext : afterTrivia rest with
  | nil => exact Yields.ofCurrent_nil.congr fun node after => ⟨False.elim, by simp⟩
  | cons next more =>
    rw [hnext] at hle
    apply Yields.ofCurrent
    show Yields (if next.kind = .endOfInput then _ else
      if (next.kind = .newline || context.closes next.kind) then _ else _) _ _ _
    split
    next hend =>
      exact (Yields.fail _).congr fun node after =>
        ⟨False.elim, by simp [hend, TokenKind.endsLine]⟩
    split
    next hstop =>
      refine (Yields.fail _).congr fun node after => ⟨False.elim, fun h => ?_⟩
      obtain ⟨operand, -, other, others, heq, hends, hcloses, -⟩ := h
      obtain ⟨rfl, rfl⟩ := List.cons.inj heq
      simp only [hcloses, Bool.or_false, decide_eq_true_eq] at hstop
      simp [hstop, TokenKind.endsLine] at hends
    next hend hstop =>
      simp only [Bool.or_eq_true, decide_eq_true_eq, not_or, Bool.not_eq_true] at hstop
      have hends : next.kind.endsLine = false := by
        cases hkind : next.kind <;> simp_all [TokenKind.endsLine]
      have hread := hitem context (next :: more) hcontext hle
      refine Yields.congr (Yields.bindSome hread (fun _ => rfl) rfl) fun node after => ?_
      constructor
      · intro h
        obtain ⟨operand, hoperand, rfl⟩ := h
        exact ⟨operand, rfl, next, more, rfl, hends, hstop.2, hoperand⟩
      · intro h
        obtain ⟨operand, rfl, other, others, heq, -, -, hoperand⟩ := h
        obtain ⟨rfl, rfl⟩ := List.cons.inj heq
        exact ⟨operand, hoperand, rfl⟩

theorem ifBody_yields (hitem : ReadsItems limit bound nesting item)
    (hcontext : context.nesting = nesting) (hbound : tokens.length < bound) :
    Yields (ifBody item bound) context tokens fun body after =>
      if startsWith .thenWord tokens then
        Reads limit (.upTo (context.stopsLine [.elseWord])) context tokens.tail body after
      else Reads limit .block context tokens body after := by
  apply Yields.ofGet
  show Yields (if startsWith .thenWord tokens then _ else _) _ _ _
  split
  · apply Yields.ofAdvance
    have hle := Nat.lt_of_le_of_lt (List.tail_suffix tokens).length_le hbound
    exact restOfLine_yields hitem hcontext hle .ifBody [.elseWord]
  · exact indentedBody_yields hitem hcontext hbound .ifBody

theorem ifStatement_yields (hitem : ReadsItems limit bound nesting item)
    (hcontext : context.nesting = nesting) (hbound : (token :: rest).length < bound) :
    Yields (ifStatement item bound) context (token :: rest) fun node after =>
      ∃ condition middle, Reads limit (.upTo endsCondition) context rest condition middle ∧
        ∃ body, (if startsWith .thenWord middle then
            Reads limit (.upTo (context.stopsLine [.elseWord])) context middle.tail body after
          else Reads limit .block context middle body after) ∧
          node = .conditional condition body := by
  have hle := Nat.lt_of_succ_lt hbound
  apply Yields.ofAdvance
  refine (items_yields hitem hcontext .ifCondition endsCondition hle hle).bind
    fun condition middle hcondition => ?_
  exact (ifBody_yields hitem hcontext (Nat.lt_of_le_of_lt hcondition.length_le hle)).bindPure

theorem elseBody_yields (hitem : ReadsItems limit bound nesting item)
    (hcontext : context.nesting = nesting) (hbound : tokens.length < bound) :
    Yields (elseBody item bound) context tokens fun body after =>
      if startsWith .newline tokens then Reads limit .block context tokens body after
      else ∃ next more, tokens = next :: more ∧ next.kind.endsLine = false ∧
        Reads limit (.upTo (context.stopsLine [])) context (next :: more) body after := by
  cases tokens with
  | nil => exact Yields.ofCurrent_nil.congr fun body after => by simp [startsWith]
  | cons next more =>
    apply Yields.ofCurrent
    show Yields (if next.kind = .newline then _ else if next.kind = .endOfInput then _ else _) _ _ _
    split
    next hnewline =>
      refine (indentedBody_yields hitem hcontext hbound .elseBody).congr fun body after => ?_
      simp [startsWith, hnewline]
    split
    next hend =>
      refine (Yields.fail _).congr fun body after => ?_
      simp [startsWith, hend, TokenKind.endsLine]
    next hnewline hend =>
      have hends : next.kind.endsLine = false := by
        cases hkind : next.kind <;> simp_all [TokenKind.endsLine]
      refine (restOfLine_yields hitem hcontext hbound .elseBody []).congr fun body after => ?_
      simp [startsWith, hnewline, hends, and_assoc]

theorem elseStatement_yields (hitem : ReadsItems limit bound nesting item)
    (hcontext : context.nesting = nesting) (hbound : (token :: rest).length < bound) :
    Yields (elseStatement item bound) context (token :: rest) fun node after =>
      ∃ body,
        (if startsWith .newline (afterTabs rest) then
            Reads limit .block context (afterTabs rest) body after
          else ∃ next more, afterTabs rest = next :: more ∧ next.kind.endsLine = false ∧
            Reads limit (.upTo (context.stopsLine [])) context (next :: more) body after) ∧
        node = .group .elseStatement body := by
  have hle := Nat.lt_of_le_of_lt (afterTabs_suffix rest).length_le (Nat.lt_of_succ_lt hbound)
  apply Yields.ofGet
  apply Yields.ofMove
  exact (elseBody_yields hitem hcontext hle).bindPure

/-! ## Items -/

theorem leaf_yields (kind : Leaf) :
    Yields (leaf kind token) context (token :: rest) fun node after =>
      node.toList = [.leaf kind token.text] ∧ after = rest := by
  refine (Yields.ofAdvance (Yields.pure _)).congr fun node after => ?_
  cases node <;> simp

theorem identifier_yields (hkind : token.kind = .ident)
    (hitem : context.nesting < limit → ReadsItems limit bound (context.nesting + 1) item)
    (hbound : (token :: rest).length < bound) :
    Yields (identifier item bound limit token) context (token :: rest) fun node after =>
      Reads limit .item context (token :: rest) node.toList after := by
  apply Yields.ofGet
  show Yields (if assigns rest then _ else
    if prefixOperators.contains token.text then _ else _) _ _ _
  split
  next hassigns =>
    refine (Yields.construct fun hlt => assignment_yields (hitem hlt) rfl hbound).congr
      fun node after => (Reads.assigns_iff hkind hassigns).symm
  split
  next hassigns hsymbol =>
    refine (Yields.construct fun hlt => operator_yields (hitem hlt) rfl hbound).congr
      fun node after => (Reads.operator_iff hkind (by simpa using hassigns) ?_).symm
    simpa using hsymbol
  next hassigns hsymbol =>
    refine (leaf_yields .ident).congr fun node after =>
      (Reads.leaf_iff .ident hkind fun _ => ?_).symm
    exact ⟨by simpa using hassigns, by simpa using hsymbol⟩

/-- One item is read as the rules say, if the items inside of it are. -/
theorem itemOf_yields
    (hitem : context.nesting < limit → ReadsItems limit bound (context.nesting + 1) item)
    (hbound : tokens.length < bound) :
    Yields (itemOf item bound limit) context tokens fun node after =>
      Reads limit .item context tokens node.toList after := by
  cases tokens with
  | nil => exact Yields.ofCurrent_nil.congr fun node after => ⟨False.elim, nofun⟩
  | cons token rest =>
    apply Yields.ofCurrent
    split
    next hkind =>
      exact (Yields.construct fun hlt => function_yields (hitem hlt) rfl hbound).congr
        fun node after => (Reads.arrow_iff hkind).symm
    next hkind =>
      exact (Yields.construct fun hlt => returnExpression_yields (hitem hlt) rfl hbound).congr
        fun node after => (Reads.returnMark_iff hkind).symm
    next bracket hkind =>
      exact (Yields.construct fun hlt => bracketed_yields (hitem hlt) rfl hbound bracket).congr
        fun node after => (Reads.opening_iff hkind).symm
    next hkind =>
      exact (Yields.construct fun hlt => ifStatement_yields (hitem hlt) rfl hbound).congr
        fun node after => (Reads.ifWord_iff hkind).symm
    next hkind =>
      exact (Yields.construct fun hlt => elseStatement_yields (hitem hlt) rfl hbound).congr
        fun node after => (Reads.elseWord_iff hkind).symm
    next hkind => exact identifier_yields hkind hitem hbound
    next hkind =>
      exact (leaf_yields .string).congr fun node after => (Reads.leaf_iff .string hkind nofun).symm
    next hkind =>
      exact (leaf_yields .number).congr fun node after => (Reads.leaf_iff .number hkind nofun).symm
    next hkind =>
      refine (Yields.ofModifyRest (Yields.pure none)).congr fun node after => ?_
      have hrest : afterNewlines (token :: rest) = afterNewlines rest := by
        simp [afterNewlines, hkind]
      rw [Reads.newline_iff hkind, hrest]
      cases node <;> simp
    next =>
      refine (Yields.ofAdvance (Yields.pure none)).congr fun node after => ?_
      have hcontent : token.kind.isContent = false := by
        cases hkind : token.kind <;> simp_all [TokenKind.isContent]
      rw [Reads.skip_iff hcontent (by assumption)]
      cases node <;> simp

end Constructs

/-! ## The parser -/

/-- With a depth beyond the constructs that may still be opened, the
parser reads items as the rules say. -/
theorem readsItems_item {limit bound nesting depth : Nat} (hdepth : limit - nesting < depth) :
    ReadsItems limit bound nesting (item limit bound depth) := by
  induction depth generalizing nesting with
  | zero => omega
  | succ depth ih =>
    intro context tokens hcontext hbound
    refine itemOf_yields (fun hlt => ih ?_) hbound
    omega

/-- The rules leave no choice: an action that succeeds by them has one
outcome. -/
theorem Yields.unique {α : Type} {action : ParserM α} {context : Context} {tokens : List Token}
    {outcome : α → List Token → Prop} (h : Yields action context tokens outcome)
    {first second : α} {after others : List Token} (hfirst : outcome first after)
    (hsecond : outcome second others) : first = second ∧ after = others := by
  have hrun := (h first (context.parser after)).mpr ⟨after, rfl, hfirst⟩
  have hother := (h second (context.parser others)).mpr ⟨others, rfl, hsecond⟩
  obtain ⟨hvalue, hparser⟩ := EStateM.Result.ok.inj (hrun.symm.trans hother)
  exact ⟨hvalue, congrArg Parser.rest hparser⟩

/-- The parser answers a program exactly when the rules read it to the end
of the tokens, and then it is left there as it was. -/
theorem parseWithin_eq_ok_iff {limit : Nat} {context : Context} {tokens : List Token}
    {program : Program} {parser : Parser} :
    (context.parser tokens).parseWithin limit = (.ok program, parser) ↔
      ∃ after, parser = context.parser after ∧
        Reads limit .program context tokens program.body after := by
  have hitem : ReadsItems limit (tokens.length + 1) context.nesting
      (item limit (tokens.length + 1) (limit + 1)) := readsItems_item (by omega)
  have hstatements := statements_yields hitem rfl (Nat.lt_succ_self _) (Nat.lt_succ_self _)
    program.body parser
  rw [← hstatements]
  simp only [parseWithin]
  split
  next hrun =>
    replace hrun : statements (item limit (tokens.length + 1) (limit + 1)) (tokens.length + 1)
      (context.parser tokens) = .ok _ _ := hrun
    obtain ⟨nodes⟩ := program
    simp [hrun]
  all_goals
    next hrun =>
      replace hrun : statements (item limit (tokens.length + 1) (limit + 1)) (tokens.length + 1)
        (context.parser tokens) = .error _ _ := hrun
      simp [hrun]

end Parser

namespace Reads

variable {limit : Nat} {context : Context} {tokens after others : List Token}
  {nodes more : List Node}

theorem item_unique (h : Reads limit .item context tokens nodes after)
    (hother : Reads limit .item context tokens more others) : nodes = more ∧ after = others := by
  have hitem : Parser.ReadsItems limit (tokens.length + 1) context.nesting
      (Parser.item limit (tokens.length + 1) (limit + 1)) := Parser.readsItems_item (by omega)
  obtain ⟨node, rfl⟩ := h.exists_toList_eq
  obtain ⟨other, rfl⟩ := hother.exists_toList_eq
  obtain ⟨rfl, rfl⟩ := (hitem context tokens rfl (Nat.lt_succ_self _)).unique h hother
  exact ⟨rfl, rfl⟩

theorem upTo_unique {stops : TokenKind → Bool}
    (h : Reads limit (.upTo stops) context tokens nodes after)
    (hother : Reads limit (.upTo stops) context tokens more others) :
    nodes = more ∧ after = others := by
  have hitem : Parser.ReadsItems limit (tokens.length + 1) context.nesting
      (Parser.item limit (tokens.length + 1) (limit + 1)) := Parser.readsItems_item (by omega)
  exact (Parser.items_yields hitem rfl .statement stops (Nat.lt_succ_self _)
    (Nat.lt_succ_self _)).unique h hother

end Reads

/-- The context of a fresh parser. -/
def Context.fresh : Context where
  blocks := []
  nesting := 0
  closer := none

/-- A token list has a program within a limit exactly if the rules read
it. -/
theorem fst_parseWithin_eq_ok_iff {limit : Nat} {tokens : List Token} {program : Program} :
    ((Parser.ofTokens tokens).parseWithin limit).1 = .ok program ↔
      Reads limit .program .fresh tokens program.body [] := by
  show ((Context.fresh.parser tokens).parseWithin limit).1 = _ ↔ _
  constructor
  · intro h
    have hpair : (Context.fresh.parser tokens).parseWithin limit =
        (.ok program, ((Context.fresh.parser tokens).parseWithin limit).2) := by rw [← h]
    obtain ⟨after, -, hreads⟩ := Parser.parseWithin_eq_ok_iff.mp hpair
    obtain rfl := hreads.program_after
    exact hreads
  · intro h
    rw [Parser.parseWithin_eq_ok_iff.mpr ⟨[], rfl, h⟩]

/-- A token list parses to a program exactly if the rules read it. -/
theorem parse_eq_ok_iff {tokens : List Token} {program : Program} :
    parse tokens = .ok program ↔ Reads maxNesting .program .fresh tokens program.body [] :=
  fst_parseWithin_eq_ok_iff

end Flick
