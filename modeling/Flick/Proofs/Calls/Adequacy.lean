import Flick.Proofs.Calls
import Flick.Proofs.Reading.Adequacy

/-!
# The parser fails by the rules

`parseWithin_eq_error_iff` says that the parser answers an error exactly
when a moment is reached by calls that is stuck with it, and that the
parser is then left with the tokens and the blocks of that moment.  With
`parseWithin_eq_ok_iff` this describes every run, since no run uses up its
bounds.

`Faults` is to failures what `Yields` is to values.  It says with which
faults an action ends, and that it ends with no others; an action that is
described so does not use up its bounds.  Each action has one such lemma,
which says that the action fails as the moment of its work does.
-/

namespace Flick

namespace Parser

open Layout

/-! ## Exact failures -/

section Outcomes

variable {α β : Type} {context : Context} {tokens : List Token}

/-- The action fails in this place exactly with these faults. -/
def Faults (action : ParserM α) (context : Context) (tokens : List Token)
    (faults : Fault → Prop) : Prop :=
  ∀ failure parser, action (context.parser tokens) = .error failure parser ↔
    ∃ fault, failure = .invalid fault.error ∧ parser = fault.parser context ∧ faults fault

namespace Faults

theorem congr {action : ParserM α} {first second : Fault → Prop}
    (h : Faults action context tokens first) (hiff : ∀ fault, first fault ↔ second fault) :
    Faults action context tokens second := by
  intro failure parser
  rw [h failure parser]
  simp only [hiff]

theorem pure (value : α) : Faults (pure value) context tokens fun _ => False := by
  intro failure parser
  show EStateM.Result.ok value (context.parser tokens) = .error failure parser ↔ _
  simp

theorem fail (error : ParseError) :
    Faults (fail error : ParserM α) context tokens fun fault =>
      fault = ⟨error, tokens, context.blocks⟩ := by
  intro failure parser
  show EStateM.Result.error (Failure.invalid error) (context.parser tokens) =
    .error failure parser ↔ _
  rw [EStateM.Result.error.injEq]
  constructor
  · intro h
    exact ⟨⟨error, tokens, context.blocks⟩, h.1.symm, h.2.symm, rfl⟩
  · intro h
    obtain ⟨fault, rfl, rfl, rfl⟩ := h
    exact ⟨rfl, rfl⟩

/-- Two actions in a row fail as the first one does, or as the second one
does where the first one left off. -/
theorem bind {action : ParserM α} {next : α → ParserM β} {outcome : α → List Token → Prop}
    {first : Fault → Prop} {second : α → List Token → Fault → Prop}
    (hyields : Yields action context tokens outcome)
    (haction : Faults action context tokens first)
    (hnext : ∀ value middle, outcome value middle →
      Faults (next value) context middle (second value middle)) :
    Faults (action >>= next) context tokens fun fault =>
      first fault ∨ ∃ value middle, outcome value middle ∧ second value middle fault := by
  intro failure parser
  show EStateM.bind action next (context.parser tokens) = .error failure parser ↔ _
  unfold EStateM.bind
  cases hrun : action (context.parser tokens) with
  | error failure' parser' =>
    obtain ⟨fault, rfl, rfl, hfirst⟩ := (haction failure' parser').mp hrun
    show EStateM.Result.error _ _ = .error failure parser ↔ _
    rw [EStateM.Result.error.injEq]
    constructor
    · intro h
      exact ⟨fault, h.1.symm, h.2.symm, .inl hfirst⟩
    · intro h
      obtain ⟨other, rfl, rfl, hother | ⟨value, middle, houtcome, -⟩⟩ := h
      · have herror := (haction _ _).mpr ⟨other, rfl, rfl, hother⟩
        exact EStateM.Result.error.inj (hrun.symm.trans herror)
      · have hok := (hyields value _).mpr ⟨middle, rfl, houtcome⟩
        exact absurd (hok.symm.trans hrun) (by simp)
  | ok value parser' =>
    obtain ⟨middle, rfl, houtcome⟩ := (hyields value parser').mp hrun
    show next value (context.parser middle) = .error failure parser ↔ _
    rw [hnext value middle houtcome failure parser]
    constructor
    · intro h
      obtain ⟨fault, hfailure, hparser, hsecond⟩ := h
      exact ⟨fault, hfailure, hparser, .inr ⟨value, middle, houtcome, hsecond⟩⟩
    · intro h
      obtain ⟨fault, rfl, rfl, hfirst | ⟨other, front, hother, hsecond⟩⟩ := h
      · have herror := (haction _ _).mpr ⟨fault, rfl, rfl, hfirst⟩
        exact absurd (hrun.symm.trans herror) (by simp)
      · have hok := (hyields other _).mpr ⟨front, rfl, hother⟩
        obtain ⟨rfl, hfront⟩ := EStateM.Result.ok.inj (hrun.symm.trans hok)
        obtain rfl : middle = front := congrArg Parser.rest hfront
        exact ⟨fault, rfl, rfl, hsecond⟩

/-- A last step that makes the value adds no failure. -/
theorem bindPure {action : ParserM α} {make : α → β} {faults : Fault → Prop}
    (haction : Faults action context tokens faults) :
    Faults (action >>= fun value => Pure.pure (make value)) context tokens faults := by
  intro failure parser
  rw [← haction failure parser]
  show EStateM.bind action _ (context.parser tokens) = .error failure parser ↔ _
  unfold EStateM.bind
  cases action (context.parser tokens) with
  | error => simp
  | ok value after =>
    show EStateM.Result.ok (make value) after = .error failure parser ↔ _
    simp

/-- A last step that needs something to make the value from fails where
there is nothing. -/
theorem bindSome {action : ParserM (Option α)} {next : Option α → ParserM β} {make : α → β}
    {error : ParseError} {outcome : Option α → List Token → Prop} {faults : Fault → Prop}
    (hyields : Yields action context tokens outcome)
    (haction : Faults action context tokens faults)
    (hsome : ∀ value, next (some value) = Pure.pure (make value))
    (hnone : next none = Parser.fail error) :
    Faults (action >>= next) context tokens fun fault =>
      faults fault ∨ ∃ middle, outcome none middle ∧ fault = ⟨error, middle, context.blocks⟩ := by
  have hnext : ∀ value middle, Faults (next value) context middle fun fault =>
      value = none ∧ fault = ⟨error, middle, context.blocks⟩ := by
    intro value middle
    cases value with
    | none =>
      rw [hnone]
      exact (fail error).congr fun fault => by simp
    | some found =>
      rw [hsome]
      exact (pure (make found)).congr fun fault => by simp
  refine (bind hyields haction fun value middle _ => hnext value middle).congr fun fault => ?_
  refine or_congr_right ⟨fun h => ?_, fun h => ?_⟩
  · obtain ⟨_, middle, houtcome, rfl, hfault⟩ := h
    exact ⟨middle, houtcome, hfault⟩
  · obtain ⟨middle, houtcome, hfault⟩ := h
    exact ⟨none, middle, houtcome, rfl, hfault⟩

theorem map {action : ParserM α} {make : α → β} {faults : Fault → Prop}
    (haction : Faults action context tokens faults) :
    Faults (make <$> action) context tokens faults := by
  intro failure parser
  rw [← haction failure parser]
  show EStateM.map make action (context.parser tokens) = .error failure parser ↔ _
  unfold EStateM.map
  cases action (context.parser tokens) <;> simp

theorem ofGet {next : Parser → ParserM α} {faults : Fault → Prop}
    (h : Faults (next (context.parser tokens)) context tokens faults) :
    Faults (get >>= next) context tokens faults := h

theorem ofMove {action : ParserM α} {target : List Token} {faults : Fault → Prop}
    (h : Faults action context target faults) :
    Faults (moveTo target >>= fun _ => action) context tokens faults := h

theorem ofAdvance {action : ParserM α} {faults : Fault → Prop}
    (h : Faults action context tokens.tail faults) :
    Faults (advance >>= fun _ => action) context tokens faults := h

theorem ofModifyRest {action : ParserM α} {f : List Token → List Token} {faults : Fault → Prop}
    (h : Faults action context (f tokens) faults) :
    Faults ((modify fun parser => { parser with rest := f parser.rest }) >>= fun _ => action)
      context tokens faults := h

theorem ofCurrent {construct : Construct} {next : Token → ParserM α} {token : Token}
    {rest : List Token} {faults : Fault → Prop}
    (h : Faults (next token) context (token :: rest) faults) :
    Faults (current construct >>= next) context (token :: rest) faults := h

theorem ofCurrent_nil {construct : Construct} {next : Token → ParserM α} :
    Faults (current construct >>= next) context [] fun fault =>
      fault = ⟨.unexpectedEnd construct, [], context.blocks⟩ :=
  fail (.unexpectedEnd construct)

/-- An action that runs another one in a context of its own fails as the
other one does, if it restores the count and the bracket. -/
theorem ofInner {action outer : ParserM α} {inner : Context} {faults : Fault → Prop}
    (restore : Parser → Parser) (h : Faults action inner tokens faults)
    (houter : ∀ failure parser, outer (context.parser tokens) = .error failure parser ↔
      ∃ stopped, action (inner.parser tokens) = .error failure stopped ∧ restore stopped = parser)
    (hrestore : ∀ fault : Fault, restore (fault.parser inner) = fault.parser context) :
    Faults outer context tokens faults := by
  intro failure parser
  rw [houter]
  constructor
  · intro hfailure
    obtain ⟨stopped, hrun, rfl⟩ := hfailure
    obtain ⟨fault, hfault, rfl, hfaults⟩ := (h failure stopped).mp hrun
    exact ⟨fault, hfault, hrestore fault, hfaults⟩
  · intro hfailure
    obtain ⟨fault, rfl, rfl, hfaults⟩ := hfailure
    exact ⟨_, (h _ _).mpr ⟨fault, rfl, rfl, hfaults⟩, hrestore fault⟩

/-- A construct is refused at the limit, and else fails as its inside. -/
theorem nested {limit : Nat} {construct : Construct} {action : ParserM α} {faults : Fault → Prop}
    (h : context.nesting < limit → Faults action context.nest tokens faults) :
    Faults (Parser.nested limit construct action) context tokens fun fault =>
      limit ≤ context.nesting ∧ fault = ⟨.nestingTooDeep construct, tokens, context.blocks⟩ ∨
        context.nesting < limit ∧ faults fault := by
  by_cases hlimit : limit ≤ context.nesting
  · have hrefused : Parser.nested limit construct action (context.parser tokens) =
        Parser.fail (.nestingTooDeep construct) (context.parser tokens) := by
      show (if limit ≤ context.nesting then _ else _) = _
      rw [if_pos hlimit]
      rfl
    have hnot : ¬context.nesting < limit := by omega
    intro failure parser
    rw [hrefused, fail (.nestingTooDeep construct) failure parser]
    simp [hlimit, hnot]
  · have hlt : context.nesting < limit := by omega
    have hinner : Faults (Parser.nested limit construct action) context tokens faults := by
      refine (h hlt).ofInner (fun parser => { parser with nesting := parser.nesting - 1 })
        (fun failure parser => ?_) fun fault => rfl
      show (if limit ≤ context.nesting then _ else _) = _ ↔ _
      rw [if_neg hlimit]
      split
      next hrun =>
        replace hrun : action (context.nest.parser tokens) = .ok _ _ := hrun
        simp [hrun]
      next hrun =>
        replace hrun : action (context.nest.parser tokens) = .error _ _ := hrun
        simp [hrun, and_assoc]
    exact hinner.congr fun fault => by simp [hlimit, hlt]

theorem closedBy {bracket : Bracket} {action : ParserM α} {faults : Fault → Prop}
    (h : Faults action (context.inGroup bracket) tokens faults) :
    Faults (Parser.closedBy bracket action) context tokens faults := by
  refine h.ofInner (fun parser => { parser with closer := context.closer })
    (fun failure parser => ?_) fun fault => rfl
  unfold Parser.closedBy
  split
  next hrun =>
    replace hrun : action ((context.inGroup bracket).parser tokens) = .ok _ _ := hrun
    simp [hrun]
  next hrun =>
    replace hrun : action ((context.inGroup bracket).parser tokens) = .error _ _ := hrun
    rw [hrun]
    simp [Context.parser, and_assoc]

/-- A failure leaves the block open. -/
theorem inBlock {block : Block} {action : ParserM α} {faults : Fault → Prop}
    (h : Faults action (context.inBlock block) tokens faults) :
    Faults (Parser.inBlock block action) context tokens faults := by
  refine h.ofInner id (fun failure parser => ?_) fun fault => rfl
  show EStateM.bind action _ ((context.inBlock block).parser tokens) = _ ↔ _
  unfold EStateM.bind
  cases action ((context.inBlock block).parser tokens) with
  | error other stopped => simp [and_assoc]
  | ok found stopped =>
    show EStateM.Result.ok found { stopped with blocks := stopped.blocks.tail } = _ ↔ _
    simp

end Faults

end Outcomes

/-! ## Loops -/

section Loops

variable {limit bound nesting : Nat} {item : ParserM (Option Node)} {context : Context}

/-- The action reads items as the rules do, and fails as they do. -/
structure FollowsRules (limit bound nesting : Nat) (item : ParserM (Option Node)) : Prop where
  reads : ReadsItems limit bound nesting item
  faults : ∀ context tokens, context.nesting = nesting → tokens.length < bound →
    Faults item context tokens (Fails limit ⟨.item, context, tokens⟩)

theorem items_faults (hitem : FollowsRules limit bound nesting item)
    (hcontext : context.nesting = nesting) (construct : Construct) (stops : TokenKind → Bool)
    {turns : Nat} {tokens : List Token} (hbound : tokens.length < bound)
    (hturns : tokens.length < turns) :
    Faults (items construct stops item turns) context tokens
      (Fails limit ⟨.upTo construct stops, context, tokens⟩) := by
  induction turns generalizing tokens with
  | zero => exact absurd hturns (Nat.not_lt_zero _)
  | succ turns ih =>
    cases tokens with
    | nil => exact Faults.ofCurrent_nil.congr fun fault => fails_upTo_nil.symm
    | cons token rest =>
      apply Faults.ofCurrent
      split
      next hstops =>
        exact (Faults.pure []).congr fun fault =>
          (iff_false_intro (not_fails_upTo_of_stops hstops)).symm
      next hstops =>
      have hgoes : stops token.kind = false := by simpa using hstops
      split
      next hend =>
        exact (Faults.fail _).congr fun fault => (fails_upTo_of_end hgoes hend).symm
      next hend =>
        have hread := hitem.reads context (token :: rest) hcontext hbound
        have hfault := hitem.faults context (token :: rest) hcontext hbound
        refine (Faults.bind hread hfault fun node middle hnode => (ih ?_ ?_).bindPure).congr
          fun fault => ?_
        · exact Nat.lt_of_le_of_lt hnode.length_le hbound
        · exact Nat.lt_of_lt_of_le hnode.length_lt (Nat.le_of_lt_succ hturns)
        rw [fails_upTo_of_turn hgoes hend]
        refine or_congr_right ⟨fun h => ?_, fun h => ?_⟩
        · obtain ⟨node, middle, hnode, hmore⟩ := h
          exact ⟨_, middle, hnode, hmore⟩
        · obtain ⟨nodes, middle, hnode, hmore⟩ := h
          obtain ⟨node, rfl⟩ := hnode.exists_toList_eq
          exact ⟨node, middle, hnode, hmore⟩

theorem lines_faults {width turns : Nat} {construct : Construct} {line : ParserM (List Node)}
    {tokens : List Token}
    (hyields : ∀ tokens, tokens.length < bound →
      Yields line context tokens (Reads limit (.upTo (context.stopsLine [])) context tokens))
    (hline : ∀ tokens, tokens.length < bound →
      Faults line context tokens
        (Fails limit ⟨.upTo construct (context.stopsLine []), context, tokens⟩))
    (hbound : tokens.length < bound) (hturns : tokens.length < turns) :
    Faults (lines width line turns) context tokens
      (Fails limit ⟨.lines construct width, context, tokens⟩) := by
  induction turns generalizing tokens with
  | zero => exact absurd hturns (Nat.not_lt_zero _)
  | succ turns ih =>
    refine (Faults.bind (hyields tokens hbound) (hline tokens hbound)
      fun nodes middle hnodes => Faults.ofGet ?_).congr fun fault => fails_lines.symm
    have hle := hnodes.length_le
    dsimp only [Context.parser]
    cases hnext : continuation? width middle with
    | none => exact (Faults.pure nodes).congr fun fault => by simp
    | some next =>
      obtain ⟨hsuffix, hne⟩ := continuation?_suffix hnext
      have hlt := hsuffix.length_le
      have hpos := List.length_pos_iff.mpr hne
      rw [List.length_tail] at hlt
      apply Faults.ofMove
      refine (ih ?_ ?_).bindPure.congr fun fault => by simp
      · omega
      · omega

theorem statements_faults (hitem : FollowsRules limit bound nesting item)
    (hcontext : context.nesting = nesting) {turns : Nat} {tokens : List Token}
    (hbound : tokens.length < bound) (hturns : tokens.length < turns) :
    Faults (statements item turns) context tokens
      (Fails limit ⟨.program, context, tokens⟩) := by
  induction turns generalizing tokens with
  | zero => exact absurd hturns (Nat.not_lt_zero _)
  | succ turns ih =>
    apply Faults.ofGet
    cases tokens with
    | nil =>
      exact (Faults.pure []).congr fun fault => (iff_false_intro not_fails_program_nil).symm
    | cons token rest =>
      have hread := hitem.reads context (token :: rest) hcontext hbound
      have hfault := hitem.faults context (token :: rest) hcontext hbound
      refine (Faults.bind hread hfault fun node middle hnode => (ih ?_ ?_).bindPure).congr
        fun fault => ?_
      · exact Nat.lt_of_le_of_lt hnode.length_le hbound
      · exact Nat.lt_of_lt_of_le hnode.length_lt (Nat.le_of_lt_succ hturns)
      rw [fails_program_cons]
      refine or_congr_right ⟨fun h => ?_, fun h => ?_⟩
      · obtain ⟨node, middle, hnode, hmore⟩ := h
        exact ⟨_, middle, hnode, hmore⟩
      · obtain ⟨nodes, middle, hnode, hmore⟩ := h
        obtain ⟨node, rfl⟩ := hnode.exists_toList_eq
        exact ⟨node, middle, hnode, hmore⟩

end Loops

/-! ## Constructs -/

section Constructs

variable {limit bound nesting : Nat} {item : ParserM (Option Node)} {context : Context}
  {tokens : List Token}

theorem restOfLine_faults (hitem : FollowsRules limit bound nesting item)
    (hcontext : context.nesting = nesting) (hbound : tokens.length < bound)
    (construct : Construct) (stops : List TokenKind) :
    Faults (restOfLine item bound construct stops) context tokens
      (Fails limit ⟨.upTo construct (context.stopsLine stops), context, tokens⟩) :=
  Faults.ofGet (items_faults hitem hcontext construct _ hbound hbound)

theorem indentedBody_faults (hitem : FollowsRules limit bound nesting item)
    (hcontext : context.nesting = nesting) (hbound : tokens.length < bound)
    (construct : Construct) :
    Faults (indentedBody item bound construct) context tokens
      (Fails limit ⟨.block construct, context, tokens⟩) := by
  have hle := Nat.lt_of_le_of_lt (nextLine_suffix 0 tokens).length_le hbound
  have hblock : (context.inBlock (.indented (nextLine 0 tokens).1)).nesting = nesting := hcontext
  refine Faults.congr ?_ fun fault => fails_block.symm
  apply Faults.ofGet
  apply Faults.ofMove
  apply Faults.inBlock
  apply lines_faults (fun tokens hbound => ?_) (fun tokens hbound => ?_) hle hle
  · exact restOfLine_yields hitem.reads hblock hbound construct []
  · exact restOfLine_faults hitem hblock hbound construct []

variable {token : Token} {rest : List Token}

theorem function_faults (hkind : token.kind = .arrow)
    (hitem : FollowsRules limit bound nesting item)
    (hcontext : context.nesting = nesting) (hbound : (token :: rest).length < bound) :
    Faults (function item bound) context (token :: rest)
      (Fails limit ⟨.inside, context, token :: rest⟩) := by
  refine Faults.congr ?_ fun fault => (fails_arrow hkind).symm
  apply Faults.ofGet
  apply Faults.ofAdvance
  apply Faults.bindPure
  apply Faults.ofGet
  show Faults (if startsWith .newline (afterTabs rest) then _ else _) _ _ _
  split
  · exact indentedBody_faults hitem hcontext (Nat.lt_of_succ_lt hbound) .functionBody
  · apply Faults.inBlock
    exact restOfLine_faults hitem (show (context.inBlock .inline).nesting = nesting from hcontext)
      (Nat.lt_of_succ_lt hbound) .functionBody []

theorem returnExpression_faults (hkind : token.kind = .returnMark)
    (hitem : FollowsRules limit bound nesting item)
    (hcontext : context.nesting = nesting) (hbound : (token :: rest).length < bound) :
    Faults (returnExpression item bound) context (token :: rest)
      (Fails limit ⟨.inside, context, token :: rest⟩) := by
  refine Faults.congr ?_ fun fault => (fails_returnMark hkind).symm
  apply Faults.ofAdvance
  exact (restOfLine_faults hitem hcontext (Nat.lt_of_succ_lt hbound) _ []).bindPure

theorem assignment_faults (hkind : token.kind = .ident) (hassigns : assigns rest = true)
    (hitem : FollowsRules limit bound nesting item)
    (hcontext : context.nesting = nesting) (hbound : (token :: rest).length < bound) :
    Faults (assignment item bound) context (token :: rest)
      (Fails limit ⟨.inside, context, token :: rest⟩) := by
  have hsuffix := (List.tail_suffix _).trans (afterTabs_suffix rest)
  have hle := Nat.lt_of_le_of_lt hsuffix.length_le (Nat.lt_of_succ_lt hbound)
  refine Faults.congr ?_ fun fault => (fails_assignment hkind hassigns).symm
  apply Faults.ofCurrent
  apply Faults.ofGet
  apply Faults.ofMove
  exact (restOfLine_faults hitem hcontext hle _ []).bindPure

theorem bracketed_faults {bracket : Bracket} (hkind : token.kind = .opening bracket)
    (hitem : FollowsRules limit bound nesting item)
    (hcontext : context.nesting = nesting) (hbound : (token :: rest).length < bound) :
    Faults (bracketed item bound bracket) context (token :: rest)
      (Fails limit ⟨.inside, context, token :: rest⟩) := by
  have hgroup : (context.inGroup bracket).nesting = nesting := hcontext
  have hle := Nat.lt_of_succ_lt hbound
  refine Faults.congr ?_ fun fault => (fails_opening hkind).symm
  apply Faults.ofAdvance
  refine (Faults.closedBy ?_).bindPure
  have hyields := items_yields hitem.reads hgroup (.bracketed bracket) (· == .closing bracket)
    hle hle
  have hfaults := items_faults hitem hgroup (.bracketed bracket) (· == .closing bracket) hle hle
  refine (Faults.bind hyields hfaults fun body middle _ =>
    Faults.ofAdvance (Faults.pure body)).congr fun fault => ?_
  simp

theorem operator_faults (hkind : token.kind = .ident) (hassigns : assigns rest = false)
    (hsymbol : token.text ∈ prefixOperators) (hitem : FollowsRules limit bound nesting item)
    (hcontext : context.nesting = nesting) (hbound : (token :: rest).length < bound) :
    Faults (operator item) context (token :: rest)
      (Fails limit ⟨.inside, context, token :: rest⟩) := by
  have hle := Nat.lt_of_le_of_lt (afterTrivia_suffix rest).length_le (Nat.lt_of_succ_lt hbound)
  refine Faults.congr ?_ fun fault => (fails_operator hkind hassigns hsymbol).symm
  apply Faults.ofCurrent
  apply Faults.ofGet
  apply Faults.ofMove
  show Faults _ _ (afterTrivia rest) _
  cases hnext : afterTrivia rest with
  | nil => exact Faults.ofCurrent_nil.congr fun fault => by simp [atEnd]
  | cons next more =>
    rw [hnext] at hle
    apply Faults.ofCurrent
    show Faults (if next.kind = .endOfInput then _ else
      if (next.kind = .newline || context.closes next.kind) then _ else _) _ _ _
    split
    next hend =>
      refine (Faults.fail _).congr fun fault => ?_
      have hcloses : context.closes .endOfInput = false := by
        unfold Context.closes
        split <;> rfl
      simp [atEnd, hend, TokenKind.endsLine, hcloses]
    split
    next hend hstop =>
      refine (Faults.fail _).congr fun fault => ?_
      simp only [Bool.or_eq_true, decide_eq_true_eq] at hstop
      have hends : ¬(next.kind.endsLine = false ∧ context.closes next.kind = false) := by
        rintro ⟨hnot, hcloses⟩
        rcases hstop with hnewline | hcloser
        · simp [hnewline, TokenKind.endsLine] at hnot
        · simp [hcloses] at hcloser
      simp only [atEnd, beq_iff_eq, hend, false_and, false_or, List.cons.injEq, and_assoc]
      constructor
      · intro h
        exact ⟨next, more, rfl, rfl, .inl ⟨hstop, h⟩⟩
      · intro h
        obtain ⟨_, _, rfl, rfl, ⟨-, hfault⟩ | ⟨hnot, hcloses, -⟩⟩ := h
        · exact hfault
        · exact absurd ⟨hnot, hcloses⟩ hends
    next hend hstop =>
      simp only [Bool.or_eq_true, decide_eq_true_eq, not_or, Bool.not_eq_true] at hstop
      have hends : next.kind.endsLine = false := by
        cases hkind : next.kind <;> simp_all [TokenKind.endsLine]
      have hread := hitem.reads context (next :: more) hcontext hle
      have hfault := hitem.faults context (next :: more) hcontext hle
      refine Faults.congr (Faults.bindSome hread hfault (fun _ => rfl) rfl) fun fault => ?_
      simp [atEnd, hend, hstop, hends, and_assoc]

theorem ifStatement_faults (hkind : token.kind = .ifWord)
    (hitem : FollowsRules limit bound nesting item)
    (hcontext : context.nesting = nesting) (hbound : (token :: rest).length < bound) :
    Faults (ifStatement item bound) context (token :: rest)
      (Fails limit ⟨.inside, context, token :: rest⟩) := by
  have hle := Nat.lt_of_succ_lt hbound
  refine Faults.congr ?_ fun fault => (fails_ifWord hkind).symm
  apply Faults.ofAdvance
  have hyields := items_yields hitem.reads hcontext .ifCondition endsCondition hle hle
  have hfaults := items_faults hitem hcontext .ifCondition endsCondition hle hle
  refine Faults.bind hyields hfaults fun condition middle hcondition => ?_
  have hmiddle := Nat.lt_of_le_of_lt hcondition.length_le hle
  apply Faults.bindPure
  apply Faults.ofGet
  show Faults (if startsWith .thenWord middle then _ else _) _ _ _
  split
  · apply Faults.ofAdvance
    have hle := Nat.lt_of_le_of_lt (List.tail_suffix middle).length_le hmiddle
    exact restOfLine_faults hitem hcontext hle .ifBody [.elseWord]
  · exact indentedBody_faults hitem hcontext hmiddle .ifBody

theorem elseStatement_faults (hkind : token.kind = .elseWord)
    (hitem : FollowsRules limit bound nesting item)
    (hcontext : context.nesting = nesting) (hbound : (token :: rest).length < bound) :
    Faults (elseStatement item bound) context (token :: rest)
      (Fails limit ⟨.inside, context, token :: rest⟩) := by
  have hle := Nat.lt_of_le_of_lt (afterTabs_suffix rest).length_le (Nat.lt_of_succ_lt hbound)
  refine Faults.congr ?_ fun fault => (fails_elseWord hkind).symm
  apply Faults.ofGet
  apply Faults.ofMove
  apply Faults.bindPure
  show Faults _ _ (afterTabs rest) _
  cases hnext : afterTabs rest with
  | nil => exact Faults.ofCurrent_nil.congr fun fault => by simp [atEnd, startsWith]
  | cons next more =>
    rw [hnext] at hle
    apply Faults.ofCurrent
    show Faults (if next.kind = .newline then _ else if next.kind = .endOfInput then _ else _) _ _ _
    split
    next hnewline =>
      refine (indentedBody_faults hitem hcontext hle .elseBody).congr fun fault => ?_
      simp [atEnd, startsWith, hnewline, TokenKind.endsLine]
    split
    next hend =>
      refine (Faults.fail _).congr fun fault => ?_
      simp [atEnd, startsWith, hend, TokenKind.endsLine]
    next hnewline hend =>
      have hends : next.kind.endsLine = false := by
        cases hkind : next.kind <;> simp_all [TokenKind.endsLine]
      refine (restOfLine_faults hitem hcontext hle .elseBody []).congr fun fault => ?_
      simp [atEnd, startsWith, hnewline, hend, hends, and_assoc]

/-! ## Items -/

/-- A construct is entered, and fails as its inside. -/
theorem construct_faults {construct : Construct} {action : ParserM Node}
    (hopened : opened? token rest = some construct)
    (h : context.nesting < limit → Faults action context.nest (token :: rest)
      (Fails limit ⟨.inside, context.nest, token :: rest⟩)) :
    Faults (some <$> Parser.nested limit construct action) context (token :: rest)
      (Fails limit ⟨.item, context, token :: rest⟩) :=
  (Faults.nested h).map.congr fun _ => (fails_item hopened).symm

theorem leaf_faults (kind : Leaf) (hopened : opened? token rest = none) :
    Faults (leaf kind token) context (token :: rest)
      (Fails limit ⟨.item, context, token :: rest⟩) :=
  (Faults.ofAdvance (Faults.pure _)).congr fun _ => (iff_false_intro (not_fails_item hopened)).symm

theorem identifier_faults (hkind : token.kind = .ident)
    (hitem : context.nesting < limit → FollowsRules limit bound (context.nesting + 1) item)
    (hbound : (token :: rest).length < bound) :
    Faults (identifier item bound limit token) context (token :: rest)
      (Fails limit ⟨.item, context, token :: rest⟩) := by
  apply Faults.ofGet
  show Faults (if assigns rest then _ else
    if prefixOperators.contains token.text then _ else _) _ _ _
  split
  next hassigns =>
    exact construct_faults (by simp [opened?, hkind, hassigns]) fun hlt =>
      assignment_faults hkind hassigns (hitem hlt) rfl hbound
  next hassigns =>
  have hassigns : assigns rest = false := by simpa using hassigns
  split
  next hsymbol =>
    have hmem : token.text ∈ prefixOperators := by simpa using hsymbol
    exact construct_faults (by simp [opened?, hkind, hassigns, hmem]) fun hlt =>
      operator_faults hkind hassigns hmem (hitem hlt) rfl hbound
  next hsymbol =>
    have hmem : token.text ∉ prefixOperators := by simpa using hsymbol
    exact leaf_faults .ident (by simp [opened?, hkind, hassigns, hmem])

/-- One item fails as the rules say, if the items inside of it follow
them. -/
theorem itemOf_faults
    (hitem : context.nesting < limit → FollowsRules limit bound (context.nesting + 1) item)
    (hbound : tokens.length < bound) :
    Faults (itemOf item bound limit) context tokens (Fails limit ⟨.item, context, tokens⟩) := by
  cases tokens with
  | nil => exact Faults.ofCurrent_nil.congr fun fault => fails_item_nil.symm
  | cons token rest =>
    apply Faults.ofCurrent
    split
    next hkind =>
      exact construct_faults (by simp [opened?, hkind]) fun hlt =>
        function_faults hkind (hitem hlt) rfl hbound
    next hkind =>
      exact construct_faults (by simp [opened?, hkind]) fun hlt =>
        returnExpression_faults hkind (hitem hlt) rfl hbound
    next bracket hkind =>
      exact construct_faults (by simp [opened?, hkind]) fun hlt =>
        bracketed_faults hkind (hitem hlt) rfl hbound
    next hkind =>
      exact construct_faults (by simp [opened?, hkind]) fun hlt =>
        ifStatement_faults hkind (hitem hlt) rfl hbound
    next hkind =>
      exact construct_faults (by simp [opened?, hkind]) fun hlt =>
        elseStatement_faults hkind (hitem hlt) rfl hbound
    next hkind => exact identifier_faults hkind hitem hbound
    next hkind => exact leaf_faults .string (by simp [opened?, hkind])
    next hkind => exact leaf_faults .number (by simp [opened?, hkind])
    next hkind =>
      have hopened : opened? token rest = none := by simp [opened?, hkind]
      exact (Faults.ofModifyRest (Faults.pure none)).congr fun fault =>
        (iff_false_intro (not_fails_item hopened)).symm
    next =>
      have hopened : opened? token rest = none := by
        cases hkind : token.kind <;> simp_all [opened?]
      exact (Faults.ofAdvance (Faults.pure none)).congr fun fault =>
        (iff_false_intro (not_fails_item hopened)).symm

end Constructs

/-! ## The parser -/

/-- With a depth beyond the constructs that may still be opened, the
parser reads items as the rules say and fails as they say. -/
theorem followsRules_item {limit bound nesting depth : Nat} (hdepth : limit - nesting < depth) :
    FollowsRules limit bound nesting (item limit bound depth) := by
  induction depth generalizing nesting with
  | zero => omega
  | succ depth ih =>
    refine ⟨readsItems_item hdepth, fun context tokens hcontext hbound => ?_⟩
    refine itemOf_faults (fun hlt => ih ?_) hbound
    omega

/-- The context that a parser is in. -/
def context (parser : Parser) : Context := ⟨parser.blocks, parser.nesting, parser.closer⟩

/-- What one item comes to in any place, with bounds that suffice: a depth
beyond the constructs that may still be opened, and more turns than
tokens. -/
theorem item_outcome {limit bound depth : Nat} {parser : Parser}
    (hdepth : limit - parser.nesting < depth) (hbound : parser.rest.length < bound) :
    match item limit bound depth parser with
    | .ok node after =>
      ∃ rest, after = parser.context.parser rest ∧
        Reads limit .item parser.context parser.rest node.toList rest
    | .error failure after =>
      ∃ fault, failure = .invalid fault.error ∧ after = fault.parser parser.context ∧
        Fails limit ⟨.item, parser.context, parser.rest⟩ fault := by
  have hrules : FollowsRules limit bound parser.nesting (item limit bound depth) :=
    followsRules_item hdepth
  split
  next node after hrun =>
    exact (hrules.reads parser.context parser.rest rfl hbound node after).mp hrun
  next failure after hrun =>
    exact (hrules.faults parser.context parser.rest rfl hbound failure after).mp hrun

/-- All statements of a parser, with bounds that suffice: a depth beyond
the limit, and a turn more than tokens. -/
theorem statements_error_iff {limit bound turns depth : Nat} {context : Context}
    {tokens : List Token} {failure : Failure} {parser : Parser}
    (hdepth : limit - context.nesting < depth) (hbound : tokens.length < bound)
    (hturns : tokens.length < turns) :
    statements (item limit bound depth) turns (context.parser tokens) = .error failure parser ↔
      ∃ fault, failure = .invalid fault.error ∧ parser = fault.parser context ∧
        Fails limit ⟨.program, context, tokens⟩ fault :=
  statements_faults (followsRules_item hdepth) rfl hbound hturns failure parser

/-- The bounds of a run are not used up. -/
theorem statements_ne_exhausted (limit : Nat) (tokens : List Token) (after : Parser) :
    statements (item limit (tokens.length + 1) (limit + 1)) (tokens.length + 1) (.ofTokens tokens) ≠
      .error .exhausted after := by
  intro hrun
  obtain ⟨fault, hfailure, -⟩ := (@statements_error_iff limit _ _ _ .fresh tokens _
    after (Nat.lt_succ_self _) (Nat.lt_succ_self _) (Nat.lt_succ_self _)).mp hrun
  cases hfailure

/-- The parser answers an error exactly when the rules reach it, and then
it is left where they do. -/
theorem parseWithin_eq_error_iff {limit : Nat} {context : Context} {tokens : List Token}
    {error : ParseError} {parser : Parser} :
    (context.parser tokens).parseWithin limit = (.error error, parser) ↔
      ∃ fault, fault.error = error ∧ parser = fault.parser context ∧
        Fails limit ⟨.program, context, tokens⟩ fault := by
  have hfaults {failure : Failure} {stopped : Parser} :=
    @statements_error_iff limit (tokens.length + 1) (tokens.length + 1) (limit + 1) context tokens
      failure stopped (by omega) (Nat.lt_succ_self _) (Nat.lt_succ_self _)
  simp only [parseWithin]
  split
  next hrun =>
    replace hrun : statements (item limit (tokens.length + 1) (limit + 1)) (tokens.length + 1)
      (context.parser tokens) = .ok _ _ := hrun
    simp only [Prod.mk.injEq, reduceCtorEq, false_and, false_iff]
    intro h
    obtain ⟨fault, rfl, rfl, hfails⟩ := h
    have herror := hfaults.mpr ⟨fault, rfl, rfl, hfails⟩
    exact absurd (hrun.symm.trans herror) (by simp)
  next found stopped hrun =>
    replace hrun : statements (item limit (tokens.length + 1) (limit + 1)) (tokens.length + 1)
      (context.parser tokens) = .error _ _ := hrun
    simp only [Prod.mk.injEq, Except.error.injEq]
    constructor
    · intro h
      obtain ⟨rfl, rfl⟩ := h
      obtain ⟨fault, hfailure, hparser, hfails⟩ := hfaults.mp hrun
      exact ⟨fault, (Failure.invalid.inj hfailure).symm, hparser, hfails⟩
    · intro h
      obtain ⟨fault, rfl, rfl, hfails⟩ := h
      have herror := hfaults.mpr ⟨fault, rfl, rfl, hfails⟩
      obtain ⟨hfailure, hparser⟩ := EStateM.Result.error.inj (hrun.symm.trans herror)
      exact ⟨Failure.invalid.inj hfailure, hparser⟩
  next hrun =>
    replace hrun : statements (item limit (tokens.length + 1) (limit + 1)) (tokens.length + 1)
      (context.parser tokens) = .error _ _ := hrun
    obtain ⟨fault, hfailure, -⟩ := hfaults.mp hrun
    exact absurd hfailure (by simp)

end Parser

/-- The first moment of a run over the tokens by a fresh parser. -/
def Moment.ofTokens (tokens : List Token) : Moment := ⟨.program, .fresh, tokens⟩

/-- A token list fails to parse within a limit exactly as the rules say. -/
theorem fst_parseWithin_eq_error_iff {limit : Nat} {tokens : List Token} {error : ParseError} :
    ((Parser.ofTokens tokens).parseWithin limit).1 = .error error ↔
      ∃ fault, fault.error = error ∧ Fails limit (.ofTokens tokens) fault := by
  show ((Context.fresh.parser tokens).parseWithin limit).1 = _ ↔ _
  constructor
  · intro h
    have hpair : (Context.fresh.parser tokens).parseWithin limit =
        (.error error, ((Context.fresh.parser tokens).parseWithin limit).2) := by rw [← h]
    obtain ⟨fault, herror, -, hfails⟩ := Parser.parseWithin_eq_error_iff.mp hpair
    exact ⟨fault, herror, hfails⟩
  · intro h
    obtain ⟨fault, herror, hfails⟩ := h
    rw [Parser.parseWithin_eq_error_iff.mpr ⟨fault, herror, rfl, hfails⟩]

/-- A token list fails to parse exactly as the rules say. -/
theorem parse_eq_error_iff {tokens : List Token} {error : ParseError} :
    parse tokens = .error error ↔
      ∃ fault, fault.error = error ∧ Fails maxNesting (.ofTokens tokens) fault :=
  fst_parseWithin_eq_error_iff

end Flick
