import Flick.Parser.Grammar

/-!
# Watched runs

`watchedItem` is `item` with a check in front of every item, at every
depth: where more blocks than constructs are open, or more constructs than
the limit allows, it gives up.  A run that begins without blocks never
fails the check, so the watched run is the run itself
(`statements_watchedItem`).

The proof compares two ways to read an item that do the same wherever the
parser fits.  `Alike` is the relation between two actions that this makes
of the constructs: they do the same inside of given blocks and of a given
number of constructs, and leave these as they were if they succeed.  A
construct counts itself before it opens its one block, so the items in it
find a parser that fits.
-/

namespace Flick

namespace Parser

open Layout

/-- There is an open construct for each open block, and there are no more
constructs than the limit allows. -/
def Fits (limit : Nat) (parser : Parser) : Prop :=
  parser.blocks.length ≤ parser.nesting ∧ parser.nesting ≤ limit

instance (limit : Nat) (parser : Parser) : Decidable (Fits limit parser) :=
  inferInstanceAs (Decidable (_ ∧ _))

/-- Reads one item as `item` does, but gives up in front of an item for
which the parser does not fit. -/
def watchedItem (limit bound : Nat) : (depth : Nat) → ParserM (Option Node)
  | 0 => throw .exhausted
  | depth + 1 => fun parser =>
    if Fits limit parser then itemOf (watchedItem limit bound depth) bound limit parser
    else .error .exhausted parser

/-! ## Actions that do the same -/

section Alike

variable {α β : Type} {blocks : List Block} {nesting limit : Nat}

/-- The actions do the same inside of these blocks and this many constructs,
and leave both as they were if they succeed. -/
def Alike (blocks : List Block) (nesting : Nat) (first second : ParserM α) : Prop :=
  ∀ parser, parser.blocks = blocks → parser.nesting = nesting →
    first parser = second parser ∧
      ∀ value after, second parser = .ok value after →
        after.blocks = blocks ∧ after.nesting = nesting

namespace Alike

theorem pure (value : α) : Alike blocks nesting (pure value) (pure value) := by
  intro parser hblocks hnesting
  refine ⟨rfl, fun _ after h => ?_⟩
  cases h
  exact ⟨hblocks, hnesting⟩

theorem throw (failure : Failure) :
    Alike blocks nesting (throw failure : ParserM α) (throw failure) :=
  fun _ _ _ => ⟨rfl, fun _ _ h => by cases h⟩

theorem get : Alike blocks nesting get get := by
  intro parser hblocks hnesting
  refine ⟨rfl, fun _ after h => ?_⟩
  cases h
  exact ⟨hblocks, hnesting⟩

theorem modifyRest (change : Parser → List Token) :
    Alike blocks nesting (modify fun parser => { parser with rest := change parser })
      (modify fun parser => { parser with rest := change parser }) := by
  intro parser hblocks hnesting
  refine ⟨rfl, fun _ after h => ?_⟩
  cases h
  exact ⟨hblocks, hnesting⟩

theorem bind {first second : ParserM α} {next other : α → ParserM β}
    (h : Alike blocks nesting first second)
    (hnext : ∀ value, Alike blocks nesting (next value) (other value)) :
    Alike blocks nesting (first >>= next) (second >>= other) := by
  intro parser hblocks hnesting
  obtain ⟨heq, hok⟩ := h parser hblocks hnesting
  show EStateM.bind first next parser = EStateM.bind second other parser ∧
    ∀ value after, EStateM.bind second other parser = .ok value after → _
  unfold EStateM.bind
  rw [heq]
  cases hrun : second parser with
  | error failure after => exact ⟨rfl, fun _ _ h => by cases h⟩
  | ok value after =>
    obtain ⟨hblocks', hnesting'⟩ := hok value after hrun
    exact hnext value after hblocks' hnesting'

theorem map {first second : ParserM α} (make : α → β) (h : Alike blocks nesting first second) :
    Alike blocks nesting (make <$> first) (make <$> second) :=
  h.bind fun value => .pure (make value)

theorem current (construct : Construct) :
    Alike blocks nesting (current construct) (current construct) :=
  get.bind fun parser => by
    cases parser.rest with
    | nil => exact .throw _
    | cons token rest => exact .pure token

theorem nested {construct : Construct} {first second : ParserM α}
    (h : nesting < limit → Alike blocks (nesting + 1) first second) :
    Alike blocks nesting (nested limit construct first) (nested limit construct second) := by
  intro parser hblocks hnesting
  unfold Parser.nested
  by_cases hlimit : limit ≤ parser.nesting
  · rw [if_pos hlimit, if_pos hlimit]
    exact ⟨rfl, fun _ _ h => by cases h⟩
  · rw [if_neg hlimit, if_neg hlimit]
    obtain ⟨heq, hok⟩ := h (by omega) { parser with nesting := parser.nesting + 1 } hblocks
      (congrArg (· + 1) hnesting)
    rw [heq]
    cases hrun : second { parser with nesting := parser.nesting + 1 } with
    | error failure after => exact ⟨rfl, fun _ _ h => by cases h⟩
    | ok value after =>
      obtain ⟨hblocks', hnesting'⟩ := hok value after hrun
      refine ⟨rfl, fun _ _ h => ?_⟩
      cases h
      exact ⟨hblocks', by simp [hnesting']⟩

theorem closedBy {bracket : Bracket} {first second : ParserM α}
    (h : Alike blocks nesting first second) :
    Alike blocks nesting (closedBy bracket first) (closedBy bracket second) := by
  intro parser hblocks hnesting
  unfold Parser.closedBy
  obtain ⟨heq, hok⟩ := h { parser with closer := some bracket } hblocks hnesting
  rw [heq]
  cases hrun : second { parser with closer := some bracket } with
  | error failure after => exact ⟨rfl, fun _ _ h => by cases h⟩
  | ok value after =>
    refine ⟨rfl, fun _ _ h => ?_⟩
    cases h
    exact hok value after hrun

theorem inBlock {block : Block} {first second : ParserM α}
    (h : Alike (block :: blocks) nesting first second) :
    Alike blocks nesting (inBlock block first) (inBlock block second) := by
  intro parser hblocks hnesting
  obtain ⟨heq, hok⟩ := h { parser with blocks := block :: parser.blocks }
    (congrArg (block :: ·) hblocks) hnesting
  show EStateM.bind first _ { parser with blocks := block :: parser.blocks } =
    EStateM.bind second _ { parser with blocks := block :: parser.blocks } ∧
    ∀ value after, EStateM.bind second _ { parser with blocks := block :: parser.blocks } =
      .ok value after → _
  unfold EStateM.bind
  rw [heq]
  cases hrun : second { parser with blocks := block :: parser.blocks } with
  | error failure after => exact ⟨rfl, fun _ _ h => by cases h⟩
  | ok value after =>
    obtain ⟨hblocks', hnesting'⟩ := hok value after hrun
    refine ⟨rfl, fun _ _ h => ?_⟩
    cases h
    exact ⟨congrArg List.tail hblocks', hnesting'⟩

end Alike

end Alike

/-! ## Constructs

In what follows, `item` and `other` are two actions that read one item. -/

section Constructs

variable {limit bound nesting : Nat} {blocks : List Block} {item other : ParserM (Option Node)}

/-- The two actions do the same wherever the parser fits. -/
def AlikeItems (limit : Nat) (item other : ParserM (Option Node)) : Prop :=
  ∀ blocks nesting, blocks.length ≤ nesting → nesting ≤ limit → Alike blocks nesting item other

theorem items_alike (construct : Construct) (stops : TokenKind → Bool)
    (hitem : Alike blocks nesting item other) :
    Alike blocks nesting (items construct stops item bound)
      (items construct stops other bound) := by
  induction bound with
  | zero => exact .throw .exhausted
  | succ bound ih =>
    refine (Alike.current construct).bind fun token => ?_
    split
    · exact .pure []
    split
    · exact .throw _
    · exact hitem.bind fun node => ih.bind fun nodes => .pure _

theorem lines_alike (width : Nat) {line otherLine : ParserM (List Node)}
    (hline : Alike blocks nesting line otherLine) :
    Alike blocks nesting (lines width line bound) (lines width otherLine bound) := by
  induction bound with
  | zero => exact .throw .exhausted
  | succ bound ih =>
    refine hline.bind fun nodes => Alike.get.bind fun parser => ?_
    cases continuation? width parser.rest with
    | none => exact .pure nodes
    | some rest => exact (Alike.modifyRest _).bind fun _ => ih.bind fun more => .pure _

theorem statements_alike (hitem : Alike blocks nesting item other) :
    Alike blocks nesting (statements item bound) (statements other bound) := by
  induction bound with
  | zero => exact .throw .exhausted
  | succ bound ih =>
    refine Alike.get.bind fun parser => ?_
    split
    · exact .pure []
    · exact hitem.bind fun node => ih.bind fun nodes => .pure _

theorem restOfLine_alike (construct : Construct) (stops : List TokenKind)
    (hitem : Alike blocks nesting item other) :
    Alike blocks nesting (restOfLine item bound construct stops)
      (restOfLine other bound construct stops) :=
  Alike.get.bind fun _ => items_alike construct _ hitem

section Inside

variable (hitem : AlikeItems limit item other) (hroom : blocks.length < nesting)
  (hle : nesting ≤ limit)
include hitem hroom hle

/-- Inside of a construct the parser fits, with or without the construct's
own block. -/
theorem item_inside : Alike blocks nesting item other :=
  hitem blocks nesting (Nat.le_of_lt hroom) hle

theorem indentedBody_alike (construct : Construct) :
    Alike blocks nesting (indentedBody item bound construct)
      (indentedBody other bound construct) := by
  refine Alike.get.bind fun parser => (Alike.modifyRest _).bind fun _ => .inBlock ?_
  exact lines_alike _ (restOfLine_alike construct [] (hitem _ _ hroom hle))

theorem functionBody_alike :
    Alike blocks nesting (functionBody item bound) (functionBody other bound) := by
  refine Alike.get.bind fun parser => ?_
  split
  · exact indentedBody_alike hitem hroom hle .functionBody
  · exact .inBlock (restOfLine_alike .functionBody [] (hitem _ _ hroom hle))

theorem function_alike : Alike blocks nesting (function item bound) (function other bound) :=
  Alike.get.bind fun _ => (Alike.modifyRest _).bind fun _ =>
    (functionBody_alike hitem hroom hle).bind fun _ => .pure _

theorem returnExpression_alike :
    Alike blocks nesting (returnExpression item bound) (returnExpression other bound) :=
  (Alike.modifyRest _).bind fun _ =>
    (restOfLine_alike _ _ (item_inside hitem hroom hle)).bind fun _ => .pure _

theorem assignment_alike :
    Alike blocks nesting (assignment item bound) (assignment other bound) :=
  (Alike.current _).bind fun _ => Alike.get.bind fun _ => (Alike.modifyRest _).bind fun _ =>
    (restOfLine_alike _ _ (item_inside hitem hroom hle)).bind fun _ => .pure _

theorem bracketed_alike (bracket : Bracket) :
    Alike blocks nesting (bracketed item bound bracket) (bracketed other bound bracket) := by
  have hbody :
      Alike blocks nesting (groupBody item bound bracket) (groupBody other bound bracket) :=
    (items_alike _ _ (item_inside hitem hroom hle)).bind fun _ =>
      (Alike.modifyRest _).bind fun _ => .pure _
  exact (Alike.modifyRest _).bind fun _ => hbody.closedBy.bind fun _ => .pure _

theorem operator_alike : Alike blocks nesting (operator item) (operator other) := by
  refine (Alike.current _).bind fun symbol => Alike.get.bind fun parser =>
    (Alike.modifyRest _).bind fun _ => (Alike.current _).bind fun next => ?_
  split
  · exact .throw _
  split
  · exact .throw _
  · refine (item_inside hitem hroom hle).bind fun operand => ?_
    cases operand with
    | none => exact .throw _
    | some operand => exact .pure _

theorem ifStatement_alike :
    Alike blocks nesting (ifStatement item bound) (ifStatement other bound) := by
  have hinside := item_inside hitem hroom hle
  have hbody : Alike blocks nesting (ifBody item bound) (ifBody other bound) := by
    refine Alike.get.bind fun parser => ?_
    split
    · exact (Alike.modifyRest _).bind fun _ => restOfLine_alike _ _ hinside
    · exact indentedBody_alike hitem hroom hle .ifBody
  exact (Alike.modifyRest _).bind fun _ => (items_alike _ _ hinside).bind fun _ =>
    hbody.bind fun _ => .pure _

theorem elseStatement_alike :
    Alike blocks nesting (elseStatement item bound) (elseStatement other bound) := by
  have hbody : Alike blocks nesting (elseBody item bound) (elseBody other bound) := by
    refine (Alike.current _).bind fun next => ?_
    split
    · exact indentedBody_alike hitem hroom hle .elseBody
    split
    · exact .throw _
    · exact restOfLine_alike _ _ (item_inside hitem hroom hle)
  exact Alike.get.bind fun _ => (Alike.modifyRest _).bind fun _ => hbody.bind fun _ => .pure _

end Inside

theorem leaf_alike (kind : Leaf) (token : Token) :
    Alike blocks nesting (leaf kind token) (leaf kind token) :=
  (Alike.modifyRest _).bind fun _ => .pure _

/-- An item does the same whichever of two actions reads the items in it. -/
theorem itemOf_alike (hitem : AlikeItems limit item other) (hfits : blocks.length ≤ nesting) :
    Alike blocks nesting (itemOf item bound limit) (itemOf other bound limit) := by
  have hroom := Nat.lt_succ_of_le hfits
  refine (Alike.current _).bind fun token => ?_
  split
  · exact .map _ (.nested (function_alike hitem hroom))
  · exact .map _ (.nested (returnExpression_alike hitem hroom))
  · exact .map _ (.nested fun hle => bracketed_alike hitem hroom hle _)
  · exact .map _ (.nested (ifStatement_alike hitem hroom))
  · exact .map _ (.nested (elseStatement_alike hitem hroom))
  · refine Alike.get.bind fun parser => ?_
    split
    · exact .map _ (.nested (assignment_alike hitem hroom))
    split
    · exact .map _ (.nested (operator_alike hitem hroom))
    · exact leaf_alike .ident token
  · exact leaf_alike .string token
  · exact leaf_alike .number token
  · exact (Alike.modifyRest _).bind fun _ => .pure none
  · exact (Alike.modifyRest _).bind fun _ => .pure none

end Constructs

/-! ## The watch -/

/-- Wherever the parser fits, it fits in front of all items further in. -/
theorem watchedItem_alike (limit bound depth : Nat) :
    AlikeItems limit (watchedItem limit bound depth) (item limit bound depth) := by
  induction depth with
  | zero => exact fun _ _ _ _ => .throw .exhausted
  | succ depth ih =>
    intro blocks nesting hfits hle parser hblocks hnesting
    have hparser : Fits limit parser := by
      rw [Fits, hblocks, hnesting]
      exact ⟨hfits, hle⟩
    have hwatched : watchedItem limit bound (depth + 1) parser =
        itemOf (watchedItem limit bound depth) bound limit parser := if_pos hparser
    rw [hwatched]
    exact itemOf_alike ih hfits parser hblocks hnesting

/-- A watched run is the run itself. -/
theorem statements_watchedItem (limit bound depth turns : Nat) (tokens : List Token) :
    statements (watchedItem limit bound depth) turns (.ofTokens tokens) =
      statements (item limit bound depth) turns (.ofTokens tokens) :=
  (statements_alike (watchedItem_alike limit bound depth [] 0 (Nat.le_refl 0) (Nat.zero_le limit))
    (.ofTokens tokens) rfl rfl).1

end Parser

end Flick
