import Flick.Parser.Grammar

/-!
# Readings

What the parser does to a token list, as rules.  `Reads limit mode context
tokens nodes after` says that from the front of `tokens` the nodes are
read and `after` is left.  There is one rule for each shape of each
construct, and nothing here counts turns or bounds a recursion.

A `Context` is the part of the parser that a reading does not change: the
open blocks, the number of open constructs and the bracket that is waited
for.  A construct is read inside a changed context, and the reading around
it goes on in its own.  A `Mode` says how far a reading goes: over one
item, up to a token of some kind, over the lines of a block, over the
block below a header, or to the end.

The rules say how each token is used, so a fact about all successful runs
of the parser is one induction over them.  The first such fact is here: a
reading leaves a suffix of its tokens, and an item takes at least one.
-/

namespace Flick

/-- The kinds of tokens that make a node. -/
def TokenKind.isContent : TokenKind → Bool
  | .arrow | .returnMark | .ident | .opening _ | .string | .number | .ifWord | .elseWord => true
  | _ => false

/-- The kind of a leaf's token. -/
def Leaf.tokenKind : Leaf → TokenKind
  | .string => .string
  | .number => .number
  | .ident => .ident

/-- What stays the same while the parser reads on. -/
structure Context where
  blocks : List Block
  nesting : Nat
  closer : Option Bracket

namespace Context

/-- The parser in this context in front of the tokens. -/
def parser (context : Context) (tokens : List Token) : Parser where
  rest := tokens
  blocks := context.blocks
  nesting := context.nesting
  closer := context.closer

/-- Inside of one more construct. -/
def nest (context : Context) : Context := { context with nesting := context.nesting + 1 }

/-- Inside of a block. -/
def inBlock (context : Context) (block : Block) : Context :=
  { context with blocks := block :: context.blocks }

/-- Inside of a group that this bracket closes. -/
def inGroup (context : Context) (bracket : Bracket) : Context :=
  { context with closer := some bracket }

/-- Whether a token of this kind closes the innermost open group. -/
def closes (context : Context) (kind : TokenKind) : Bool :=
  match context.closer with
  | some bracket => kind == .closing bracket
  | none => false

/-- Whether a token of this kind stops a construct that runs to the end of
its line, or to one of `stops`. -/
def stopsLine (context : Context) (stops : List TokenKind) (kind : TokenKind) : Bool :=
  kind.endsLine || stops.contains kind || context.closes kind

/-- The form of a function in this context. -/
def functionForm (context : Context) : Form :=
  if context.blocks.isEmpty then .topLevelFunction else .function

end Context

/-- How far a reading goes. -/
inductive Mode where
  | item
  /-- To the first token of a kind that stops it, which is left. -/
  | upTo (stops : TokenKind → Bool)
  /-- Over the lines of a block, from inside the first one on. -/
  | lines (width : Nat)
  /-- Over the block below a header line. -/
  | block
  /-- To the end of the tokens. -/
  | program

/-- Whether a token of this kind stops the condition of an `if`. -/
def endsCondition (kind : TokenKind) : Bool := kind == .thenWord || kind == .newline

open Layout in
/-- The rules of reading.  The limit bounds the number of open constructs. -/
inductive Reads (limit : Nat) :
    Mode → Context → List Token → List Node → List Token → Prop where
  /-- A leaf is its token, unless the token begins more. -/
  | leaf {context : Context} {token : Token} {rest : List Token} (kind : Leaf)
      (hkind : token.kind = kind.tokenKind)
      (hident : kind = .ident →
        Parser.assigns rest = false ∧ token.text ∉ prefixOperators) :
      Reads limit .item context (token :: rest) [.leaf kind token.text] rest
  | newline {context : Context} {token : Token} {rest : List Token}
      (hkind : token.kind = .newline) :
      Reads limit .item context (token :: rest) [] (afterNewlines rest)
  | skip {context : Context} {token : Token} {rest : List Token}
      (hkind : token.kind.isContent = false) (hnewline : token.kind ≠ .newline) :
      Reads limit .item context (token :: rest) [] rest
  | lineFunction {context : Context} {token : Token} {rest after : List Token}
      {body : List Node} (hkind : token.kind = .arrow) (hnesting : context.nesting < limit)
      (hline : startsWith .newline (afterTabs rest) = false)
      (hbody : Reads limit (.upTo (context.stopsLine [])) (context.nest.inBlock .inline)
        rest body after) :
      Reads limit .item context (token :: rest) [.group context.functionForm body] after
  | blockFunction {context : Context} {token : Token} {rest after : List Token}
      {body : List Node} (hkind : token.kind = .arrow) (hnesting : context.nesting < limit)
      (hline : startsWith .newline (afterTabs rest) = true)
      (hbody : Reads limit .block context.nest rest body after) :
      Reads limit .item context (token :: rest) [.group context.functionForm body] after
  | returnExpression {context : Context} {token : Token} {rest after : List Token}
      {body : List Node} (hkind : token.kind = .returnMark) (hnesting : context.nesting < limit)
      (hbody : Reads limit (.upTo (context.stopsLine [])) context.nest rest body after) :
      Reads limit .item context (token :: rest) [.group .returnExpression body] after
  | assignment {context : Context} {token : Token} {rest after : List Token}
      {body : List Node} (hkind : token.kind = .ident) (hnesting : context.nesting < limit)
      (hassigns : Parser.assigns rest = true)
      (hbody : Reads limit (.upTo (context.stopsLine [])) context.nest
        (afterTabs rest).tail body after) :
      Reads limit .item context (token :: rest) [.assignment token.text body] after
  | operator {context : Context} {token next : Token} {rest more after : List Token}
      {operand : Node} (hkind : token.kind = .ident) (hnesting : context.nesting < limit)
      (hassigns : Parser.assigns rest = false) (hsymbol : token.text ∈ prefixOperators)
      (hnext : afterTrivia rest = next :: more) (hend : next.kind.endsLine = false)
      (hcloser : context.closes next.kind = false)
      (hoperand : Reads limit .item context.nest (next :: more) [operand] after) :
      Reads limit .item context (token :: rest) [.operator token.text operand] after
  | bracketed {context : Context} {token : Token} {rest after : List Token}
      {body : List Node} (bracket : Bracket) (hkind : token.kind = .opening bracket)
      (hnesting : context.nesting < limit)
      (hbody : Reads limit (.upTo (· == .closing bracket)) (context.nest.inGroup bracket)
        rest body after) :
      Reads limit .item context (token :: rest) [.group (.bracketed bracket) body] after.tail
  | lineIf {context : Context} {token : Token} {rest middle after : List Token}
      {condition body : List Node} (hkind : token.kind = .ifWord)
      (hnesting : context.nesting < limit)
      (hcondition : Reads limit (.upTo endsCondition) context.nest rest condition middle)
      (hthen : startsWith .thenWord middle = true)
      (hbody : Reads limit (.upTo (context.stopsLine [.elseWord])) context.nest
        middle.tail body after) :
      Reads limit .item context (token :: rest) [.conditional condition body] after
  | blockIf {context : Context} {token : Token} {rest middle after : List Token}
      {condition body : List Node} (hkind : token.kind = .ifWord)
      (hnesting : context.nesting < limit)
      (hcondition : Reads limit (.upTo endsCondition) context.nest rest condition middle)
      (hthen : startsWith .thenWord middle = false)
      (hbody : Reads limit .block context.nest middle body after) :
      Reads limit .item context (token :: rest) [.conditional condition body] after
  | lineElse {context : Context} {token next : Token} {rest more after : List Token}
      {body : List Node} (hkind : token.kind = .elseWord) (hnesting : context.nesting < limit)
      (hnext : afterTabs rest = next :: more) (hend : next.kind.endsLine = false)
      (hbody : Reads limit (.upTo (context.stopsLine [])) context.nest
        (next :: more) body after) :
      Reads limit .item context (token :: rest) [.group .elseStatement body] after
  | blockElse {context : Context} {token : Token} {rest after : List Token}
      {body : List Node} (hkind : token.kind = .elseWord) (hnesting : context.nesting < limit)
      (hline : startsWith .newline (afterTabs rest) = true)
      (hbody : Reads limit .block context.nest (afterTabs rest) body after) :
      Reads limit .item context (token :: rest) [.group .elseStatement body] after
  | stop {context : Context} {stops : TokenKind → Bool} {token : Token} {rest : List Token}
      (hstops : stops token.kind = true) :
      Reads limit (.upTo stops) context (token :: rest) [] (token :: rest)
  | step {context : Context} {stops : TokenKind → Bool} {token : Token}
      {rest middle after : List Token} {nodes more : List Node}
      (hstops : stops token.kind = false) (hend : token.kind ≠ .endOfInput)
      (hitem : Reads limit .item context (token :: rest) nodes middle)
      (hmore : Reads limit (.upTo stops) context middle more after) :
      Reads limit (.upTo stops) context (token :: rest) (nodes ++ more) after
  | lastLine {context : Context} {width : Nat} {tokens after : List Token} {nodes : List Node}
      (hline : Reads limit (.upTo (context.stopsLine [])) context tokens nodes after)
      (hlast : continuation? width after = none) :
      Reads limit (.lines width) context tokens nodes after
  | moreLines {context : Context} {width : Nat} {tokens middle next after : List Token}
      {nodes more : List Node}
      (hline : Reads limit (.upTo (context.stopsLine [])) context tokens nodes middle)
      (hnext : continuation? width middle = some next)
      (hmore : Reads limit (.lines width) context next more after) :
      Reads limit (.lines width) context tokens (nodes ++ more) after
  | block {context : Context} {tokens line after : List Token} {width : Nat} {nodes : List Node}
      (hline : nextLine 0 tokens = (width, line))
      (hbody : Reads limit (.lines width) (context.inBlock (.indented width)) line nodes after) :
      Reads limit .block context tokens nodes after
  | done {context : Context} : Reads limit .program context [] [] []
  | statement {context : Context} {token : Token} {rest middle after : List Token}
      {nodes more : List Node}
      (hitem : Reads limit .item context (token :: rest) nodes middle)
      (hmore : Reads limit .program context middle more after) :
      Reads limit .program context (token :: rest) (nodes ++ more) after

namespace Layout

/-! ## What layout leaves -/

theorem exists_of_startsWith {kind : TokenKind} {tokens : List Token}
    (h : startsWith kind tokens = true) :
    ∃ token rest, tokens = token :: rest ∧ token.kind = kind := by
  cases tokens with
  | nil => simp [startsWith] at h
  | cons token rest => exact ⟨token, rest, rfl, by simpa [startsWith] using h⟩

theorem afterTabs_suffix (tokens : List Token) : afterTabs tokens <:+ tokens :=
  List.dropWhile_suffix _

theorem afterNewlines_suffix (tokens : List Token) : afterNewlines tokens <:+ tokens :=
  List.dropWhile_suffix _

theorem afterTrivia_suffix (tokens : List Token) : afterTrivia tokens <:+ tokens :=
  List.dropWhile_suffix _

theorem nextLine_suffix (width : Nat) (tokens : List Token) :
    (nextLine width tokens).2 <:+ tokens := by
  induction tokens generalizing width with
  | nil => exact List.suffix_refl _
  | cons token rest ih =>
    rw [nextLine]
    split
    · exact (ih (width + 1)).trans (List.suffix_cons token rest)
    split
    · exact (ih 0).trans (List.suffix_cons token rest)
    · exact List.suffix_refl _

/-- A line end forgets the tabs before it. -/
theorem nextLine_newline {token : Token} (hkind : token.kind = .newline) (width : Nat)
    (rest : List Token) : nextLine width (token :: rest) = nextLine 0 rest := by
  simp [nextLine, hkind]

/-- Where a block goes on, a line ends and the next one has its width. -/
theorem nextLine_of_continuation? {width : Nat} {tokens line : List Token}
    (h : continuation? width tokens = some line) :
    startsWith .newline tokens = true ∧ nextLine 0 tokens = (width, line) := by
  simp only [continuation?] at h
  split at h
  next hnewline =>
    split at h
    next hwidth =>
      rw [Bool.and_eq_true, decide_eq_true_eq] at hwidth
      exact ⟨hnewline, Prod.ext hwidth.1 (Option.some.inj h)⟩
    · exact absurd h (by simp)
  · exact absurd h (by simp)

/-- The next line of a block is behind the line end, so at least one token
is passed. -/
theorem continuation?_suffix {width : Nat} {tokens next : List Token}
    (h : continuation? width tokens = some next) : next <:+ tokens.tail ∧ tokens ≠ [] := by
  obtain ⟨hnewline, hline⟩ := nextLine_of_continuation? h
  obtain ⟨token, rest, rfl, hkind⟩ := exists_of_startsWith hnewline
  have hsuffix := nextLine_suffix 0 rest
  rw [nextLine_newline hkind] at hline
  rw [hline] at hsuffix
  exact ⟨hsuffix, by simp⟩

end Layout

namespace Reads

open Layout

variable {limit : Nat} {mode : Mode} {context : Context} {tokens after : List Token}
  {nodes : List Node}

/-! ## Progress -/

/-- A reading leaves a suffix, and an item takes its first token.  An item
may sit in another one, so the two are proved together. -/
theorem suffix_and_item (h : Reads limit mode context tokens nodes after) :
    after <:+ tokens ∧ (mode = .item → after <:+ tokens.tail ∧ tokens ≠ []) := by
  -- An item passes its first token and reads on in what follows it.
  have item {token : Token} {rest after : List Token} {other : Mode} (h : after <:+ rest) :
      after <:+ token :: rest ∧
        (other = .item → after <:+ (token :: rest).tail ∧ token :: rest ≠ []) :=
    ⟨h.trans (List.suffix_cons token rest), fun _ => ⟨h, by simp⟩⟩
  induction h with
  | leaf | skip => exact item (List.suffix_refl _)
  | newline => exact item (afterNewlines_suffix _)
  | lineFunction _ _ _ _ ih | blockFunction _ _ _ _ ih | returnExpression _ _ _ ih =>
    exact item ih.1
  | assignment _ _ _ _ ih =>
    exact item (ih.1.trans ((List.tail_suffix _).trans (afterTabs_suffix _)))
  | operator _ _ _ _ hnext _ _ _ ih =>
    exact item (ih.1.trans (hnext ▸ afterTrivia_suffix _))
  | bracketed _ _ _ _ ih => exact item ((List.tail_suffix _).trans ih.1)
  | lineIf _ _ _ _ _ ihcondition ihbody =>
    exact item (ihbody.1.trans ((List.tail_suffix _).trans ihcondition.1))
  | blockIf _ _ _ _ _ ihcondition ihbody => exact item (ihbody.1.trans ihcondition.1)
  | lineElse _ _ hnext _ _ ih => exact item (ih.1.trans (hnext ▸ afterTabs_suffix _))
  | blockElse _ _ _ _ ih => exact item (ih.1.trans (afterTabs_suffix _))
  | stop => exact ⟨List.suffix_refl _, by simp⟩
  | step _ _ _ _ ihitem ihmore => exact ⟨ihmore.1.trans ihitem.1, by simp⟩
  | lastLine _ _ ih => exact ⟨ih.1, by simp⟩
  | moreLines _ hnext _ ihline ihmore =>
    have hsuffix := (continuation?_suffix hnext).1.trans (List.tail_suffix _)
    exact ⟨(ihmore.1.trans hsuffix).trans ihline.1, by simp⟩
  | block hline _ ih =>
    have hsuffix := congrArg Prod.snd hline ▸ nextLine_suffix 0 _
    exact ⟨ih.1.trans hsuffix, by simp⟩
  | done => exact ⟨List.suffix_refl _, by simp⟩
  | statement _ _ ihitem ihmore => exact ⟨ihmore.1.trans ihitem.1, by simp⟩

theorem suffix (h : Reads limit mode context tokens nodes after) : after <:+ tokens :=
  h.suffix_and_item.1

theorem length_le (h : Reads limit mode context tokens nodes after) :
    after.length ≤ tokens.length :=
  h.suffix.length_le

/-- An item takes at least one token. -/
theorem length_lt (h : Reads limit .item context tokens nodes after) :
    after.length < tokens.length := by
  obtain ⟨hsuffix, hne⟩ := h.suffix_and_item.2 rfl
  have hle := hsuffix.length_le
  have hpos := List.length_pos_iff.mpr hne
  rw [List.length_tail] at hle
  omega

/-- An item is at most one node. -/
theorem exists_toList_eq (h : Reads limit .item context tokens nodes after) :
    ∃ node : Option Node, node.toList = nodes := by
  cases h with
  | newline | skip => exact ⟨none, rfl⟩
  | _ => exact ⟨some _, rfl⟩

/-- A reading up to a kind of token leaves such a token in front. -/
theorem upTo_after {stops : TokenKind → Bool}
    (h : Reads limit (.upTo stops) context tokens nodes after) :
    ∃ token rest, after = token :: rest ∧ stops token.kind = true := by
  generalize hmode : Mode.upTo stops = mode at h
  induction h with
  | @stop context _ token rest hstops =>
    cases hmode
    exact ⟨token, rest, rfl, hstops⟩
  | step _ _ _ _ _ ih => exact ih hmode
  | _ => cases hmode

/-- A condition without a `then` ends with its line. -/
theorem startsWith_newline (h : Reads limit (.upTo endsCondition) context tokens nodes after)
    (hthen : startsWith .thenWord after = false) : startsWith .newline after = true := by
  obtain ⟨token, rest, rfl, hstops⟩ := h.upTo_after
  simp_all [startsWith, endsCondition]

/-- A reading to the end leaves nothing. -/
theorem program_after (h : Reads limit .program context tokens nodes after) : after = [] := by
  generalize hmode : Mode.program = mode at h
  induction h with
  | done => rfl
  | statement _ _ _ ih => exact ih hmode
  | _ => cases hmode

/-! ## The rules backwards -/

theorem program_nil_iff :
    Reads limit .program context [] nodes after ↔ nodes = [] ∧ after = [] := by
  constructor
  · intro h
    cases h
    exact ⟨rfl, rfl⟩
  · intro h
    obtain ⟨rfl, rfl⟩ := h
    exact .done

theorem block_iff :
    Reads limit .block context tokens nodes after ↔
      Reads limit (.lines (nextLine 0 tokens).1)
        (context.inBlock (.indented (nextLine 0 tokens).1)) (nextLine 0 tokens).2 nodes after := by
  constructor
  · intro h
    cases h with
    | block hline hbody =>
      rw [hline]
      exact hbody
  · intro h
    exact .block rfl h

section FirstToken

variable {token : Token} {rest : List Token}

theorem leaf_iff (kind : Leaf) (hkind : token.kind = kind.tokenKind)
    (hident : kind = .ident → Parser.assigns rest = false ∧ token.text ∉ prefixOperators) :
    Reads limit .item context (token :: rest) nodes after ↔
      nodes = [.leaf kind token.text] ∧ after = rest := by
  constructor
  · intro h
    cases h with
    | leaf other => cases kind <;> cases other <;> simp_all [Leaf.tokenKind]
    | _ => cases kind <;> simp_all [Leaf.tokenKind, TokenKind.isContent]
  · intro h
    obtain ⟨rfl, rfl⟩ := h
    exact .leaf kind hkind hident

theorem newline_iff (hkind : token.kind = .newline) :
    Reads limit .item context (token :: rest) nodes after ↔
      nodes = [] ∧ after = afterNewlines rest := by
  constructor
  · intro h
    cases h with
    | leaf kind => cases kind <;> simp_all [Leaf.tokenKind]
    | newline => exact ⟨rfl, rfl⟩
    | _ => simp_all
  · intro h
    obtain ⟨rfl, rfl⟩ := h
    exact .newline hkind

theorem skip_iff (hkind : token.kind.isContent = false) (hnewline : token.kind ≠ .newline) :
    Reads limit .item context (token :: rest) nodes after ↔ nodes = [] ∧ after = rest := by
  constructor
  · intro h
    cases h with
    | leaf kind => cases kind <;> simp_all [Leaf.tokenKind, TokenKind.isContent]
    | skip => exact ⟨rfl, rfl⟩
    | _ => simp_all [TokenKind.isContent]
  · intro h
    obtain ⟨rfl, rfl⟩ := h
    exact .skip hkind hnewline

theorem arrow_iff (hkind : token.kind = .arrow) :
    Reads limit .item context (token :: rest) nodes after ↔
      ∃ node, nodes = [node] ∧ context.nesting < limit ∧ ∃ body,
        (if startsWith .newline (afterTabs rest) then
          Reads limit .block context.nest rest body after
        else
          Reads limit (.upTo (context.stopsLine [])) (context.nest.inBlock .inline) rest body
            after) ∧
        node = .group context.functionForm body := by
  constructor
  · intro h
    cases h with
    | leaf kind => cases kind <;> simp_all [Leaf.tokenKind]
    | lineFunction _ hnesting hline hbody =>
      exact ⟨_, rfl, hnesting, _, by simpa [hline] using hbody, rfl⟩
    | blockFunction _ hnesting hline hbody =>
      exact ⟨_, rfl, hnesting, _, by simpa [hline] using hbody, rfl⟩
    | _ => simp_all [TokenKind.isContent]
  · intro h
    obtain ⟨_, rfl, hnesting, body, hbody, rfl⟩ := h
    split at hbody
    next hline => exact .blockFunction hkind hnesting hline hbody
    next hline => exact .lineFunction hkind hnesting (by simpa using hline) hbody

theorem returnMark_iff (hkind : token.kind = .returnMark) :
    Reads limit .item context (token :: rest) nodes after ↔
      ∃ node, nodes = [node] ∧ context.nesting < limit ∧ ∃ body,
        Reads limit (.upTo (context.stopsLine [])) context.nest rest body after ∧
        node = .group .returnExpression body := by
  constructor
  · intro h
    cases h with
    | leaf kind => cases kind <;> simp_all [Leaf.tokenKind]
    | returnExpression _ hnesting hbody => exact ⟨_, rfl, hnesting, _, hbody, rfl⟩
    | _ => simp_all [TokenKind.isContent]
  · intro h
    obtain ⟨_, rfl, hnesting, body, hbody, rfl⟩ := h
    exact .returnExpression hkind hnesting hbody

theorem assigns_iff (hkind : token.kind = .ident) (hassigns : Parser.assigns rest = true) :
    Reads limit .item context (token :: rest) nodes after ↔
      ∃ node, nodes = [node] ∧ context.nesting < limit ∧ ∃ body,
        Reads limit (.upTo (context.stopsLine [])) context.nest (afterTabs rest).tail body after ∧
        node = .assignment token.text body := by
  constructor
  · intro h
    cases h with
    | leaf kind => cases kind <;> simp_all [Leaf.tokenKind]
    | assignment _ hnesting _ hbody => exact ⟨_, rfl, hnesting, _, hbody, rfl⟩
    | _ => simp_all [TokenKind.isContent]
  · intro h
    obtain ⟨_, rfl, hnesting, body, hbody, rfl⟩ := h
    exact .assignment hkind hnesting hassigns hbody

theorem operator_iff (hkind : token.kind = .ident) (hassigns : Parser.assigns rest = false)
    (hsymbol : token.text ∈ prefixOperators) :
    Reads limit .item context (token :: rest) nodes after ↔
      ∃ node, nodes = [node] ∧ context.nesting < limit ∧
        ∃ operand, node = .operator token.text operand ∧
        ∃ next more, afterTrivia rest = next :: more ∧ next.kind.endsLine = false ∧
          context.closes next.kind = false ∧
          Reads limit .item context.nest (next :: more) [operand] after := by
  constructor
  · intro h
    cases h with
    | leaf kind => cases kind <;> simp_all [Leaf.tokenKind]
    | operator _ hnesting _ _ hnext hend hcloser hoperand =>
      exact ⟨_, rfl, hnesting, _, rfl, _, _, hnext, hend, hcloser, hoperand⟩
    | _ => simp_all [TokenKind.isContent]
  · intro h
    obtain ⟨_, rfl, hnesting, operand, rfl, next, more, hnext, hend, hcloser, hoperand⟩ := h
    exact .operator hkind hnesting hassigns hsymbol hnext hend hcloser hoperand

theorem opening_iff {bracket : Bracket} (hkind : token.kind = .opening bracket) :
    Reads limit .item context (token :: rest) nodes after ↔
      ∃ node, nodes = [node] ∧ context.nesting < limit ∧ ∃ body,
        (∃ middle, Reads limit (.upTo (· == .closing bracket)) (context.nest.inGroup bracket) rest
          body middle ∧ after = middle.tail) ∧
        node = .group (.bracketed bracket) body := by
  constructor
  · intro h
    cases h with
    | leaf kind => cases kind <;> simp_all [Leaf.tokenKind]
    | bracketed other hother hnesting hbody =>
      obtain rfl : bracket = other := by simpa [hkind] using hother
      exact ⟨_, rfl, hnesting, _, ⟨_, hbody, rfl⟩, rfl⟩
    | _ => simp_all [TokenKind.isContent]
  · intro h
    obtain ⟨_, rfl, hnesting, body, ⟨middle, hbody, rfl⟩, rfl⟩ := h
    exact .bracketed bracket hkind hnesting hbody

theorem ifWord_iff (hkind : token.kind = .ifWord) :
    Reads limit .item context (token :: rest) nodes after ↔
      ∃ node, nodes = [node] ∧ context.nesting < limit ∧ ∃ condition middle,
        Reads limit (.upTo endsCondition) context.nest rest condition middle ∧ ∃ body,
        (if startsWith .thenWord middle then
          Reads limit (.upTo (context.stopsLine [.elseWord])) context.nest middle.tail body after
        else Reads limit .block context.nest middle body after) ∧
        node = .conditional condition body := by
  constructor
  · intro h
    cases h with
    | leaf kind => cases kind <;> simp_all [Leaf.tokenKind]
    | lineIf _ hnesting hcondition hthen hbody =>
      exact ⟨_, rfl, hnesting, _, _, hcondition, _, by simpa [hthen] using hbody, rfl⟩
    | blockIf _ hnesting hcondition hthen hbody =>
      exact ⟨_, rfl, hnesting, _, _, hcondition, _, by simpa [hthen] using hbody, rfl⟩
    | _ => simp_all [TokenKind.isContent]
  · intro h
    obtain ⟨_, rfl, hnesting, condition, middle, hcondition, body, hbody, rfl⟩ := h
    split at hbody
    next hthen => exact .lineIf hkind hnesting hcondition hthen hbody
    next hthen => exact .blockIf hkind hnesting hcondition (by simpa using hthen) hbody

theorem elseWord_iff (hkind : token.kind = .elseWord) :
    Reads limit .item context (token :: rest) nodes after ↔
      ∃ node, nodes = [node] ∧ context.nesting < limit ∧ ∃ body,
        (if startsWith .newline (afterTabs rest) then
          Reads limit .block context.nest (afterTabs rest) body after
        else
          ∃ next more, afterTabs rest = next :: more ∧ next.kind.endsLine = false ∧
            Reads limit (.upTo (context.stopsLine [])) context.nest (next :: more) body after) ∧
        node = .group .elseStatement body := by
  constructor
  · intro h
    cases h with
    | leaf kind => cases kind <;> simp_all [Leaf.tokenKind]
    | lineElse _ hnesting hnext hend hbody =>
      have hline : startsWith .newline (afterTabs rest) = false := by
        rw [hnext, startsWith, beq_eq_false_iff_ne]
        intro hnewline
        simp [hnewline, TokenKind.endsLine] at hend
      exact ⟨_, rfl, hnesting, _, by simpa [hline] using ⟨_, _, hnext, hend, hbody⟩, rfl⟩
    | blockElse _ hnesting hline hbody =>
      exact ⟨_, rfl, hnesting, _, by simpa [hline] using hbody, rfl⟩
    | _ => simp_all [TokenKind.isContent]
  · intro h
    obtain ⟨_, rfl, hnesting, body, hbody, rfl⟩ := h
    split at hbody
    next hline => exact .blockElse hkind hnesting hline hbody
    next =>
      obtain ⟨next, more, hnext, hend, hbody⟩ := hbody
      exact .lineElse hkind hnesting hnext hend hbody

end FirstToken

end Reads

end Flick
