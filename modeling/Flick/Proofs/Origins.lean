import Flick.Proofs.Reading.Adequacy
import Mathlib.Data.List.Forall2

/-!
# Where nodes come from

Nothing is lost, doubled or moved between the tokens and the tree.  A walk
over the tree of a token list meets one node for each content token, in
the order of the tokens, and the node is of the kind that the token and
what stands behind it ask for.

`Origin` is the table of what a token makes.  `contentSites` lists the
content tokens of a list, each with the tokens behind it, because an
identifier is the name of an assignment or not by what follows it.
`Accounts tokens nodes after` says that the nodes, walked in order, come
from the content tokens that a reading takes off the front.  Each rule of
`Reads` keeps it.
-/

namespace Flick

open Layout

/-! ## What a token makes -/

/-- Whether the first of the tokens that is not a tab is the sign of an
assignment. -/
def isAssigned (following : List Token) : Bool :=
  (following.find? (·.kind != .tab)).any (·.kind == .assign)

/-- The node is what a content token makes if these tokens follow it. -/
inductive Origin (token : Token) (following : List Token) : Node → Prop where
  | function {form : Form} {body : List Node} (hkind : token.kind = .arrow)
      (hform : form = .topLevelFunction ∨ form = .function) :
      Origin token following (.group form body)
  | returnExpression {body : List Node} (hkind : token.kind = .returnMark) :
      Origin token following (.group .returnExpression body)
  | bracketed {bracket : Bracket} {body : List Node} (hkind : token.kind = .opening bracket) :
      Origin token following (.group (.bracketed bracket) body)
  | conditional {condition body : List Node} (hkind : token.kind = .ifWord) :
      Origin token following (.conditional condition body)
  | elseStatement {body : List Node} (hkind : token.kind = .elseWord) :
      Origin token following (.group .elseStatement body)
  | string (hkind : token.kind = .string) :
      Origin token following (.leaf .string token.text)
  | number (hkind : token.kind = .number) :
      Origin token following (.leaf .number token.text)
  | assignment {body : List Node} (hkind : token.kind = .ident)
      (hassigned : isAssigned following = true) :
      Origin token following (.assignment token.text body)
  | operator {operand : Node} (hkind : token.kind = .ident)
      (hassigned : isAssigned following = false) (hsymbol : token.text ∈ prefixOperators) :
      Origin token following (.operator token.text operand)
  | ident (hkind : token.kind = .ident) (hassigned : isAssigned following = false)
      (hsymbol : token.text ∉ prefixOperators) :
      Origin token following (.leaf .ident token.text)

/-- The parser looks for the sign of an assignment past all tabs. -/
theorem assigns_eq_isAssigned (following : List Token) :
    Parser.assigns following = isAssigned following := by
  unfold Parser.assigns afterTabs isAssigned
  induction following with
  | nil => rfl
  | cons token rest ih =>
    by_cases htab : token.kind = .tab
    · simpa [htab] using ih
    · simp [htab, startsWith]

theorem Origin.isContent {token : Token} {following : List Token} {node : Node}
    (h : Origin token following node) : token.kind.isContent = true := by
  cases h <;> simp [TokenKind.isContent, *]

/-! ## Content tokens in their places -/

/-- The content tokens, each with the tokens behind it. -/
def contentSites : List Token → List (Token × List Token)
  | [] => []
  | token :: rest =>
    if token.kind.isContent then (token, rest) :: contentSites rest else contentSites rest

theorem contentSites_cons {token : Token} {rest : List Token}
    (h : token.kind.isContent = true) :
    contentSites (token :: rest) = (token, rest) :: contentSites rest := by
  rw [contentSites, if_pos h]

theorem contentSites_skip {token : Token} {rest : List Token}
    (h : token.kind.isContent = false) :
    contentSites (token :: rest) = contentSites rest := by
  rw [contentSites, if_neg (by simp [h])]

/-- The places of the content tokens are the content tokens in order. -/
theorem map_fst_contentSites (tokens : List Token) :
    (contentSites tokens).map Prod.fst = tokens.filter (·.kind.isContent) := by
  induction tokens with
  | nil => rfl
  | cons token rest ih =>
    cases h : token.kind.isContent with
    | true => rw [contentSites_cons h, List.map_cons, ih, List.filter_cons_of_pos (by exact h)]
    | false => rw [contentSites_skip h, ih, List.filter_cons_of_neg (by simp [h])]

/-! ## Layout passes no content -/

theorem contentSites_dropWhile {p : Token → Bool}
    (h : ∀ token, p token = true → token.kind.isContent = false) (tokens : List Token) :
    contentSites (tokens.dropWhile p) = contentSites tokens := by
  induction tokens with
  | nil => rfl
  | cons token rest ih =>
    rw [List.dropWhile_cons]
    split
    next hp => rw [ih, contentSites_skip (h token hp)]
    · rfl

theorem contentSites_dropKind {kind : TokenKind} (h : kind.isContent = false)
    (tokens : List Token) :
    contentSites (tokens.dropWhile (·.kind == kind)) = contentSites tokens := by
  refine contentSites_dropWhile (fun token hkind => ?_) tokens
  rw [beq_iff_eq] at hkind
  rw [hkind, h]

theorem contentSites_afterTabs (tokens : List Token) :
    contentSites (afterTabs tokens) = contentSites tokens :=
  contentSites_dropKind rfl tokens

theorem contentSites_afterNewlines (tokens : List Token) :
    contentSites (afterNewlines tokens) = contentSites tokens :=
  contentSites_dropKind rfl tokens

theorem contentSites_afterTrivia (tokens : List Token) :
    contentSites (afterTrivia tokens) = contentSites tokens := by
  refine contentSites_dropWhile (fun token h => ?_) tokens
  cases hkind : token.kind <;> simp_all [TokenKind.isTrivia, TokenKind.isContent]

theorem contentSites_nextLine (width : Nat) (tokens : List Token) :
    contentSites (nextLine width tokens).2 = contentSites tokens := by
  induction tokens generalizing width with
  | nil => rfl
  | cons token rest ih =>
    rw [nextLine]
    split
    next hkind => rw [ih, contentSites_skip (by simp [hkind, TokenKind.isContent])]
    split
    next hkind => rw [ih, contentSites_skip (by simp [hkind, TokenKind.isContent])]
    · rfl

theorem contentSites_continuation? {width : Nat} {tokens next : List Token}
    (h : continuation? width tokens = some next) : contentSites next = contentSites tokens := by
  have hsites := contentSites_nextLine 0 tokens
  rw [(nextLine_of_continuation? h).2] at hsites
  exact hsites

/-- The sign of an assignment or a `then` is passed without a node. -/
theorem contentSites_tail {kind : TokenKind} {tokens : List Token}
    (h : startsWith kind tokens = true) (hkind : kind.isContent = false) :
    contentSites tokens.tail = contentSites tokens := by
  obtain ⟨token, rest, rfl, hsame⟩ := exists_of_startsWith h
  rw [contentSites_skip (by rw [hsame, hkind]), List.tail_cons]

/-! ## Readings account for their tokens -/

/-- The nodes, walked in order, come from the content tokens between
`tokens` and `after`. -/
def Accounts (tokens : List Token) (nodes : List Node) (after : List Token) : Prop :=
  ∃ sites, contentSites tokens = sites ++ contentSites after ∧
    List.Forall₂ (fun site node => Origin site.1 site.2 node) sites (Node.preorderAll nodes)

namespace Accounts

variable {tokens middle after : List Token} {nodes more : List Node}

/-- Tokens without content make no node. -/
theorem ofSites (h : contentSites tokens = contentSites after) : Accounts tokens [] after :=
  ⟨[], h, .nil⟩

theorem append (hfirst : Accounts tokens nodes middle) (hmore : Accounts middle more after) :
    Accounts tokens (nodes ++ more) after := by
  obtain ⟨first, hsites, horigins⟩ := hfirst
  obtain ⟨second, hsites', horigins'⟩ := hmore
  refine ⟨first ++ second, ?_, ?_⟩
  · rw [hsites, hsites', List.append_assoc]
  · rw [Node.preorderAll_append]
    exact List.rel_append horigins horigins'

/-- What stands in front of the first content token does not matter. -/
theorem congrSites (h : Accounts middle nodes after)
    (hsites : contentSites tokens = contentSites middle) : Accounts tokens nodes after :=
  append (ofSites hsites) h

/-- A node comes from its token, and its children from what follows. -/
theorem node {token : Token} {rest : List Token} {node : Node}
    (horigin : Origin token rest node) (hchildren : Accounts rest node.children after) :
    Accounts (token :: rest) [node] after := by
  obtain ⟨sites, hsites, horigins⟩ := hchildren
  refine ⟨(token, rest) :: sites, ?_, ?_⟩
  · rw [contentSites_cons horigin.isContent, hsites, List.cons_append]
  · rw [Node.preorderAll_singleton]
    exact .cons horigin horigins

end Accounts

theorem Context.functionForm_eq (context : Context) :
    context.functionForm = .topLevelFunction ∨ context.functionForm = .function := by
  unfold functionForm
  split <;> simp

/-- A reading takes each content token once and in order. -/
theorem Reads.accounts {limit : Nat} {mode : Mode} {context : Context}
    {tokens after : List Token} {nodes : List Node}
    (h : Reads limit mode context tokens nodes after) : Accounts tokens nodes after := by
  induction h with
  | @leaf context token rest kind hkind hident =>
    refine .node ?_ (.ofSites rfl)
    cases kind with
    | string => exact .string hkind
    | number => exact .number hkind
    | ident =>
      obtain ⟨hassigns, hsymbol⟩ := hident rfl
      exact .ident hkind (assigns_eq_isAssigned rest ▸ hassigns) hsymbol
  | newline hkind =>
    refine .ofSites ?_
    rw [contentSites_skip (by rw [hkind]; rfl), contentSites_afterNewlines]
  | skip hkind _ => exact .ofSites (contentSites_skip hkind)
  | lineFunction hkind _ _ _ ih | blockFunction hkind _ _ _ ih =>
    exact .node (.function hkind (Context.functionForm_eq _)) ih
  | returnExpression hkind _ _ ih => exact .node (.returnExpression hkind) ih
  | @assignment context token rest after body hkind _ hassigns _ ih =>
    have hassigned : isAssigned rest = true := assigns_eq_isAssigned rest ▸ hassigns
    refine .node (.assignment hkind hassigned) (ih.congrSites ?_)
    rw [contentSites_tail hassigns rfl, contentSites_afterTabs]
  | @operator context token next rest more after operand hkind _ hassigns hsymbol hnext _ _ _ ih =>
    have hassigned : isAssigned rest = false := assigns_eq_isAssigned rest ▸ hassigns
    refine .node (.operator hkind hassigned hsymbol) (ih.congrSites ?_)
    rw [← hnext, contentSites_afterTrivia]
  | bracketed bracket hkind _ hbody ih =>
    obtain ⟨closing, behind, rfl, hclosing⟩ := hbody.upTo_after
    have hsites : contentSites (closing :: behind) = contentSites behind :=
      contentSites_skip (by rw [beq_iff_eq.mp hclosing]; rfl)
    have hbehind := ih.append (.ofSites hsites)
    rw [List.append_nil] at hbehind
    exact .node (.bracketed hkind) hbehind
  | lineIf hkind _ _ hthen _ ihcondition ihbody =>
    exact .node (.conditional hkind)
      (ihcondition.append (ihbody.congrSites (contentSites_tail hthen rfl).symm))
  | blockIf hkind _ _ _ _ ihcondition ihbody =>
    exact .node (.conditional hkind) (ihcondition.append ihbody)
  | lineElse hkind _ hnext _ _ ih =>
    refine .node (.elseStatement hkind) (ih.congrSites ?_)
    rw [← hnext, contentSites_afterTabs]
  | blockElse hkind _ _ _ ih =>
    exact .node (.elseStatement hkind) (ih.congrSites (contentSites_afterTabs _).symm)
  | stop | done => exact .ofSites rfl
  | step _ _ _ _ ihitem ihmore | statement _ _ ihitem ihmore => exact ihitem.append ihmore
  | lastLine _ _ ih => exact ih
  | moreLines _ hnext _ ihline ihmore =>
    exact ihline.append (ihmore.congrSites (contentSites_continuation? hnext).symm)
  | @block context tokens line after width nodes hline _ ih =>
    refine ih.congrSites ?_
    have hsites := contentSites_nextLine 0 tokens
    rw [hline] at hsites
    exact hsites.symm

/-- A walk over the tree of a token list meets the content tokens one by
one: each node is what the token in its place makes, and there are as many
nodes as content tokens. -/
theorem preorder_origins {tokens : List Token} {program : Program}
    (h : parse tokens = .ok program) :
    List.Forall₂ (fun site node => Origin site.1 site.2 node)
        (contentSites tokens) program.preorder ∧
      program.nodeCount = (tokens.filter (·.kind.isContent)).length := by
  obtain ⟨sites, hsites, horigins⟩ := (parse_eq_ok_iff.mp h).accounts
  have hall : contentSites tokens = sites := by rw [hsites]; exact List.append_nil _
  subst hall
  refine ⟨horigins, ?_⟩
  calc program.nodeCount
      = (contentSites tokens).length := horigins.length_eq.symm
    _ = ((contentSites tokens).map Prod.fst).length := (List.length_map _).symm
    _ = (tokens.filter (·.kind.isContent)).length := by rw [map_fst_contentSites]

/-- A function with a block below it, an operator whose name is assigned
to, and an `if` behind a token that ends the input. -/
theorem preorder_origins_of_block_and_if :
    let tokens : List Token :=
      [⟨.ident, "sum"⟩, ⟨.tab, " "⟩, ⟨.assign, "="⟩, ⟨.arrow, "->"⟩, ⟨.newline, ""⟩, ⟨.tab, ""⟩,
        ⟨.returnMark, "^"⟩, ⟨.ident, "+"⟩, ⟨.comment, "of"⟩, ⟨.opening .round, "("⟩,
        ⟨.number, "1"⟩, ⟨.closing .round, ")"⟩, ⟨.newline, ""⟩, ⟨.ident, "-"⟩, ⟨.assign, "="⟩,
        ⟨.endOfInput, ""⟩, ⟨.ifWord, "if"⟩, ⟨.ident, "x"⟩, ⟨.thenWord, "then"⟩,
        ⟨.string, "y"⟩, ⟨.newline, ""⟩]
    let program : Program :=
      ⟨[.assignment "sum" [.group .topLevelFunction [.group .returnExpression
          [.operator "+" (.group (.bracketed .round) [.leaf .number "1"])]]],
        .assignment "-" [],
        .conditional [.leaf .ident "x"] [.leaf .string "y"]]⟩
    parse tokens = .ok program ∧
      List.Forall₂ (fun site node => Origin site.1 site.2 node)
        (contentSites tokens) program.preorder ∧
      program.nodeCount = (tokens.filter (·.kind.isContent)).length := by
  intro tokens program
  have h : parse tokens = .ok program := by decide +kernel
  exact ⟨h, preorder_origins h⟩

end Flick
