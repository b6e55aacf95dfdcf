import Flick.Proofs.Statements
import Mathlib.Control.Monad.Basic

/-!
# Bodies that end with their line

The body of an assignment or of a return is the rest of its line.  Some of
the constructs in it run to the end of the line as well, or to the bracket
that closes the group around both, and such a construct leaves nothing to
be read behind it.  So it is the last node of the body, at any depth of
brackets, and whether it has a block of lines of its own or not.  An `if`
stops in front of an `else` too, and then the `else` is the last node.

What a construct leaves is said by the token that is next when it has been
read.  `Reads.closesLine_after` and `Reads.endsWithIf_after` find that
token, through operators that apply to a construct.  `Reads.endsWithLine`
follows a line from item to item, and `Reads.allEndWithLine` carries the
result to every body of a tree.
-/

namespace Flick

open Layout

namespace Node

/-- Whether the node takes the rest of its line: a function, a return, an
assignment, an `else`, or an operator that applies to such a node. -/
def closesLine : Node → Bool
  | .group .topLevelFunction _ | .group .function _ | .group .returnExpression _
  | .group .elseStatement _ | .assignment .. => true
  | .operator _ operand => operand.closesLine
  | .leaf .. | .group (.bracketed _) _ | .conditional .. => false

/-- Whether the node is an `if`, or an operator that applies to such a
node. -/
def endsWithIf : Node → Bool
  | .conditional .. => true
  | .operator _ operand => operand.endsWithIf
  | .leaf .. | .group .. | .assignment .. => false

/-- The body of an assignment or of a return. -/
def lineBody? : Node → Option (List Node)
  | .assignment _ body | .group .returnExpression body => some body
  | _ => none

end Node

/-- What takes the rest of the line is the last node of the body, and
behind an `if` there is nothing but perhaps one `else`. -/
structure EndsWithLine (body : List Node) : Prop where
  last : ∀ before node after, body = before ++ node :: after → node.closesLine = true →
    after = []
  branch : ∀ before node after, body = before ++ node :: after → node.endsWithIf = true →
    after = [] ∨ ∃ otherwise, after = [.group .elseStatement otherwise]

namespace EndsWithLine

theorem nil : EndsWithLine [] where
  last before node after hsplit := by simp at hsplit
  branch before node after hsplit := by simp at hsplit

theorem cons {node : Node} {nodes : List Node} (h : EndsWithLine nodes)
    (hlast : node.closesLine = true → nodes = [])
    (hbranch : node.endsWithIf = true →
      nodes = [] ∨ ∃ otherwise, nodes = [.group .elseStatement otherwise]) :
    EndsWithLine (node :: nodes) where
  last before other after hsplit := by
    rcases List.cons_eq_append_iff.mp hsplit with ⟨rfl, heq⟩ | ⟨front, rfl, hrest⟩
    · obtain ⟨rfl, rfl⟩ := List.cons.inj heq
      exact hlast
    · exact h.last front other after hrest
  branch before other after hsplit := by
    rcases List.cons_eq_append_iff.mp hsplit with ⟨rfl, heq⟩ | ⟨front, rfl, hrest⟩
    · obtain ⟨rfl, rfl⟩ := List.cons.inj heq
      exact hbranch
    · exact h.branch front other after hrest

end EndsWithLine

/-! ## What an item leaves -/

section Items

variable {limit : Nat} {context : Context} {tokens after : List Token} {node : Node}
  {nodes : List Node}

/-- What takes the rest of its line leaves a token that stops the line. -/
theorem Reads.closesLine_after (h : Reads limit .item context tokens [node] after)
    (hnode : node.closesLine = true) :
    ∃ token rest, after = token :: rest ∧ context.stopsLine [] token.kind = true := by
  generalize hmode : Mode.item = mode at h
  generalize hnodes : [node] = nodes at h
  induction h generalizing node with
  | lineFunction _ _ _ hbody | returnExpression _ _ hbody | assignment _ _ _ hbody
  | lineElse _ _ _ _ hbody => exact hbody.upTo_after
  | blockFunction _ _ _ hbody | blockElse _ _ _ hbody => exact hbody.block_after
  | operator _ _ _ _ _ _ _ _ ih =>
    obtain rfl := (List.cons.inj hnodes).1
    rw [Node.closesLine] at hnode
    exact ih hnode rfl rfl
  | leaf | bracketed | lineIf | blockIf =>
    cases hnodes
    cases hnode
  | newline | skip => cases hnodes
  | stop | step | lastLine | moreLines | block | done | statement => cases hmode

/-- An `if` leaves such a token or an `else`. -/
theorem Reads.endsWithIf_after (h : Reads limit .item context tokens [node] after)
    (hnode : node.endsWithIf = true) :
    ∃ token rest, after = token :: rest ∧
      (context.stopsLine [] token.kind = true ∨ token.kind = .elseWord) := by
  generalize hmode : Mode.item = mode at h
  generalize hnodes : [node] = nodes at h
  induction h generalizing node with
  | @lineIf context _ _ _ _ _ _ _ _ _ _ hbody =>
    obtain ⟨token, rest, rfl, hstop⟩ := hbody.upTo_after
    refine ⟨token, rest, rfl, ?_⟩
    simp only [Context.stopsLine, List.contains_cons, List.contains_nil, Bool.or_eq_true,
      beq_iff_eq, Bool.or_false] at hstop ⊢
    rcases hstop with (hend | helse) | hcloses
    · exact .inl (.inl hend)
    · exact .inr helse
    · exact .inl (.inr hcloses)
  | blockIf _ _ _ _ hbody =>
    obtain ⟨token, rest, rfl, hstop⟩ := hbody.block_after
    exact ⟨token, rest, rfl, .inl hstop⟩
  | operator _ _ _ _ _ _ _ _ ih =>
    obtain rfl := (List.cons.inj hnodes).1
    rw [Node.endsWithIf] at hnode
    exact ih hnode rfl rfl
  | leaf | lineFunction | blockFunction | returnExpression | assignment | bracketed | lineElse
  | blockElse =>
    cases hnodes
    cases hnode
  | newline | skip => cases hnodes
  | stop | step | lastLine | moreLines | block | done | statement => cases hmode

/-! ## What a line holds -/

/-- In front of a token that stops it, a reading has no nodes. -/
theorem Reads.upTo_eq_nil {stops : TokenKind → Bool}
    (h : Reads limit (.upTo stops) context tokens nodes after)
    (htokens : ∃ token rest, tokens = token :: rest ∧ stops token.kind = true) : nodes = [] := by
  obtain ⟨token, rest, rfl, hstop⟩ := htokens
  cases h with
  | stop => rfl
  | step hgoes => simp [hstop] at hgoes

/-- An `else` in front of a line is all of it. -/
theorem Reads.upTo_otherwise
    (h : Reads limit (.upTo (context.stopsLine [])) context tokens nodes after)
    (htokens : ∃ token rest, tokens = token :: rest ∧
      (context.stopsLine [] token.kind = true ∨ token.kind = .elseWord)) :
    nodes = [] ∨ ∃ otherwise, nodes = [.group .elseStatement otherwise] := by
  obtain ⟨token, rest, rfl, hstop | helse⟩ := htokens
  · exact .inl (h.upTo_eq_nil ⟨token, rest, rfl, hstop⟩)
  cases h with
  | stop => exact .inl rfl
  | step _ _ hitem hmore =>
    obtain ⟨_, rfl, -, otherwise, -, rfl⟩ := (Reads.elseWord_iff helse).mp hitem
    have hnil := hmore.upTo_eq_nil (hitem.closesLine_after rfl)
    exact .inr ⟨otherwise, by rw [hnil, List.append_nil]⟩

/-- What is read up to the end of a line ends with it.  The induction goes
from item to item. -/
theorem Reads.endsWithLine
    (h : Reads limit (.upTo (context.stopsLine [])) context tokens nodes after) :
    EndsWithLine nodes := by
  generalize hmode : Mode.upTo (context.stopsLine []) = mode at h
  induction h with
  | stop => exact .nil
  | step _ _ hitem hmore _ ih =>
    cases hmode
    obtain ⟨node | node, rfl⟩ := hitem.exists_toList_eq
    · exact ih rfl
    · refine (ih rfl).cons (fun hnode => ?_) fun hnode => ?_
      · exact hmore.upTo_eq_nil (hitem.closesLine_after hnode)
      · exact hmore.upTo_otherwise (hitem.endsWithIf_after hnode)
  | _ => cases hmode

end Items

/-! ## All bodies of a tree -/

/-- Every body of an assignment or of a return in the trees ends with its
line. -/
def AllEndWithLine (nodes : List Node) : Prop :=
  ∀ node ∈ Node.preorderAll nodes, ∀ body, node.lineBody? = some body → EndsWithLine body

namespace AllEndWithLine

theorem nil : AllEndWithLine [] := by
  intro node hmem
  simp [Node.preorderAll] at hmem

theorem append {first second : List Node} (hfirst : AllEndWithLine first)
    (hsecond : AllEndWithLine second) : AllEndWithLine (first ++ second) := by
  intro node hmem
  rw [Node.preorderAll_append] at hmem
  exact (List.mem_append.mp hmem).elim (hfirst node) (hsecond node)

/-- A tree is its root and what is below it. -/
theorem root {node : Node} (hroot : ∀ body, node.lineBody? = some body → EndsWithLine body)
    (hchildren : AllEndWithLine node.children) : AllEndWithLine [node] := by
  rw [AllEndWithLine, Node.preorderAll_singleton, List.forall_mem_cons]
  exact ⟨hroot, hchildren⟩

end AllEndWithLine

/-- All bodies of a reading end with their lines.  Those of assignments and
returns are read up to the end of a line, and no other node has one. -/
theorem Reads.allEndWithLine {limit : Nat} {mode : Mode} {context : Context}
    {tokens after : List Token} {nodes : List Node}
    (h : Reads limit mode context tokens nodes after) : AllEndWithLine nodes := by
  have hline {node : Node} {body : List Node} (hbody : node.lineBody? = some body)
      (hends : EndsWithLine body) :
      ∀ other, node.lineBody? = some other → EndsWithLine other := by
    intro other hother
    exact Option.some.inj (hbody.symm.trans hother) ▸ hends
  have hnone {node : Node} (hbody : node.lineBody? = none) :
      ∀ body, node.lineBody? = some body → EndsWithLine body := by
    intro body hother
    simp [hbody] at hother
  have hfunction (context : Context) (body : List Node) :
      (Node.group context.functionForm body).lineBody? = none := by
    unfold Context.functionForm
    split <;> rfl
  induction h with
  | leaf => exact .root (hnone rfl) .nil
  | newline | skip | stop | done => exact .nil
  | @lineFunction context _ _ _ body _ _ _ _ ih
  | @blockFunction context _ _ _ body _ _ _ _ ih =>
    exact .root (hnone (hfunction context body)) ih
  | @returnExpression context _ _ _ _ _ _ hbody ih
  | @assignment context _ _ _ _ _ _ _ hbody ih =>
    -- One more open construct does not change what stops the line.
    have hreads : Reads limit (.upTo (context.nest.stopsLine [])) context.nest _ _ _ := hbody
    exact .root (hline rfl hreads.endsWithLine) ih
  | operator _ _ _ _ _ _ _ _ ih | bracketed _ _ _ _ ih | lineElse _ _ _ _ _ ih
  | blockElse _ _ _ _ ih => exact .root (hnone rfl) ih
  | lineIf _ _ _ _ _ ihcondition ihbody | blockIf _ _ _ _ _ ihcondition ihbody =>
    exact .root (hnone rfl) (ihcondition.append ihbody)
  | step _ _ _ _ ihitem ihmore | statement _ _ ihitem ihmore => exact ihitem.append ihmore
  | lastLine _ _ ih | block _ _ ih => exact ih
  | moreLines _ _ _ ihline ihmore => exact ihline.append ihmore

/-- In every tree that the parser answers, the body of each assignment and
of each return ends with its line. -/
theorem parse_lineBodies {tokens : List Token} {program : Program}
    (h : parse tokens = .ok program) :
    ∀ node ∈ program.preorder, ∀ body, node.lineBody? = some body → EndsWithLine body :=
  (parse_eq_ok_iff.mp h).allEndWithLine

/-- In brackets, an operator on an `if` with an `else` behind it, and a
return that ends in a function. -/
theorem parse_lineBodies_of_branches :
    let tokens : List Token :=
      [⟨.opening .round, "("⟩, ⟨.ident, "x"⟩, ⟨.assign, "="⟩, ⟨.number, "1"⟩, ⟨.ident, "-"⟩,
        ⟨.ifWord, "if"⟩, ⟨.ident, "a"⟩, ⟨.thenWord, "then"⟩, ⟨.ident, "b"⟩,
        ⟨.elseWord, "else"⟩, ⟨.returnMark, "^"⟩, ⟨.ident, "c"⟩, ⟨.arrow, "->"⟩, ⟨.newline, "\n"⟩,
        ⟨.tab, "\t"⟩, ⟨.ident, "d"⟩, ⟨.closing .round, ")"⟩, ⟨.endOfInput, ""⟩]
    let returned : List Node := [.leaf .ident "c", .group .topLevelFunction [.leaf .ident "d"]]
    let assigned : List Node :=
      [.leaf .number "1", .operator "-" (.conditional [.leaf .ident "a"] [.leaf .ident "b"]),
        .group .elseStatement [.group .returnExpression returned]]
    parse tokens = .ok ⟨[.group (.bracketed .round) [.assignment "x" assigned]]⟩ ∧
      EndsWithLine assigned ∧ EndsWithLine returned := by
  intro tokens returned assigned
  have h : parse tokens = .ok ⟨[.group (.bracketed .round) [.assignment "x" assigned]]⟩ := by
    decide +kernel
  have hassigned := parse_lineBodies h (.assignment "x" assigned)
    (by simp [Program.preorder, Node.preorderAll, Node.preorder]) assigned rfl
  have hreturned := parse_lineBodies h (.group .returnExpression returned)
    (by simp [Program.preorder, Node.preorderAll, Node.preorder, assigned]) returned rfl
  exact ⟨h, hassigned, hreturned⟩

end Flick
