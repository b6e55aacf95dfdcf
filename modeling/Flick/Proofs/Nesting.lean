import Flick.Proofs.Reading

/-!
# Nesting

A container is a node that is no leaf.  `Node.depth` is the largest number
of containers on a path from a node down, the node included.

Every container is read one construct deeper than the node around it, and
no construct is opened beyond the limit, so the tree of a reading nests at
most as many containers as the limit leaves room for.
-/

namespace Flick

namespace Node

mutual

/-- The largest number of containers on a path from this node down. -/
def depth : Node → Nat
  | .leaf .. => 0
  | .group _ body | .assignment _ body => depthAll body + 1
  | .conditional condition body => max (depthAll condition) (depthAll body) + 1
  | .operator _ operand => operand.depth + 1

/-- The largest depth of several trees. -/
def depthAll : List Node → Nat
  | [] => 0
  | node :: nodes => max node.depth (depthAll nodes)

end

theorem depthAll_append (first second : List Node) :
    depthAll (first ++ second) = max (depthAll first) (depthAll second) := by
  induction first with
  | nil => simp [depthAll]
  | cons node first ih => rw [List.cons_append, depthAll, depthAll, ih, Nat.max_assoc]

theorem depthAll_singleton (node : Node) : depthAll [node] = node.depth := by
  simp [depthAll]

end Node

open Node

/-- The nodes of a reading and the constructs that are open around it stay
within the limit together. -/
theorem Reads.depth_le {limit : Nat} {mode : Mode} {context : Context}
    {tokens after : List Token} {nodes : List Node}
    (h : Reads limit mode context tokens nodes after) (hnesting : context.nesting ≤ limit) :
    context.nesting + depthAll nodes ≤ limit := by
  induction h with
  | leaf | newline | skip | stop | done => simpa [depthAll, depth] using hnesting
  | lineFunction _ hlt _ _ ih | blockFunction _ hlt _ _ ih | returnExpression _ hlt _ ih
  | assignment _ hlt _ _ ih | bracketed _ _ hlt _ ih | lineElse _ hlt _ _ _ ih
  | blockElse _ hlt _ _ ih =>
    have hbody := ih hlt
    simp only [Context.nest, Context.inBlock, Context.inGroup] at hbody
    rw [depthAll_singleton, depth]
    omega
  | operator _ hlt _ _ _ _ _ _ ih =>
    have hoperand := ih hlt
    rw [depthAll_singleton] at hoperand
    simp only [Context.nest] at hoperand
    rw [depthAll_singleton, depth]
    omega
  | lineIf _ hlt _ _ _ ihcondition ihbody | blockIf _ hlt _ _ _ ihcondition ihbody =>
    have hcondition := ihcondition hlt
    have hbody := ihbody hlt
    simp only [Context.nest] at hcondition hbody
    rw [depthAll_singleton, depth]
    omega
  | step _ _ _ _ ihfirst ihmore | moreLines _ _ _ ihfirst ihmore
  | statement _ _ ihfirst ihmore =>
    have hfirst := ihfirst hnesting
    have hmore := ihmore hnesting
    rw [depthAll_append]
    omega
  | lastLine _ _ ih => exact ih hnesting
  | block _ _ ih => exact ih hnesting

end Flick
