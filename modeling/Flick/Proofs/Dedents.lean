import Flick.Proofs.Indentation

/-!
# The block that a line joins

Functions with blocks are opened one inside of the other, each block with a
width of its own.  The widths need not grow.  Then one more line follows.
It belongs to the innermost block that has exactly its width, and to the
program if no open block has it.

Every open block looks at the line by itself, from the innermost one on,
and a block that does not go on leaves the line where it is.  So what is
read inside of the blocks is all that they hold, if every one of them ends
behind it (`reads_blocks`).  The block that the line joins is read past the
line, and those around it end with the input (`reads_joined`).
-/

namespace Flick

open Layout

/-- A function whose block has lines of this width. -/
structure FunctionBlock where
  name : String
  width : Nat

/-- A line end, and the tabs of a line of this width. -/
def margin (width : Nat) : List Token :=
  .ofSymbol .newline :: List.replicate width (.ofSymbol .tab)

theorem Margin.canonical (width : Nat) : Margin width (margin width) := by
  have htabs : AllTabs (List.replicate width (.ofSymbol .tab)) := by
    intro token hmem
    rw [List.eq_of_mem_replicate hmem]
    rfl
  have h : Margin _ (margin width) := .tabs rfl htabs
  rwa [List.length_replicate] at h

/-- One more line of this width, at the end of the input. -/
def finalLine (width : Nat) (word : Word) : List Token :=
  margin width ++ [word.token, .endOfInput]

namespace FunctionBlock

/-- The header `name = ->`, up to the first line of the block. -/
def opening (block : FunctionBlock) : List Token :=
  [⟨.ident, block.name⟩, .ofSymbol .equals, .ofSymbol .arrow] ++ margin block.width

/-- The trees of blocks that are opened one inside of the other, the last
one around the body.  The form is that of the outermost function. -/
def nest (form : Form) : List FunctionBlock → List Node → List Node
  | [], body => body
  | block :: blocks, body =>
    [.assignment block.name [.group form (nest .function blocks body)]]

/-- The context inside of the blocks. -/
def enter (context : Context) : List FunctionBlock → Context
  | [] => context
  | block :: blocks => enter (context.nest.nest.inBlock (.indented block.width)) blocks

/-! ## Inside of the blocks -/

section Inside

variable (context : Context) (blocks : List FunctionBlock)

theorem closer_enter : (enter context blocks).closer = context.closer := by
  induction blocks generalizing context with
  | nil => rfl
  | cons block blocks ih => exact ih _

/-- A block counts twice, for the assignment and for the function. -/
theorem nesting_enter : (enter context blocks).nesting = context.nesting + 2 * blocks.length := by
  induction blocks generalizing context with
  | nil => rfl
  | cons block blocks ih =>
    rw [enter, ih, List.length_cons]
    simp only [Context.nest, Context.inBlock]
    omega

/-- The body of the outer blocks may hold blocks itself. -/
theorem nest_append (inner : List FunctionBlock) (body : List Node) :
    nest context.functionForm (blocks ++ inner) body =
      nest context.functionForm blocks
        (nest (enter context blocks).functionForm inner body) := by
  induction blocks generalizing context with
  | nil => rfl
  | cons block blocks ih =>
    have h := ih (context.nest.nest.inBlock (.indented block.width))
    simp only [List.cons_append, nest, enter]
    exact congrArg (fun nodes => [Node.assignment block.name [.group context.functionForm nodes]]) h

end Inside

/-! ## Reading the blocks -/

theorem atContent_openings {blocks : List FunctionBlock} {line : List Token}
    (hline : AtContent line) : AtContent (blocks.flatMap opening ++ line) := by
  cases blocks with
  | nil => exact hline
  | cons block blocks => exact ⟨⟨.ident, block.name⟩, _, rfl, rfl⟩

section Reading

variable {limit : Nat} {context : Context} {block : FunctionBlock} {blocks : List FunctionBlock}
  {line after : List Token} {nodes : List Node}

/-- A header is read with the lines of its block. -/
theorem reads_opening (hcloser : context.closer = none) (hnesting : context.nesting + 2 ≤ limit)
    (hline : AtContent line)
    (hlines : Reads limit (.lines block.width) (enter context [block]) line nodes after)
    (hend : AtLineEnd after) :
    Reads limit (.upTo (context.stopsLine [])) context (block.opening ++ line)
      (nest context.functionForm [block] nodes) after := by
  have hstart : continuation? block.width (margin block.width ++ line) = some line := by
    rw [(Margin.canonical block.width).continuation?_eq hline, if_pos rfl]
  obtain ⟨hnewline, hnext⟩ := nextLine_of_continuation? hstart
  have hitem := reads_functionHeader rfl rfl rfl
    (.refl [⟨.ident, block.name⟩, .ofSymbol .equals, .ofSymbol .arrow]) hcloser hnesting hnewline
    (.block hnext hlines) hend
  rw [opening, List.append_assoc]
  exact hitem.lineOfItem hcloser ⟨_, _, rfl, rfl⟩ hend

/-- What is read inside of the blocks is all that they hold, if they all
end behind it.  The innermost block ends first. -/
theorem reads_blocks (hcloser : context.closer = none)
    (hnesting : context.nesting + 2 * blocks.length ≤ limit) (hline : AtContent line)
    (hbody : Reads limit (.upTo ((enter context blocks).stopsLine [])) (enter context blocks) line
      nodes after)
    (hend : AtLineEnd after)
    (hends : ∀ block ∈ blocks, continuation? block.width after = none) :
    Reads limit (.upTo (context.stopsLine [])) context (blocks.flatMap opening ++ line)
      (nest context.functionForm blocks nodes) after := by
  induction blocks generalizing context with
  | nil => exact hbody
  | cons block blocks ih =>
    obtain ⟨hlast, hends⟩ := List.forall_mem_cons.mp hends
    rw [List.length_cons] at hnesting
    have hinside : (enter context [block]).nesting + 2 * blocks.length ≤ limit := by
      rw [nesting_enter, List.length_singleton]
      omega
    have hfirst : Reads limit (.upTo ((enter context [block]).stopsLine [])) (enter context [block])
        (blocks.flatMap opening ++ line) (nest .function blocks nodes) after :=
      ih hcloser hinside hbody hends
    rw [List.flatMap_cons, List.append_assoc]
    exact reads_opening hcloser (by omega) (atContent_openings hline) (.lastLine hfirst hlast) hend

end Reading

/-! ## The line behind the blocks -/

section Joining

variable {limit width : Nat} {context : Context} {outer inner : List FunctionBlock}
  {block : FunctionBlock}

theorem atContent_word (word : Word) (rest : List Token) : AtContent (word.token :: rest) :=
  (word.atContent []).append rest

theorem atLineEnd_finalLine (width : Nat) (word : Word) : AtLineEnd (finalLine width word) :=
  (Margin.canonical width).atLineEnd _

theorem continuation?_finalLine (width other : Nat) (word : Word) :
    continuation? other (finalLine width word) =
      if width = other then some [word.token, .endOfInput] else none :=
  (Margin.canonical width).continuation?_eq (atContent_word word _) other

/-- A line of one word. -/
theorem reads_word {following : List Token} (hcloser : context.closer = none) (word : Word)
    (hend : AtLineEnd following) :
    Reads limit (.upTo (context.stopsLine [])) context (word.token :: following) [word.node]
      following := by
  have hline : Spaced ([word].map Word.token) [word.token] := .refl _
  exact reads_wordLine hline hcloser hend

/-- Blocks of other widths end in front of the line. -/
theorem reads_apart (hcloser : context.closer = none)
    (hnesting : context.nesting + 2 * inner.length ≤ limit)
    (hwidths : ∀ block ∈ inner, block.width ≠ width) (first second : Word) :
    Reads limit (.upTo (context.stopsLine [])) context
      (inner.flatMap opening ++ first.token :: finalLine width second)
      (nest context.functionForm inner [first.node]) (finalLine width second) := by
  have hcloserInner := (closer_enter context inner).trans hcloser
  have hend := atLineEnd_finalLine width second
  refine reads_blocks hcloser hnesting (atContent_word first _)
    (reads_word hcloserInner first hend) hend fun block hmem => ?_
  rw [continuation?_finalLine, if_neg (hwidths block hmem).symm]

/-- A block of the width of the line goes on with it, and the blocks around
end with the input. -/
theorem reads_joined (hcloser : context.closer = none)
    (hnesting : context.nesting + 2 * (outer ++ block :: inner).length ≤ limit)
    (hwidth : block.width = width) (hwidths : ∀ block ∈ inner, block.width ≠ width)
    (first second : Word) :
    Reads limit (.upTo (context.stopsLine [])) context
      ((outer ++ block :: inner).flatMap opening ++ first.token :: finalLine width second)
      (nest context.functionForm (outer ++ [block])
        (nest .function inner [first.node] ++ [second.node])) [.endOfInput] := by
  rw [List.length_append, List.length_cons] at hnesting
  have hlast : AtLineEnd [Token.endOfInput] := ⟨_, _, rfl, rfl⟩
  have hcloserOuter := (closer_enter context outer).trans hcloser
  have hcloserBlock := (closer_enter (enter context outer) [block]).trans hcloserOuter
  have hnestingBlock :
      (enter (enter context outer) [block]).nesting + 2 * inner.length ≤ limit := by
    rw [nesting_enter, nesting_enter, List.length_singleton]
    omega
  have hlines : Reads limit (.lines block.width) (enter (enter context outer) [block])
      (inner.flatMap opening ++ first.token :: finalLine width second)
      (nest .function inner [first.node] ++ [second.node]) [.endOfInput] := by
    refine .moreLines (reads_apart hcloserBlock hnestingBlock hwidths first second) ?_
      (.lastLine (reads_word hcloserBlock second hlast) rfl)
    rw [continuation?_finalLine, if_pos hwidth.symm]
  have hnestingOuter : (enter context outer).nesting + 2 ≤ limit := by
    rw [nesting_enter]
    omega
  have hblock := reads_opening hcloserOuter hnestingOuter
    (atContent_openings (atContent_word first _)) hlines hlast
  rw [nest_append, List.flatMap_append, List.flatMap_cons, List.append_assoc, List.append_assoc]
  exact reads_blocks hcloser (by omega) ⟨_, _, rfl, rfl⟩ hblock hlast fun _ _ => rfl

end Joining

/-- Either no block has the width of the line, or one of those that have it
is the innermost. -/
theorem exists_innermost (blocks : List FunctionBlock) (width : Nat) :
    (∀ block ∈ blocks, block.width ≠ width) ∨
      ∃ outer block inner, blocks = outer ++ block :: inner ∧ block.width = width ∧
        ∀ other ∈ inner, other.width ≠ width := by
  induction blocks with
  | nil => exact .inl (by simp)
  | cons block blocks ih =>
    rcases ih with hnone | ⟨outer, other, inner, rfl, hwidth, hwidths⟩
    · by_cases hwidth : block.width = width
      · exact .inr ⟨[], block, blocks, rfl, hwidth, hnone⟩
      · exact .inl (List.forall_mem_cons.mpr ⟨hwidth, hnone⟩)
    · exact .inr ⟨block :: outer, other, inner, rfl, hwidth, hwidths⟩

/-! ## Programs -/

section Programs

variable {blocks outer inner : List FunctionBlock} {block : FunctionBlock} {width : Nat}

/-- Sixty-four blocks are as many as the nesting limit allows. -/
theorem nesting_fresh (hlength : blocks.length ≤ 64) :
    Context.fresh.nesting + 2 * blocks.length ≤ maxNesting := by
  show 0 + 2 * blocks.length ≤ 128
  omega

theorem parse_apart (hlength : blocks.length ≤ 64)
    (hwidths : ∀ block ∈ blocks, block.width ≠ width) (first second : Word) :
    parse (blocks.flatMap opening ++ first.token :: finalLine width second) =
      .ok ⟨nest .topLevelFunction blocks [first.node] ++ [second.node]⟩ := by
  rw [parse_eq_ok_iff]
  refine (reads_apart rfl (nesting_fresh hlength) hwidths first second).programOfLine ?_
  refine Reads.program_layout (Margin.canonical width).layout ?_
  exact (reads_word rfl second ⟨_, _, rfl, rfl⟩).programOfLine (reads_endOfInput rfl)

theorem parse_joined (hlength : (outer ++ block :: inner).length ≤ 64)
    (hwidth : block.width = width) (hwidths : ∀ other ∈ inner, other.width ≠ width)
    (first second : Word) :
    parse ((outer ++ block :: inner).flatMap opening ++ first.token :: finalLine width second) =
      .ok ⟨nest .topLevelFunction (outer ++ [block])
        (nest .function inner [first.node] ++ [second.node])⟩ := by
  rw [parse_eq_ok_iff]
  have hline := reads_joined rfl (nesting_fresh hlength) hwidth hwidths first second
  have hprogram := hline.programOfLine (reads_endOfInput rfl)
  rwa [List.append_nil] at hprogram

end Programs

end FunctionBlock

open FunctionBlock

/-- Blocks are opened one inside of the other around a first line, and a
line of any width follows.  The tokens parse, the blocks nest in order, and
the line is the last one of the innermost block of its width, or of the
program if there is none. -/
theorem parse_joins_innermost (blocks : List FunctionBlock) (hlength : blocks.length ≤ 64)
    (first second : Word) (width : Nat) :
    ∃ program,
      parse (blocks.flatMap opening ++ first.token :: finalLine width second) = .ok program ∧
      (∀ outer block inner, blocks = outer ++ block :: inner → block.width = width →
        (∀ other ∈ inner, other.width ≠ width) →
        program.body = nest .topLevelFunction (outer ++ [block])
          (nest .function inner [first.node] ++ [second.node])) ∧
      ((∀ block ∈ blocks, block.width ≠ width) →
        program.body = nest .topLevelFunction blocks [first.node] ++ [second.node]) := by
  rcases exists_innermost blocks width with hnone | ⟨outer, block, inner, rfl, hwidth, hwidths⟩
  · refine ⟨_, parse_apart hlength hnone first second, ?_, fun _ => rfl⟩
    intro outer block inner hsplit hwidth
    exact absurd hwidth (hnone block (by simp [hsplit]))
  · have hparse := parse_joined hlength hwidth hwidths first second
    refine ⟨_, hparse, ?_, ?_⟩
    · intro outer' block' inner' hsplit hwidth' hwidths'
      rw [hsplit] at hparse hlength
      have hother := parse_joined hlength hwidth' hwidths' first second
      exact congrArg Program.body (Except.ok.inj (hparse.symm.trans hother))
    · intro hnone
      exact absurd hwidth (hnone block (by simp))

/-- Widths that shrink and come again: of the two blocks of width two, the
line joins the inner one, and the block inside of that one has ended. -/
theorem parse_joins_innermost_of_repeated :
    let blocks : List FunctionBlock := [⟨"f", 2⟩, ⟨"g", 0⟩, ⟨"h", 2⟩, ⟨"k", 1⟩]
    let x : Word := ⟨.ident, "x", by decide⟩
    let y : Word := ⟨.ident, "y", by decide⟩
    blocks.length ≤ 64 ∧
      parse (blocks.flatMap opening ++ x.token :: finalLine 2 y) =
        .ok ⟨[.assignment "f" [.group .topLevelFunction
          [.assignment "g" [.group .function
            [.assignment "h" [.group .function
              [.assignment "k" [.group .function [.leaf .ident "x"]], .leaf .ident "y"]]]]]]]⟩ := by
  intro blocks x y
  have hlength : blocks.length ≤ 64 := by decide
  obtain ⟨program, hparse, hjoined, -⟩ := parse_joins_innermost blocks hlength x y 2
  have hbody := hjoined [⟨"f", 2⟩, ⟨"g", 0⟩] ⟨"h", 2⟩ [⟨"k", 1⟩] rfl rfl (by decide)
  refine ⟨hlength, hparse.trans ?_⟩
  exact congrArg (fun body => Except.ok (Program.mk body)) hbody

end Flick
