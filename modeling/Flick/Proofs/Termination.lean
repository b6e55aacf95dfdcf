import Flick.Proofs.Calls.Adequacy
import Mathlib.Data.List.Chain

/-!
# Termination

The parser ends on every token list, whatever tokens end the input and
wherever they stand.  Two things bound a run.

* The tokens.  An item that is read takes at least one, and a further line
  of a block lies behind a line end, so every turn of a loop but the last
  one leaves fewer tokens than it found.  Nothing moves the parser back.
* The nesting limit.  Only an item opens a construct, and every item that
  is open inside of another one is inside of a construct of that one.  So
  along the open calls the items and the constructs alternate, and there
  is at most one item more than the limit.

The bounds that the parser runs with are these two, and they are never
used up.
-/

namespace Flick

open Layout

/-! ## Open calls -/

/-- Of the moments that lead from one to the next, as many are items as
the limit leaves room for, and one more. -/
theorem countP_isItem_le {limit : Nat} {moment : Moment} {path : List Moment}
    (hpath : List.IsChain (Calls limit) (moment :: path))
    (hnesting : moment.context.nesting ≤ limit) :
    (moment :: path).countP (·.task.isItem) + moment.context.nesting ≤ limit + 1 := by
  induction path generalizing moment with
  | nil =>
    rw [List.countP_singleton]
    split <;> omega
  | cons next path ih =>
    obtain ⟨hcall, hrest⟩ := List.isChain_cons_cons.mp hpath
    rw [List.countP_cons]
    cases htask : moment.task.isItem with
    | true =>
      obtain ⟨hopens, hle⟩ := hcall.nesting_of_isItem htask
      have hmore := ih hrest hle
      simp only [if_true]
      omega
    | false =>
      have hkeeps := hcall.nesting_of_not_isItem htask
      have hmore := ih hrest (hkeeps ▸ hnesting)
      simp only [Bool.false_eq_true, if_false]
      omega

/-! ## Progress -/

/-- Each further line of a block begins behind the start of the line before
it. -/
theorem Calls.length_lt_of_lines {limit width : Nat} {construct : Construct} {context : Context}
    {tokens next : List Token}
    (h : Calls limit ⟨.lines construct width, context, tokens⟩
      ⟨.lines construct width, context, next⟩) : next.length < tokens.length := by
  cases h with
  | furtherLine hline hnext =>
    obtain ⟨hsuffix, hne⟩ := continuation?_suffix hnext
    have hle := hsuffix.length_le
    have hline := hline.length_le
    have hpos := List.length_pos_iff.mpr hne
    rw [List.length_tail] at hle
    omega

/-- An item moves the parser on, and one that fails does not move it
back. -/
theorem Parser.item_progress {limit bound depth : Nat} {parser : Parser}
    (hdepth : limit - parser.nesting < depth) (hbound : parser.rest.length < bound) :
    match item limit bound depth parser with
    | .ok _ after => after.rest <:+ parser.rest ∧ after.rest.length < parser.rest.length
    | .error failure after => after.rest <:+ parser.rest ∧ failure ≠ .exhausted := by
  have houtcome := item_outcome hdepth hbound
  generalize item limit bound depth parser = run at houtcome ⊢
  cases run with
  | ok node after =>
    obtain ⟨rest, rfl, hreads⟩ := houtcome
    exact ⟨hreads.suffix, hreads.length_lt⟩
  | error failure after =>
    obtain ⟨fault, rfl, rfl, hfails⟩ := houtcome
    exact ⟨hfails.suffix, by simp⟩

/-! ## The parser -/

/-- Every token list is parsed in bounded recursion and with bounded loops.
An item takes a token or fails, and in no case does the parser go back;
a further line of a block is behind the line before it; no moment of a run
leaves the tokens, and at most one item more is open at it than the nesting
limit.  So the parser never uses up bounds of that many open items and of
one turn more than there are tokens. -/
theorem parser_terminates (tokens : List Token) :
    (∀ (parser : Parser) (bound depth : Nat),
      parser.rest.length < bound → maxNesting - parser.nesting < depth →
      match Parser.item maxNesting bound depth parser with
      | .ok _ after => after.rest <:+ parser.rest ∧ after.rest.length < parser.rest.length
      | .error failure after => after.rest <:+ parser.rest ∧ failure ≠ .exhausted) ∧
    (∀ (construct : Construct) (width : Nat) (context : Context) (line next : List Token),
      Calls maxNesting ⟨.lines construct width, context, line⟩
        ⟨.lines construct width, context, next⟩ →
      next <:+ line ∧ next.length < line.length) ∧
    (∀ moment, Reaches maxNesting (.ofTokens tokens) moment → moment.tokens <:+ tokens) ∧
    (∀ path, List.IsChain (Calls maxNesting) (.ofTokens tokens :: path) →
      path.countP (·.task.isItem) ≤ maxNesting + 1) ∧
    (∀ after,
      Parser.statements (Parser.item maxNesting (tokens.length + 1) (maxNesting + 1))
        (tokens.length + 1) (.ofTokens tokens) ≠ .error .exhausted after) := by
  refine ⟨?_, ?_, ?_, ?_, ?_⟩
  · intro parser bound depth hbound hdepth
    exact Parser.item_progress hdepth hbound
  · intro construct width context line next hcall
    exact ⟨hcall.suffix, hcall.length_lt_of_lines⟩
  · intro moment hreaches
    exact hreaches.suffix
  · intro path hpath
    have hcount := countP_isItem_le hpath (Nat.zero_le maxNesting)
    exact Nat.le_of_add_right_le hcount
  · intro after
    exact Parser.statements_ne_exhausted maxNesting tokens after

/-- An open group in front of the end of the input and of a second line,
and the two lines of a block. -/
theorem parser_terminates_of_open_group :
    let lineEnd : Token := ⟨.newline, "\n"⟩
    let last : Token := ⟨.endOfInput, ""⟩
    let x : Token := ⟨.ident, "x"⟩
    let tokens : List Token := [⟨.opening .round, "("⟩, last, lineEnd, x]
    let group : Moment := ⟨.item, .fresh, tokens⟩
    let inside : Moment := ⟨.inside, Context.fresh.nest, tokens⟩
    let body : Moment := ⟨.lines .elseBody 0, .fresh, [x, lineEnd, x, last]⟩
    let secondLine : Moment := ⟨.lines .elseBody 0, .fresh, [x, last]⟩
    Calls maxNesting body secondLine ∧
      List.IsChain (Calls maxNesting) [.ofTokens tokens, group, inside] ∧
      (match Parser.item maxNesting 5 129 (.ofTokens tokens) with
        | .ok _ after => after.rest <:+ tokens ∧ after.rest.length < 4
        | .error failure after => after.rest <:+ tokens ∧ failure ≠ .exhausted) ∧
      secondLine.tokens.length < body.tokens.length ∧
      inside.tokens <:+ tokens ∧
      [group, inside].countP (·.task.isItem) ≤ 129 := by
  intro lineEnd last x tokens group inside body secondLine
  have hline : Reads maxNesting (.upTo (Context.fresh.stopsLine [])) .fresh
      [x, lineEnd, x, last] ([.leaf .ident "x"] ++ []) [lineEnd, x, last] :=
    .step rfl (by decide) (.leaf .ident rfl fun _ => by decide) (.stop rfl)
  have hcall : Calls maxNesting body secondLine := .furtherLine hline rfl
  have hgroup : Calls maxNesting (.ofTokens tokens) group := .statement
  have hinside : Calls maxNesting group inside := .enter rfl (by decide)
  have hpath : List.IsChain (Calls maxNesting) [.ofTokens tokens, group, inside] :=
    .cons_cons hgroup (.cons_cons hinside (.singleton _))
  obtain ⟨hitem, hlines, hmoments, hopen, -⟩ := parser_terminates tokens
  refine ⟨hcall, hpath, ?_, (hlines _ _ _ _ _ hcall).2, ?_, hopen _ hpath⟩
  · exact hitem (.ofTokens tokens) 5 129 (by decide) (by decide)
  · exact hmoments inside (.head hgroup (.head hinside .refl))

end Flick
