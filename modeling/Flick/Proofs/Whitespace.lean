import Flick.Proofs.Thinning
import Mathlib.Data.List.TakeWhile

/-!
# Inline tabs and blank lines

A tab counts at the beginning of a line and nowhere else, and a line of
nothing but tabs does not count at all.  So a tab may be put between any two
tokens that stand on one line (`parse_insert_tab`), and a blank line behind
any line end (`parse_insert_blankLine`), without a change to the answer.

Both are facts about `Thins`: the list with the whitespace thins to the one
without it.  What has to be seen is that no token in front notices the
whitespace.  `LookAlike` says of two lists that every lookahead finds the
same in them, and a token in front of both does not change that.
-/

namespace Flick

open Layout

/-! ## Lists that look alike -/

theorem startsWith_eq_of_head? {first second : List Token} (h : first.head? = second.head?)
    (kind : TokenKind) : startsWith kind first = startsWith kind second := by
  cases first <;> cases second <;> simp_all [startsWith]

theorem atEnd_eq_of_head? {first second : List Token} (h : first.head? = second.head?) :
    atEnd first = atEnd second := by
  cases first <;> cases second <;> simp_all [atEnd]

/-- A lookahead finds the same in both lists: past tabs the same token, and
past blank lines a line of the same width that begins with the same token. -/
structure LookAlike (first second : List Token) : Prop where
  afterTabs : (afterTabs first).head? = (afterTabs second).head?
  width : ∀ width, (nextLine width first).1 = (nextLine width second).1
  nextLine : ∀ width, (nextLine width first).2.head? = (nextLine width second).2.head?

namespace LookAlike

variable {token : Token} {first second : List Token}

/-- What a token looks for is the same in lists that look alike. -/
theorem sameAhead (h : LookAlike first second) (token : Token) :
    sameAhead token first second = true := by
  have hstarts := startsWith_eq_of_head? h.afterTabs
  have hend := atEnd_eq_of_head? h.afterTabs
  unfold Flick.sameAhead
  split
  · rw [Parser.assigns, Parser.assigns, hstarts, beq_self_eq_true]
  · rw [hstarts, beq_self_eq_true]
  · rw [hstarts, hend, beq_self_eq_true, beq_self_eq_true]
    rfl
  · rw [h.width, atEnd_eq_of_head? (h.nextLine 0), beq_self_eq_true, beq_self_eq_true]
    rfl
  · rfl

/-- No lookahead goes past a token that is not layout. -/
theorem ofToken (htab : token.kind ≠ .tab) (hnewline : token.kind ≠ .newline) :
    LookAlike (token :: first) (token :: second) where
  afterTabs := by simp [Layout.afterTabs, htab]
  width width := by simp [Layout.nextLine, htab, hnewline]
  nextLine width := by simp [Layout.nextLine, htab, hnewline]

/-- Lists that look alike do so behind a token as well. -/
theorem cons (h : LookAlike first second) (token : Token) :
    LookAlike (token :: first) (token :: second) := by
  by_cases htab : token.kind = .tab
  · refine ⟨?_, fun width => ?_, fun width => ?_⟩
    · simpa [Layout.afterTabs, htab] using h.afterTabs
    · simpa [Layout.nextLine, htab] using h.width (width + 1)
    · simpa [Layout.nextLine, htab] using h.nextLine (width + 1)
  · by_cases hnewline : token.kind = .newline
    · refine ⟨by simp [Layout.afterTabs, htab], fun width => ?_, fun width => ?_⟩
      · rw [nextLine_newline hnewline, nextLine_newline hnewline]
        exact h.width 0
      · rw [nextLine_newline hnewline, nextLine_newline hnewline]
        exact h.nextLine 0
    · exact .ofToken htab hnewline

end LookAlike

namespace Thins

variable {first second : List Token}

/-- A token stays if nothing has changed for it. -/
theorem cons {token : Token} (hahead : sameAhead token first second = true)
    (h : Thins first second) : Thins (token :: first) (token :: second) := by
  by_cases hnewline : token.kind = .newline
  · exact .newline hnewline hnewline hahead h
  · exact .token hnewline hahead h

theorem refl (tokens : List Token) : Thins tokens tokens := by
  induction tokens with
  | nil => exact .nil
  | cons token rest ih =>
    have hlook : LookAlike rest rest := ⟨rfl, fun _ => rfl, fun _ => rfl⟩
    exact ih.cons (hlook.sameAhead token)

/-- Tokens in front stay, if the lists look alike to them. -/
theorem append_left (hlook : LookAlike first second) (h : Thins first second)
    (front : List Token) : Thins (front ++ first) (front ++ second) := by
  have hboth : LookAlike (front ++ first) (front ++ second) ∧
      Thins (front ++ first) (front ++ second) := by
    induction front with
    | nil => exact ⟨hlook, h⟩
    | cons token front ih => exact ⟨ih.1.cons token, ih.2.cons (ih.1.sameAhead token)⟩
  exact hboth.2

end Thins

/-! ## Inline tabs -/

/-- Whether the tokens end in the margin of a line: on the way back over
tabs a line end is met. -/
def endsInMargin (tokens : List Token) : Bool :=
  startsWith .newline (afterTabs tokens.reverse)

/-- Tokens that do not end in a margin are tabs at the beginning of the
list, or have a token in them that is not layout, with tabs behind it. -/
theorem exists_of_not_endsInMargin {tokens : List Token} (h : endsInMargin tokens = false) :
    AllTabs tokens ∨ ∃ before token tabs, tokens = before ++ token :: tabs ∧
      token.kind ≠ .tab ∧ token.kind ≠ .newline ∧ AllTabs tabs := by
  let tabs := (tokens.reverse.takeWhile (·.kind == .tab)).reverse
  have htabs : AllTabs tabs := by
    intro token hmem
    simpa using List.mem_takeWhile_imp (List.mem_reverse.mp hmem)
  have hsplit : tokens = (afterTabs tokens.reverse).reverse ++ tabs := by
    rw [← List.reverse_append, afterTabs, List.takeWhile_append_dropWhile, List.reverse_reverse]
  rw [endsInMargin] at h
  cases hrest : afterTabs tokens.reverse with
  | nil =>
    rw [hrest] at hsplit
    exact .inl (hsplit ▸ htabs)
  | cons token before =>
    rw [hrest] at h hsplit
    refine .inr ⟨before.reverse, token, tabs, by simpa using hsplit, ?_, ?_, htabs⟩
    · have hhead := List.head?_dropWhile_not (·.kind == .tab) tokens.reverse
      rw [← afterTabs, hrest] at hhead
      simpa using hhead
    · simpa [startsWith] using h

theorem thins_insert_tab {tabs behind : List Token} {tab : Token} (htab : tab.kind = .tab)
    (htabs : AllTabs tabs) : Thins (tabs ++ tab :: behind) (tabs ++ behind) := by
  induction tabs with
  | nil => exact .skip (by rw [htab]; rfl) (.refl behind)
  | cons first tabs ih =>
    obtain ⟨hfirst, htabs⟩ := List.forall_mem_cons.mp htabs
    exact .cons (by simp [sameAhead, hfirst]) (ih htabs)

/-- A token that ends no line looks along its own line only, and past tabs. -/
theorem sameAhead_insert_tab {token tab : Token} {tabs behind : List Token}
    (hnewline : token.kind ≠ .newline) (htab : tab.kind = .tab) (htabs : AllTabs tabs) :
    sameAhead token (tabs ++ tab :: behind) (tabs ++ behind) = true := by
  have hafter : afterTabs (tabs ++ tab :: behind) = afterTabs (tabs ++ behind) := by
    rw [afterTabs_gap htabs, afterTabs_gap htabs]
    simp [afterTabs, htab]
  unfold sameAhead Parser.assigns
  rw [hafter]
  split <;> simp_all

/-- A tab that is put anywhere but in the margin of a line changes nothing,
neither the program nor the error. -/
theorem parse_insert_tab {front behind : List Token} {tab : Token} (htab : tab.kind = .tab)
    (hinline : endsInMargin front = false) :
    parse (front ++ [tab] ++ behind) = parse (front ++ behind) := by
  rw [List.append_assoc, List.singleton_append]
  rcases exists_of_not_endsInMargin hinline with
    htabs | ⟨before, token, tabs, rfl, hkind, hnewline, htabs⟩
  · exact parse_thin (thins_insert_tab htab htabs)
  · rw [List.append_assoc, List.append_assoc, List.cons_append, List.cons_append]
    have hthins : Thins (token :: (tabs ++ tab :: behind)) (token :: (tabs ++ behind)) :=
      .cons (sameAhead_insert_tab hnewline htab htabs) (thins_insert_tab htab htabs)
    exact parse_thin (.append_left (.ofToken hkind hnewline) hthins before)

/-- A tab between an arrow and the end of its line, where a block begins,
and one behind an `else` at the end of all tokens, which is an error. -/
theorem parse_insert_tab_of_arrow_and_else :
    let tab : Token := ⟨.tab, " "⟩
    let front : List Token := [⟨.ident, "f"⟩, ⟨.assign, "="⟩, ⟨.arrow, "->"⟩]
    let behind : List Token := [⟨.newline, "\n"⟩, tab, ⟨.ident, "x"⟩, ⟨.endOfInput, ""⟩]
    let unfinished : List Token := [⟨.newline, "\n"⟩, tab, ⟨.elseWord, "else"⟩]
    (endsInMargin front = false ∧
      parse (front ++ behind) =
        .ok ⟨[.assignment "f" [.group .topLevelFunction [.leaf .ident "x"]]]⟩ ∧
      parse (front ++ [tab] ++ behind) = parse (front ++ behind)) ∧
    endsInMargin unfinished = false ∧
      parse (unfinished ++ []) = .error (.unexpectedEnd .elseBody) ∧
      parse (unfinished ++ [tab] ++ []) = parse (unfinished ++ []) := by
  intro tab front behind unfinished
  have hfront : endsInMargin front = false := by decide
  have hunfinished : endsInMargin unfinished = false := by decide
  exact ⟨⟨hfront, rfl, parse_insert_tab rfl hfront⟩, hunfinished, rfl,
    parse_insert_tab rfl hunfinished⟩

/-- In the margin of a line a tab does count: here it ends a block. -/
example :
    let tab : Token := ⟨.tab, "\t"⟩
    let front : List Token := [⟨.arrow, "->"⟩, ⟨.newline, "\n"⟩, ⟨.ident, "x"⟩, ⟨.newline, "\n"⟩]
    let behind : List Token := [⟨.ident, "y"⟩, ⟨.endOfInput, ""⟩]
    endsInMargin front = true ∧
      parse (front ++ behind) =
        .ok ⟨[.group .topLevelFunction [.leaf .ident "x", .leaf .ident "y"]]⟩ ∧
      parse (front ++ [tab] ++ behind) =
        .ok ⟨[.group .topLevelFunction [.leaf .ident "x"], .leaf .ident "y"]⟩ :=
  ⟨rfl, rfl, rfl⟩

/-! ## Blank lines -/

/-- A blank line behind a line end is not seen from in front of it. -/
theorem lookAlike_blankLine {lineEnd other : Token} {tabs behind : List Token}
    (hlineEnd : lineEnd.kind = .newline) (hother : other.kind = .newline)
    (htabs : AllTabs tabs) :
    LookAlike (lineEnd :: (tabs ++ other :: behind)) (lineEnd :: behind) := by
  have hline (width : Nat) : nextLine width (lineEnd :: (tabs ++ other :: behind)) =
      nextLine width (lineEnd :: behind) := by
    rw [nextLine_newline hlineEnd, nextLine_newline hlineEnd, nextLine_blankLine hother htabs]
  refine ⟨?_, fun width => ?_, fun width => ?_⟩
  · simp [afterTabs, hlineEnd]
  · rw [hline]
  · rw [hline]

/-- A blank line that is put behind a line end changes nothing, neither the
program nor the error. -/
theorem parse_insert_blankLine {front tabs behind : List Token} {lineEnd other : Token}
    (hlineEnd : lineEnd.kind = .newline) (hother : other.kind = .newline)
    (htabs : ∀ token ∈ tabs, token.kind = .tab) :
    parse (front ++ [lineEnd] ++ tabs ++ [other] ++ behind) =
      parse (front ++ [lineEnd] ++ behind) := by
  have hthins : Thins (lineEnd :: (tabs ++ other :: behind)) (lineEnd :: behind) := by
    refine .blankLine hlineEnd htabs hother (.newline hother hlineEnd ?_ (.refl behind))
    simp [sameAhead, hother]
  have hfront := hthins.append_left (lookAlike_blankLine hlineEnd hother htabs) front
  simpa using parse_thin hfront

/-- Blank lines between a header and its block, with the width of the block
and without tabs, inside of a group that is closed on the line of the
block. -/
theorem parse_insert_blankLine_of_group :
    let tab : Token := ⟨.tab, "\t"⟩
    let lineEnd : Token := ⟨.newline, "\n"⟩
    let front : List Token := [⟨.opening .round, "("⟩, ⟨.arrow, "->"⟩]
    let behind : List Token :=
      [tab, ⟨.ident, "x"⟩, lineEnd, tab, ⟨.ident, "y"⟩, ⟨.closing .round, ")"⟩, ⟨.endOfInput, ""⟩]
    parse (front ++ [lineEnd] ++ behind) = .ok ⟨[.group (.bracketed .round)
        [.group .topLevelFunction [.leaf .ident "x", .leaf .ident "y"]]]⟩ ∧
      parse (front ++ [lineEnd] ++ [tab] ++ [lineEnd] ++ behind) =
        parse (front ++ [lineEnd] ++ behind) ∧
      parse (front ++ [lineEnd] ++ [] ++ [lineEnd] ++ behind) =
        parse (front ++ [lineEnd] ++ behind) := by
  intro tab lineEnd front behind
  exact ⟨rfl, parse_insert_blankLine rfl rfl (by decide), parse_insert_blankLine rfl rfl (by simp)⟩

end Flick
