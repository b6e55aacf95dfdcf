import Flick.Proofs.Indentation
import Flick.Proofs.Locality

/-!
# What the parser overlooks

Some tokens can be left out of a token list without a change to what the
parser makes of it.  `Thins tokens thinned` says that the second list is the
first one without some tabs and comments and without some blank lines, and
that no lookahead notices.

The condition is on single lookaheads.  A token looks ahead in one of four
ways: a name for the sign of an assignment, an arrow for the end of its
line, an `else` for the end of its line or of the input, and a line end for
the next line.  `sameAhead` compares what a token finds in front of two
lists, and `Thins` asks that each token which stays finds the same as
before.

Nothing else in the parser depends on the tokens that are left out.
`Reads.thin` says so for readings and `Fails.thin` for failures, in both
cases by following a run in the first list with one in the second.  Where
the first run takes a tab, a comment or a blank line, the second one may
stand still.  So the answers are equal (`parse_thin`).
-/

namespace Flick

open Layout

theorem TokenKind.isTrivia_or_newline_or_isSolid (kind : TokenKind) :
    kind.isTrivia = true ∨ kind = .newline ∨ kind.isSolid = true := by
  cases kind <;> simp [isTrivia, isSolid]

theorem afterNewlines_cons {token : Token} (hkind : token.kind = .newline) (rest : List Token) :
    afterNewlines (token :: rest) = afterNewlines rest :=
  List.dropWhile_cons_of_pos (by simp [hkind])

/-- If a line end is passed together with those that follow it, then line
ends make no difference. -/
theorem newlines_append_iff (holds : List Token → Prop)
    (hpass : ∀ token rest, token.kind = .newline →
      (holds (token :: rest) ↔ holds (afterNewlines rest)))
    {run : List Token} (hrun : ∀ token ∈ run, token.kind = .newline) (tokens : List Token) :
    holds (run ++ tokens) ↔ holds tokens := by
  have hfront (tokens : List Token) : holds (afterNewlines tokens) ↔ holds tokens := by
    cases tokens with
    | nil => exact Iff.rfl
    | cons token rest =>
      by_cases hkind : token.kind = .newline
      · rw [afterNewlines_cons hkind, hpass token rest hkind]
      · rw [afterNewlines, List.dropWhile_cons_of_neg (by simpa using hkind)]
  induction run with
  | nil => exact Iff.rfl
  | cons token run ih =>
    obtain ⟨htoken, hrun⟩ := List.forall_mem_cons.mp hrun
    rw [List.cons_append, hpass _ _ htoken, hfront]
    exact ih hrun

theorem endsLine_eq (token : Token) (rest : List Token) :
    token.kind.endsLine = (startsWith .newline (token :: rest) || atEnd (token :: rest)) := by
  cases hkind : token.kind <;> simp [startsWith, atEnd, hkind, TokenKind.endsLine]

/-! ## Lookaheads -/

/-- Whether the token finds the same in front of both lists, so far as it
looks ahead. -/
def sameAhead (token : Token) (first second : List Token) : Bool :=
  match token.kind with
  | .ident => Parser.assigns first == Parser.assigns second
  | .arrow => startsWith .newline (afterTabs first) == startsWith .newline (afterTabs second)
  | .elseWord =>
    startsWith .newline (afterTabs first) == startsWith .newline (afterTabs second) &&
      atEnd (afterTabs first) == atEnd (afterTabs second)
  | .newline =>
    (nextLine 0 first).1 == (nextLine 0 second).1 &&
      atEnd (nextLine 0 first).2 == atEnd (nextLine 0 second).2
  | _ => true

section SameAhead

variable {token : Token} {first second : List Token}

theorem assigns_of_sameAhead (hkind : token.kind = .ident)
    (h : sameAhead token first second = true) :
    Parser.assigns second = Parser.assigns first := by
  simp only [sameAhead, hkind, beq_iff_eq] at h
  exact h.symm

theorem startsWith_of_sameAhead (hkind : token.kind = .arrow ∨ token.kind = .elseWord)
    (h : sameAhead token first second = true) :
    startsWith .newline (afterTabs second) = startsWith .newline (afterTabs first) := by
  rcases hkind with hkind | hkind
  · simp only [sameAhead, hkind, beq_iff_eq] at h
    exact h.symm
  · simp only [sameAhead, hkind, Bool.and_eq_true, beq_iff_eq] at h
    exact h.1.symm

theorem atEnd_of_sameAhead (hkind : token.kind = .elseWord)
    (h : sameAhead token first second = true) :
    atEnd (afterTabs second) = atEnd (afterTabs first) := by
  simp only [sameAhead, hkind, Bool.and_eq_true, beq_iff_eq] at h
  exact h.2.symm

theorem nextLine_of_sameAhead (hkind : token.kind = .newline)
    (h : sameAhead token first second = true) :
    (nextLine 0 second).1 = (nextLine 0 first).1 ∧
      atEnd (nextLine 0 second).2 = atEnd (nextLine 0 first).2 := by
  simp only [sameAhead, hkind, Bool.and_eq_true, beq_iff_eq] at h
  exact ⟨h.1.symm, h.2.symm⟩

theorem opened?_of_sameAhead (h : sameAhead token first second = true) :
    opened? token second = opened? token first := by
  unfold opened?
  split <;> try rfl
  next hkind => rw [assigns_of_sameAhead hkind h]

theorem exists_of_sameAhead {next : Token} {more : List Token} (hkind : token.kind = .elseWord)
    (h : sameAhead token first second = true) (hnext : afterTabs first = next :: more)
    (hend : next.kind.endsLine = false) :
    ∃ other rest, afterTabs second = other :: rest ∧ other.kind.endsLine = false := by
  have hnewline := startsWith_of_sameAhead (.inr hkind) h
  have hlast := atEnd_of_sameAhead hkind h
  rw [endsLine_eq next more, ← hnext, ← hnewline, ← hlast] at hend
  cases hsecond : afterTabs second with
  | nil => simp [hsecond, atEnd] at hend
  | cons other rest =>
    rw [hsecond] at hend
    exact ⟨other, rest, rfl, (endsLine_eq other rest).trans hend⟩

end SameAhead

/-- The second list is the first one without some of its tabs, comments and
blank lines, and each token that is left finds the same ahead. -/
inductive Thins : List Token → List Token → Prop where
  | nil : Thins [] []
  | skip {token : Token} {first second : List Token} (htoken : token.kind.isTrivia = true)
      (h : Thins first second) : Thins (token :: first) second
  | token {token : Token} {first second : List Token} (hkind : token.kind ≠ .newline)
      (hahead : sameAhead token first second = true) (h : Thins first second) :
      Thins (token :: first) (token :: second)
  | newline {token other : Token} {first second : List Token} (htoken : token.kind = .newline)
      (hother : other.kind = .newline) (hahead : sameAhead token first second = true)
      (h : Thins first second) : Thins (token :: first) (other :: second)
  | blankLine {token other : Token} {tabs first second : List Token}
      (htoken : token.kind = .newline) (htabs : AllTabs tabs)
      (hother : other.kind = .newline) (h : Thins (other :: first) second) :
      Thins (token :: (tabs ++ other :: first)) second

/-- A blank line is not measured. -/
theorem nextLine_blankLine {token : Token} {tabs rest : List Token}
    (htoken : token.kind = .newline) (htabs : AllTabs tabs) (width : Nat) :
    nextLine width (tabs ++ token :: rest) = nextLine 0 rest := by
  rw [nextLine_gap htabs, nextLine_newline htoken]

/-- A blank line is passed at its line end. -/
theorem nextLine_of_newline {tokens : List Token}
    (h : startsWith .newline (afterTabs tokens) = true) (width : Nat) :
    nextLine width tokens = nextLine 0 (afterTabs tokens) := by
  induction tokens generalizing width with
  | nil => simp [afterTabs, startsWith] at h
  | cons token rest ih =>
    by_cases htab : token.kind = .tab
    · have hrest : afterTabs (token :: rest) = afterTabs rest := by simp [afterTabs, htab]
      rw [hrest] at h ⊢
      rw [nextLine, if_pos htab, ih h]
    · have hstay : afterTabs (token :: rest) = token :: rest := by simp [afterTabs, htab]
      rw [hstay] at h ⊢
      have hnewline : token.kind = .newline := by simpa [startsWith] using h
      rw [nextLine_newline hnewline, nextLine_newline hnewline]

/-- Another one begins behind its tabs. -/
theorem nextLine_of_not_newline {tokens : List Token}
    (h : startsWith .newline (afterTabs tokens) = false) (width : Nat) :
    (nextLine width tokens).2 = afterTabs tokens := by
  induction tokens generalizing width with
  | nil => rfl
  | cons token rest ih =>
    by_cases htab : token.kind = .tab
    · have hrest : afterTabs (token :: rest) = afterTabs rest := by simp [afterTabs, htab]
      rw [hrest] at h ⊢
      rw [nextLine, if_pos htab, ih h]
    · have hstay : afterTabs (token :: rest) = token :: rest := by simp [afterTabs, htab]
      rw [hstay] at h ⊢
      have hnewline : token.kind ≠ .newline := by simpa [startsWith] using h
      rw [nextLine, if_neg htab, if_neg hnewline]

/-- The lines of a block that begin with the first list are those that
begin with the second one, which may come after a blank line. -/
def Resumes (width : Nat) (line target : List Token) : Prop :=
  line = target ∨ startsWith .newline line = true ∧ continuation? width line = some target

namespace Thins

variable {token : Token} {first second : List Token}

/-! ### The first token -/

theorem eq_nil (h : Thins [] second) : second = [] := by
  cases h
  rfl

/-- A solid token stays. -/
theorem solid (hsolid : token.kind.isSolid = true) (h : Thins (token :: first) second) :
    ∃ rest, second = token :: rest ∧ sameAhead token first rest = true ∧ Thins first rest := by
  cases h with
  | skip htoken => simp [TokenKind.isTrivia_of_isSolid hsolid] at htoken
  | token _ hahead h => exact ⟨_, rfl, hahead, h⟩
  | newline htoken | blankLine htoken =>
    exact absurd htoken (TokenKind.ne_newline_of_isSolid hsolid)

/-- A tab or a comment stays or is left out. -/
theorem trivia (htoken : token.kind.isTrivia = true) (h : Thins (token :: first) second) :
    Thins first second ∨ ∃ rest, second = token :: rest ∧ Thins first rest := by
  cases h with
  | skip _ h => exact .inl h
  | token _ _ h => exact .inr ⟨_, rfl, h⟩
  | newline hkind | blankLine hkind => simp [hkind, TokenKind.isTrivia] at htoken

/-- Of line ends one stays, with a next line of the same width. -/
theorem lineEnd (htoken : token.kind = .newline) (h : Thins (token :: first) second) :
    ∃ other rest, second = other :: rest ∧ other.kind = .newline ∧
      sameAhead token first rest = true := by
  generalize htokens : token :: first = tokens at h
  induction h generalizing token first with
  | nil => cases htokens
  | skip hskip =>
    obtain ⟨rfl, -⟩ := List.cons.inj htokens
    simp [htoken, TokenKind.isTrivia] at hskip
  | token hkind =>
    obtain ⟨rfl, -⟩ := List.cons.inj htokens
    exact absurd htoken hkind
  | newline _ hother hahead =>
    obtain ⟨rfl, rfl⟩ := List.cons.inj htokens
    exact ⟨_, _, rfl, hother, hahead⟩
  | blankLine _ htabs hsecond _ ih =>
    obtain ⟨rfl, rfl⟩ := List.cons.inj htokens
    obtain ⟨other, rest, rfl, hother, hahead⟩ := ih hsecond rfl
    refine ⟨other, rest, rfl, hother, ?_⟩
    simp only [sameAhead, hsecond, htoken] at hahead ⊢
    rw [nextLine_blankLine hsecond htabs]
    exact hahead

/-- A token that is neither a tab nor a comment leaves one of its kind. -/
theorem kind_eq (htoken : token.kind.isTrivia = false) (h : Thins (token :: first) second) :
    ∃ other rest, second = other :: rest ∧ other.kind = token.kind := by
  by_cases hnewline : token.kind = .newline
  · obtain ⟨other, rest, rfl, hother, -⟩ := h.lineEnd hnewline
    exact ⟨other, rest, rfl, hother.trans hnewline.symm⟩
  · have hsolid : token.kind.isSolid = true := by
      cases hkind : token.kind <;> simp_all [TokenKind.isTrivia, TokenKind.isSolid]
    obtain ⟨rest, rfl, -⟩ := h.solid hsolid
    exact ⟨token, rest, rfl, rfl⟩

theorem skipTabs {tabs : List Token} (htabs : AllTabs tabs) (h : Thins first second) :
    Thins (tabs ++ first) second := by
  induction tabs with
  | nil => exact h
  | cons tab tabs ih =>
    obtain ⟨htab, htabs⟩ := List.forall_mem_cons.mp htabs
    exact .skip (by rw [htab]; rfl) (ih htabs)

theorem not_then (h : Thins first second) (hnewline : startsWith .newline first = true) :
    startsWith .thenWord second = false := by
  obtain ⟨token, rest, rfl, hkind⟩ := exists_of_startsWith hnewline
  obtain ⟨other, behind, rfl, hother, -⟩ := h.lineEnd hkind
  simp [startsWith, hother]

protected theorem atEnd (h : Thins first second) (hend : Layout.atEnd first = true) :
    Layout.atEnd second = true := by
  cases first with
  | nil => rw [h.eq_nil]; rfl
  | cons token rest =>
    have hkind : token.kind = .endOfInput := by simpa [Layout.atEnd] using hend
    obtain ⟨rest, rfl, -⟩ := h.solid (by rw [hkind]; rfl)
    exact hend

theorem tail (hsolid : token.kind.isSolid = true) (h : Thins (token :: first) second) :
    Thins first second.tail := by
  obtain ⟨rest, rfl, -, hrest⟩ := h.solid hsolid
  exact hrest

/-! ### Scans -/

section Scans

variable {passes : Token → Bool}
  (hpasses : ∀ token, passes token = true → token.kind.isTrivia = true)
include hpasses

/-- Tabs and comments that were left may be left out as well at the
front. -/
theorem dropWhile_right (h : Thins first second) : Thins first (second.dropWhile passes) := by
  have hnewline {token : Token} (hkind : token.kind = .newline) : ¬ passes token = true := by
    intro hpass
    simpa [hkind, TokenKind.isTrivia] using hpasses token hpass
  induction h with
  | nil => exact .nil
  | skip htoken _ ih => exact .skip htoken ih
  | @token token _ _ hkind hahead h ih =>
    rw [List.dropWhile_cons]
    split
    next hpass => exact .skip (hpasses token hpass) ih
    · exact .token hkind hahead h
  | newline htoken hother hahead h =>
    rw [List.dropWhile_cons_of_neg (hnewline hother)]
    exact .newline htoken hother hahead h
  | blankLine htoken htabs hother _ ih => exact .blankLine htoken htabs hother ih

theorem dropWhile (h : Thins first second) :
    Thins (first.dropWhile passes) (second.dropWhile passes) := by
  have hnewline {token : Token} (hkind : token.kind = .newline) : ¬ passes token = true := by
    intro hpass
    simpa [hkind, TokenKind.isTrivia] using hpasses token hpass
  induction h with
  | nil => exact .nil
  | skip htoken h ih =>
    rw [List.dropWhile_cons]
    split
    · exact ih
    · exact .skip htoken (h.dropWhile_right hpasses)
  | token hkind hahead h ih =>
    rw [List.dropWhile_cons, List.dropWhile_cons]
    split
    · exact ih
    · exact .token hkind hahead h
  | newline htoken hother hahead h =>
    rw [List.dropWhile_cons_of_neg (hnewline htoken), List.dropWhile_cons_of_neg (hnewline hother)]
    exact .newline htoken hother hahead h
  | blankLine htoken htabs hother h =>
    rw [List.dropWhile_cons_of_neg (hnewline htoken)]
    exact .blankLine htoken htabs hother (h.dropWhile_right hpasses)

end Scans

theorem isTrivia_of_isTab (token : Token) (h : (token.kind == .tab) = true) :
    token.kind.isTrivia = true := by
  rw [beq_iff_eq.mp h]
  rfl

protected theorem afterTabs (h : Thins first second) : Thins (afterTabs first) (afterTabs second) :=
  h.dropWhile isTrivia_of_isTab

protected theorem afterTrivia (h : Thins first second) :
    Thins (afterTrivia first) (afterTrivia second) :=
  h.dropWhile fun _ htoken => htoken

/-- Behind the sign of an assignment. -/
theorem afterAssign (h : Thins first second) (hassigns : Parser.assigns first = true) :
    Thins (Layout.afterTabs first).tail (Layout.afterTabs second).tail := by
  obtain ⟨sign, behind, hsign, hkind⟩ := exists_of_startsWith hassigns
  have htabs := h.afterTabs
  rw [hsign] at htabs ⊢
  exact htabs.tail (by rw [hkind]; rfl)

/-- Of the line ends at the front some stay. -/
protected theorem afterNewlines (h : Thins first second) :
    ∃ run rest, second = run ++ rest ∧ (∀ token ∈ run, token.kind = .newline) ∧
      Thins (afterNewlines first) rest := by
  have hstay {token : Token} {first second : List Token} (hkind : token.kind ≠ .newline)
      (h : Thins (token :: first) second) :
      ∃ run rest, second = run ++ rest ∧ (∀ token ∈ run, token.kind = .newline) ∧
        Thins (afterNewlines (token :: first)) rest := by
    refine ⟨[], second, rfl, by simp, ?_⟩
    rwa [afterNewlines, List.dropWhile_cons_of_neg (by simpa using hkind)]
  induction h with
  | nil => exact ⟨[], [], rfl, by simp, .nil⟩
  | skip htoken h =>
    refine hstay ?_ (.skip htoken h)
    intro hkind
    simp [hkind, TokenKind.isTrivia] at htoken
  | token hkind hahead h => exact hstay hkind (.token hkind hahead h)
  | @newline _ other _ _ htoken hother _ _ ih =>
    obtain ⟨run, rest, rfl, hrun, hrest⟩ := ih
    refine ⟨other :: run, rest, rfl, List.forall_mem_cons.mpr ⟨hother, hrun⟩, ?_⟩
    rwa [afterNewlines_cons htoken]
  | @blankLine _ _ tabs first second htoken htabs hother h ih =>
    rw [afterNewlines_cons htoken]
    cases tabs with
    | nil => exact ih
    | cons tab tabs =>
      -- The tabs end the run of line ends in the first list.
      refine ⟨[], second, rfl, by simp, ?_⟩
      rw [List.cons_append, afterNewlines,
        List.dropWhile_cons_of_neg (by simp [htabs tab List.mem_cons_self])]
      exact h.skipTabs htabs

/-- The next line is the next line of the second list, or it is a line of
comments that has become blank there. -/
protected theorem nextLine (h : Thins first second) (width other : Nat) :
    ∃ line, Thins (nextLine width first).2 line ∧
      (line = (nextLine other second).2 ∨
        startsWith .newline line = true ∧ nextLine 0 line = nextLine other second) := by
  have hstay {token : Token} {rest : List Token} (hkind : token.kind ≠ .newline)
      (htab : token.kind ≠ .tab) (width : Nat) :
      (nextLine width (token :: rest)).2 = token :: rest := by
    simp [nextLine, hkind, htab]
  induction h generalizing width other with
  | nil => exact ⟨[], .nil, .inl rfl⟩
  | @skip token first second htoken h ih =>
    by_cases htab : token.kind = .tab
    · rw [nextLine, if_pos htab]
      exact ih (width + 1) other
    · have hkind : token.kind ≠ .newline := by
        intro hkind
        simp [hkind, TokenKind.isTrivia] at htoken
      rw [hstay hkind htab]
      refine ⟨afterTabs second, .skip htoken (h.dropWhile_right isTrivia_of_isTab), ?_⟩
      cases hnewline : startsWith .newline (afterTabs second) with
      | true => exact .inr ⟨rfl, (nextLine_of_newline hnewline other).symm⟩
      | false => exact .inl (nextLine_of_not_newline hnewline other).symm
  | @token token first second hkind hahead h ih =>
    by_cases htab : token.kind = .tab
    · rw [nextLine, if_pos htab, nextLine, if_pos htab]
      exact ih (width + 1) (other + 1)
    · rw [hstay hkind htab, hstay hkind htab]
      exact ⟨_, .token hkind hahead h, .inl rfl⟩
  | newline htoken hother _ _ ih =>
    rw [nextLine_newline htoken, nextLine_newline hother]
    exact ih 0 0
  | blankLine htoken htabs hother _ ih =>
    rw [nextLine_newline htoken, nextLine_blankLine hother htabs]
    have hline := ih 0 other
    rwa [nextLine_newline hother] at hline

/-- Behind a line end both lists have a next line of the same width. -/
theorem newline_nextLine (h : Thins first second)
    (hnewline : startsWith .newline (afterTabs first) = true) :
    (nextLine 0 second).1 = (nextLine 0 first).1 ∧
      atEnd (nextLine 0 second).2 = atEnd (nextLine 0 first).2 ∧
      ∃ line, Thins (nextLine 0 first).2 line ∧
        Resumes (nextLine 0 first).1 line (nextLine 0 second).2 := by
  obtain ⟨token, rest, hfirst, htoken⟩ := exists_of_startsWith hnewline
  have htabs := h.afterTabs
  rw [hfirst] at htabs
  obtain ⟨other, behind, hsecond, hother, hahead⟩ := htabs.lineEnd htoken
  have hkeeps : startsWith .newline (afterTabs second) = true := by
    simp [hsecond, startsWith, hother]
  obtain ⟨hwidth, hend⟩ := nextLine_of_sameAhead htoken hahead
  have hfirstLine : nextLine 0 first = nextLine 0 rest := by
    rw [nextLine_of_newline hnewline, hfirst, nextLine_newline htoken]
  have hsecondLine : nextLine 0 second = nextLine 0 behind := by
    rw [nextLine_of_newline hkeeps, hsecond, nextLine_newline hother]
  rw [← hfirstLine, ← hsecondLine] at hwidth hend
  refine ⟨hwidth, hend, ?_⟩
  obtain ⟨line, hline, heq | ⟨hblank, hnext⟩⟩ := h.nextLine 0 0
  · exact ⟨line, hline, .inl heq⟩
  · refine ⟨line, hline, .inr ⟨hblank, ?_⟩⟩
    -- A line that has become blank was not the end of the input.
    have hgoes : atEnd (nextLine 0 second).2 = false := by
      rw [hend]
      cases hlast : (nextLine 0 first).2 with
      | nil =>
        rw [hlast] at hline
        rw [hline.eq_nil] at hblank
        cases hblank
      | cons last behind =>
        rw [hlast] at hline
        rw [atEnd, beq_eq_false_iff_ne]
        intro hkind
        obtain ⟨rest, rfl, -⟩ := hline.solid (by rw [hkind]; rfl)
        simp [startsWith, hkind] at hblank
    simp [continuation?, hblank, hnext, hwidth, hgoes]

end Thins

section Continuation

variable {token : Token} {first second next : List Token} {width : Nat}

/-- A block that ends in the first list ends in the second one. -/
theorem Thins.continuation?_eq_none (h : Thins (token :: first) second)
    (htoken : token.kind.isTrivia = false) (hnone : continuation? width (token :: first) = none) :
    continuation? width second = none := by
  obtain ⟨other, rest, rfl, hother⟩ := h.kind_eq htoken
  by_cases hnewline : token.kind = .newline
  · have hstarts : startsWith .newline (token :: first) = true := by simp [startsWith, hnewline]
    have htabs := afterTabs_newline hstarts
    obtain ⟨hwidth, hend, -⟩ := h.newline_nextLine (htabs.symm ▸ hstarts)
    simpa [continuation?, startsWith, hother, hnewline, hwidth, hend] using hnone
  · simp [continuation?, startsWith, hother, hnewline]

/-- A block that goes on in the first list goes on in the second one, at
once or after a line that has become blank. -/
theorem Thins.exists_continuation? (h : Thins first second)
    (hnext : continuation? width first = some next) :
    ∃ target, continuation? width second = some target ∧
      ∃ line, Thins next line ∧ Resumes width line target := by
  obtain ⟨hstarts, hline⟩ := nextLine_of_continuation? hnext
  obtain ⟨token, rest, rfl, htoken⟩ := exists_of_startsWith hstarts
  obtain ⟨other, behind, rfl, hother⟩ := h.kind_eq (by rw [htoken]; rfl)
  have htabs := afterTabs_newline hstarts
  obtain ⟨hwidth, hend, line, hthin, hresumes⟩ := h.newline_nextLine (htabs.symm ▸ hstarts)
  rw [hline] at hwidth hend hthin hresumes
  refine ⟨(nextLine 0 (other :: behind)).2, ?_, line, hthin, hresumes⟩
  have hgoes : atEnd next = false := by
    simpa [continuation?, hstarts, hline] using hnext
  simp [continuation?, startsWith, hother, htoken, hwidth, hend, hgoes]

end Continuation

/-! ## Readings -/

/-- No tab and no comment stops the reading. -/
def PassesTrivia (stops : TokenKind → Bool) : Prop :=
  ∀ kind : TokenKind, kind.isTrivia = true → stops kind = false

theorem Context.passesTrivia_stopsLine (context : Context) {stops : List TokenKind}
    (hstops : ∀ kind ∈ stops, kind.isTrivia = false) : PassesTrivia (context.stopsLine stops) := by
  intro kind hkind
  have hlist : stops.contains kind = false := by
    rw [Bool.eq_false_iff, Ne, List.contains_iff_mem]
    intro hmem
    simp [hstops kind hmem] at hkind
  have hends : kind.endsLine = false := by
    cases kind <;> simp_all [TokenKind.isTrivia, TokenKind.endsLine]
  have hcloses : context.closes kind = false := by
    cases hcloser : context.closer <;> cases kind <;>
      simp_all [TokenKind.isTrivia, Context.closes]
  rw [Context.stopsLine, hends, hlist, hcloses]
  rfl

/-- A line does not stop at a tab or at a comment. -/
theorem Context.not_isTrivia_of_stopsLine (context : Context) {stops : List TokenKind}
    (hlist : ∀ kind ∈ stops, kind.isTrivia = false) {kind : TokenKind}
    (hstops : context.stopsLine stops kind = true) : kind.isTrivia = false := by
  cases hkind : kind.isTrivia with
  | false => rfl
  | true => simp [context.passesTrivia_stopsLine hlist kind hkind] at hstops

theorem passesTrivia_endsCondition : PassesTrivia endsCondition := by
  intro kind hkind
  cases kind <;> simp_all [TokenKind.isTrivia, endsCondition]

theorem passesTrivia_closing (bracket : Bracket) : PassesTrivia (· == .closing bracket) := by
  intro kind hkind
  cases kind <;> simp_all [TokenKind.isTrivia]

/-- How a run in the second list follows one in the first.  An item begins
at a token that stays, and a block with the end of a header line. -/
def Mode.Follows (mode : Mode) (first second : List Token) : Prop :=
  Thins first second ∧
    match mode with
    | .item => ∀ token, first.head? = some token → token.kind.isSolid = true
    | .upTo stops => PassesTrivia stops
    | .block => startsWith .newline (afterTabs first) = true
    | .lines _ | .program => True

namespace Thins

variable {token : Token} {first second : List Token}

theorem follows_item (hsolid : token.kind.isSolid = true) (h : Thins (token :: first) second) :
    Mode.item.Follows (token :: first) second :=
  ⟨h, fun _ heq => Option.some.inj heq ▸ hsolid⟩

theorem follows_line (context : Context) (h : Thins first second) :
    (Mode.upTo (context.stopsLine [])).Follows first second :=
  ⟨h, context.passesTrivia_stopsLine (by simp)⟩

theorem follows_branch (context : Context) (h : Thins first second) :
    (Mode.upTo (context.stopsLine [.elseWord])).Follows first second :=
  ⟨h, context.passesTrivia_stopsLine (by simp [TokenKind.isTrivia])⟩

theorem follows_condition (h : Thins first second) :
    (Mode.upTo endsCondition).Follows first second :=
  ⟨h, passesTrivia_endsCondition⟩

theorem follows_group (bracket : Bracket) (h : Thins first second) :
    (Mode.upTo (· == .closing bracket)).Follows first second :=
  ⟨h, passesTrivia_closing bracket⟩

theorem follows_block (hnewline : startsWith .newline first = true) (h : Thins first second) :
    Mode.block.Follows first second :=
  ⟨h, (afterTabs_newline hnewline).symm ▸ hnewline⟩

end Thins

/-- The token that an item begins with is in both lists. -/
theorem Mode.Follows.cons {token : Token} {first second : List Token}
    (h : Mode.item.Follows (token :: first) second) :
    ∃ rest, second = token :: rest ∧ sameAhead token first rest = true ∧ Thins first rest :=
  h.1.solid (h.2 token rfl)

section Readings

variable {limit : Nat} {mode : Mode} {context : Context} {tokens others after : List Token}
  {nodes : List Node}

namespace Reads

theorem trivia_iff {token : Token} {rest : List Token} (htrivia : token.kind.isTrivia = true) :
    Reads limit .item context (token :: rest) nodes after ↔ nodes = [] ∧ after = rest := by
  refine skip_iff ?_ ?_
  · cases hkind : token.kind <;> simp_all [TokenKind.isTrivia, TokenKind.isContent]
  · intro hkind
    simp [hkind, TokenKind.isTrivia] at htrivia

theorem upTo_newline_iff {stops : TokenKind → Bool} {token : Token} {rest : List Token}
    (hstops : stops .newline = false) (hkind : token.kind = .newline) :
    Reads limit (.upTo stops) context (token :: rest) nodes after ↔
      Reads limit (.upTo stops) context (afterNewlines rest) nodes after := by
  constructor
  · intro h
    cases h with
    | stop hstop => simp [hkind, hstops] at hstop
    | step _ _ hitem hmore =>
      obtain ⟨rfl, rfl⟩ := (newline_iff hkind).mp hitem
      exact hmore
  · intro h
    exact .step (by rw [hkind, hstops]) (by simp [hkind]) (.newline hkind) h

theorem resume {width : Nat} {target : List Token}
    (h : Reads limit (.lines width) context tokens nodes after)
    (hresumes : Resumes width tokens target) :
    Reads limit (.lines width) context target nodes after := by
  rcases hresumes with rfl | ⟨hblank, hnext⟩
  · exact h
  obtain ⟨token, rest, rfl, hkind⟩ := exists_of_startsWith hblank
  have hempty : Reads limit (.upTo (context.stopsLine [])) context (token :: rest) []
      (token :: rest) := .stop (by rw [hkind]; rfl)
  cases h with
  | lastLine hline hlast =>
    obtain ⟨-, rfl⟩ := hline.upTo_unique hempty
    simp [hlast] at hnext
  | moreLines hline hcontinues hmore =>
    obtain ⟨rfl, rfl⟩ := hline.upTo_unique hempty
    obtain rfl := Option.some.inj (hcontinues.symm.trans hnext)
    exact hmore

end Reads

theorem not_isTrivia_of_afterTrivia {next : Token} {rest more : List Token}
    (hnext : afterTrivia rest = next :: more) : next.kind.isTrivia = false := by
  have hhead := List.head?_dropWhile_not (·.kind.isTrivia) rest
  rw [afterTrivia] at hnext
  simpa [hnext] using hhead

theorem isSolid_of_afterTrivia {next : Token} {rest more : List Token}
    (hnext : afterTrivia rest = next :: more) (hend : next.kind.endsLine = false) :
    next.kind.isSolid = true := by
  have htrivia := not_isTrivia_of_afterTrivia hnext
  cases hkind : next.kind <;> simp_all [TokenKind.isSolid, TokenKind.isTrivia, TokenKind.endsLine]

/-- The item behind an operator begins with the same token. -/
theorem Thins.operand {first second more : List Token} {next : Token} (h : Thins first second)
    (hnext : afterTrivia first = next :: more) (hend : next.kind.endsLine = false) :
    ∃ behind, afterTrivia second = next :: behind ∧
      Mode.item.Follows (next :: more) (next :: behind) := by
  have hsolid := isSolid_of_afterTrivia hnext hend
  have hthins := h.afterTrivia
  rw [hnext] at hthins
  obtain ⟨behind, hbehind, -⟩ := hthins.solid hsolid
  rw [hbehind] at hthins
  exact ⟨behind, hbehind, hthins.follows_item hsolid⟩

/-- A reading of the first list is followed in the second one. -/
theorem Reads.thin (h : Reads limit mode context tokens nodes after)
    (hfollows : mode.Follows tokens others) :
    ∃ left, Thins after left ∧ Reads limit mode context others nodes left := by
  induction h generalizing others with
  | leaf kind hkind hident =>
    obtain ⟨rest, rfl, hahead, hrest⟩ := hfollows.cons
    refine ⟨rest, hrest, .leaf kind hkind fun hleaf => ?_⟩
    rw [assigns_of_sameAhead (by rw [hkind, hleaf]; rfl) hahead]
    exact hident hleaf
  | newline hkind =>
    have hsolid := hfollows.2 _ rfl
    simp [hkind, TokenKind.isSolid] at hsolid
  | skip hkind hnewline =>
    obtain ⟨rest, rfl, -, hrest⟩ := hfollows.cons
    exact ⟨rest, hrest, .skip hkind hnewline⟩
  | lineFunction hkind hnesting hline _ ih =>
    obtain ⟨rest, rfl, hahead, hrest⟩ := hfollows.cons
    obtain ⟨left, hleft, hbody⟩ := ih (hrest.follows_line _)
    refine ⟨left, hleft, .lineFunction hkind hnesting ?_ hbody⟩
    exact (startsWith_of_sameAhead (.inl hkind) hahead).trans hline
  | blockFunction hkind hnesting hline _ ih =>
    obtain ⟨rest, rfl, hahead, hrest⟩ := hfollows.cons
    obtain ⟨left, hleft, hbody⟩ := ih ⟨hrest, hline⟩
    refine ⟨left, hleft, .blockFunction hkind hnesting ?_ hbody⟩
    exact (startsWith_of_sameAhead (.inl hkind) hahead).trans hline
  | returnExpression hkind hnesting _ ih =>
    obtain ⟨rest, rfl, -, hrest⟩ := hfollows.cons
    obtain ⟨left, hleft, hbody⟩ := ih (hrest.follows_line _)
    exact ⟨left, hleft, .returnExpression hkind hnesting hbody⟩
  | assignment hkind hnesting hassigns _ ih =>
    obtain ⟨rest, rfl, hahead, hrest⟩ := hfollows.cons
    have hsame := (assigns_of_sameAhead hkind hahead).trans hassigns
    obtain ⟨left, hleft, hbody⟩ :=
      ih ((hrest.afterAssign hassigns).follows_line _)
    exact ⟨left, hleft, .assignment hkind hnesting hsame hbody⟩
  | operator hkind hnesting hassigns hsymbol hnext hend hcloser _ ih =>
    obtain ⟨rest, rfl, hahead, hrest⟩ := hfollows.cons
    have hsame := (assigns_of_sameAhead hkind hahead).trans hassigns
    obtain ⟨more, hmore, hoperand⟩ := hrest.operand hnext hend
    obtain ⟨left, hleft, hitem⟩ := ih hoperand
    exact ⟨left, hleft, .operator hkind hnesting hsame hsymbol hmore hend hcloser hitem⟩
  | bracketed bracket hkind hnesting hbody ih =>
    obtain ⟨rest, rfl, -, hrest⟩ := hfollows.cons
    obtain ⟨left, hleft, hgroup⟩ := ih (hrest.follows_group bracket)
    obtain ⟨closing, behind, rfl, hclosing⟩ := hbody.upTo_after
    refine ⟨left.tail, ?_, .bracketed bracket hkind hnesting hgroup⟩
    exact hleft.tail (by rw [beq_iff_eq.mp hclosing]; rfl)
  | lineIf hkind hnesting _ hthen _ ihcondition ihbody =>
    obtain ⟨rest, rfl, -, hrest⟩ := hfollows.cons
    obtain ⟨middle, hmiddle, hcondition⟩ := ihcondition hrest.follows_condition
    obtain ⟨word, behind, rfl, hword⟩ := exists_of_startsWith hthen
    obtain ⟨more, rfl, -, hmore⟩ := hmiddle.solid (by rw [hword]; rfl)
    obtain ⟨left, hleft, hbody⟩ := ihbody (hmore.follows_branch _)
    exact ⟨left, hleft, .lineIf hkind hnesting hcondition hthen hbody⟩
  | blockIf hkind hnesting hcondition hthen _ ihcondition ihbody =>
    obtain ⟨rest, rfl, -, hrest⟩ := hfollows.cons
    have hnewline := hcondition.startsWith_newline hthen
    obtain ⟨middle, hmiddle, hcondition⟩ := ihcondition hrest.follows_condition
    obtain ⟨left, hleft, hbody⟩ := ihbody (hmiddle.follows_block hnewline)
    exact ⟨left, hleft, .blockIf hkind hnesting hcondition (hmiddle.not_then hnewline) hbody⟩
  | lineElse hkind hnesting hnext hend _ ih =>
    obtain ⟨rest, rfl, hahead, hrest⟩ := hfollows.cons
    have htabs := hrest.afterTabs
    rw [hnext] at htabs
    obtain ⟨next, more, hmore, hends⟩ := exists_of_sameAhead hkind hahead hnext hend
    obtain ⟨left, hleft, hbody⟩ := ih (htabs.follows_line _)
    rw [hmore] at hbody
    exact ⟨left, hleft, .lineElse hkind hnesting hmore hends hbody⟩
  | blockElse hkind hnesting hline _ ih =>
    obtain ⟨rest, rfl, hahead, hrest⟩ := hfollows.cons
    obtain ⟨left, hleft, hbody⟩ := ih (hrest.afterTabs.follows_block hline)
    refine ⟨left, hleft, .blockElse hkind hnesting ?_ hbody⟩
    exact (startsWith_of_sameAhead (.inr hkind) hahead).trans hline
  | @stop _ stops token _ hstops =>
    obtain ⟨hthins, hpasses⟩ := hfollows
    have htrivia : token.kind.isTrivia = false := by
      cases htrivia : token.kind.isTrivia with
      | false => rfl
      | true => simp [hpasses _ htrivia] at hstops
    obtain ⟨other, rest, rfl, hother⟩ := hthins.kind_eq htrivia
    exact ⟨_, hthins, .stop (by rw [hother, hstops])⟩
  | @step _ stops token rest _ _ _ _ hstops hend hitem _ ihitem ihmore =>
    obtain ⟨hthins, hpasses⟩ := hfollows
    rcases token.kind.isTrivia_or_newline_or_isSolid with htrivia | hnewline | hsolid
    · obtain ⟨rfl, rfl⟩ := (Reads.trivia_iff htrivia).mp hitem
      rcases hthins.trivia htrivia with hrest | ⟨behind, rfl, hrest⟩
      · exact ihmore ⟨hrest, hpasses⟩
      · obtain ⟨left, hleft, hread⟩ := ihmore ⟨hrest, hpasses⟩
        exact ⟨left, hleft, .step hstops hend ((Reads.trivia_iff htrivia).mpr ⟨rfl, rfl⟩) hread⟩
    · obtain ⟨rfl, rfl⟩ := (Reads.newline_iff hnewline).mp hitem
      obtain ⟨run, behind, rfl, hrun, hrest⟩ := hthins.afterNewlines
      rw [afterNewlines_cons hnewline] at hrest
      obtain ⟨left, hleft, hread⟩ := ihmore ⟨hrest, hpasses⟩
      refine ⟨left, hleft, (newlines_append_iff (fun tokens => Reads _ _ _ tokens _ left)
        (fun _ _ => ?_) hrun behind).mpr hread⟩
      exact Reads.upTo_newline_iff (hnewline ▸ hstops)
    · obtain ⟨middle, hmiddle, hread⟩ := ihitem (hthins.follows_item hsolid)
      obtain ⟨left, hleft, hmore⟩ := ihmore ⟨hmiddle, hpasses⟩
      obtain ⟨behind, rfl, -⟩ := hthins.solid hsolid
      exact ⟨left, hleft, .step hstops hend hread hmore⟩
  | lastLine hline hlast ih =>
    obtain ⟨left, hleft, hread⟩ := ih (hfollows.1.follows_line _)
    obtain ⟨token, rest, rfl, hstops⟩ := hline.upTo_after
    have htrivia := Context.not_isTrivia_of_stopsLine _ (by simp) hstops
    exact ⟨left, hleft, .lastLine hread (hleft.continuation?_eq_none htrivia hlast)⟩
  | moreLines _ hnext _ ihline ihmore =>
    obtain ⟨middle, hmiddle, hread⟩ := ihline (hfollows.1.follows_line _)
    obtain ⟨target, hcontinues, line, hline, hresumes⟩ := hmiddle.exists_continuation? hnext
    obtain ⟨left, hleft, hmore⟩ := ihmore ⟨hline, trivial⟩
    exact ⟨left, hleft, .moreLines hread hcontinues (hmore.resume hresumes)⟩
  | block hline _ ih =>
    obtain ⟨hthins, hnewline⟩ := hfollows
    obtain ⟨hwidth, -, other, hother, hresumes⟩ := hthins.newline_nextLine hnewline
    rw [hline] at hwidth hother hresumes
    obtain ⟨left, hleft, hread⟩ := ih ⟨hother, trivial⟩
    refine ⟨left, hleft, Reads.block_iff.mpr ?_⟩
    rw [hwidth]
    exact hread.resume hresumes
  | done =>
    obtain rfl := hfollows.1.eq_nil
    exact ⟨[], .nil, .done⟩
  | @statement _ token _ _ _ _ _ hitem _ ihitem ihmore =>
    obtain ⟨hthins, -⟩ := hfollows
    rcases token.kind.isTrivia_or_newline_or_isSolid with htrivia | hnewline | hsolid
    · obtain ⟨rfl, rfl⟩ := (Reads.trivia_iff htrivia).mp hitem
      rcases hthins.trivia htrivia with hrest | ⟨behind, rfl, hrest⟩
      · exact ihmore ⟨hrest, trivial⟩
      · obtain ⟨left, hleft, hread⟩ := ihmore ⟨hrest, trivial⟩
        exact ⟨left, hleft, .statement ((Reads.trivia_iff htrivia).mpr ⟨rfl, rfl⟩) hread⟩
    · obtain ⟨rfl, rfl⟩ := (Reads.newline_iff hnewline).mp hitem
      obtain ⟨run, behind, rfl, hrun, hrest⟩ := hthins.afterNewlines
      rw [afterNewlines_cons hnewline] at hrest
      obtain ⟨left, hleft, hread⟩ := ihmore ⟨hrest, trivial⟩
      exact ⟨left, hleft, hread.program_layout fun token hmem => .inl (hrun token hmem)⟩
    · obtain ⟨middle, hmiddle, hread⟩ := ihitem (hthins.follows_item hsolid)
      obtain ⟨left, hleft, hmore⟩ := ihmore ⟨hmiddle, trivial⟩
      obtain ⟨behind, rfl, -⟩ := hthins.solid hsolid
      exact ⟨left, hleft, .statement hread hmore⟩

end Readings

/-! ## Failures -/

/-- The mode in which the work of a task reads. -/
def Task.mode : Task → Mode
  | .item | .inside => .item
  | .upTo _ stops => .upTo stops
  | .lines _ width => .lines width
  | .block _ => .block
  | .program => .program

section Failures

variable {limit : Nat} {context : Context} {fault : Fault} {others : List Token}

theorem opened?_of_isTrivia {token : Token} {rest : List Token}
    (htrivia : token.kind.isTrivia = true) : opened? token rest = none := by
  unfold opened?
  cases hkind : token.kind <;> simp_all [TokenKind.isTrivia]

theorem Fails.ofCall {moment next : Moment} (hcall : Calls limit moment next)
    (h : Fails limit next fault) : Fails limit moment fault :=
  fails_iff.mpr (.inr ⟨next, hcall, h⟩)

theorem fails_upTo_newline {construct : Construct} {stops : TokenKind → Bool} {token : Token}
    {rest : List Token} (hstops : stops .newline = false) (hkind : token.kind = .newline) :
    Fails limit ⟨.upTo construct stops, context, token :: rest⟩ fault ↔
      Fails limit ⟨.upTo construct stops, context, afterNewlines rest⟩ fault := by
  rw [fails_upTo_of_turn (by rw [hkind, hstops]) (by simp [hkind])]
  simp [not_fails_item (show opened? token rest = none by simp [opened?, hkind]),
    Reads.newline_iff hkind, and_assoc]

theorem fails_program_newline {token : Token} {rest : List Token} (hkind : token.kind = .newline) :
    Fails limit ⟨.program, context, token :: rest⟩ fault ↔
      Fails limit ⟨.program, context, afterNewlines rest⟩ fault := by
  rw [fails_program_cons]
  simp [not_fails_item (show opened? token rest = none by simp [opened?, hkind]),
    Reads.newline_iff hkind, and_assoc]

theorem Fails.resume {construct : Construct} {width : Nat} {tokens target : List Token}
    (h : Fails limit ⟨.lines construct width, context, tokens⟩ fault)
    (hresumes : Resumes width tokens target) :
    Fails limit ⟨.lines construct width, context, target⟩ fault := by
  rcases hresumes with rfl | ⟨hblank, hnext⟩
  · exact h
  obtain ⟨token, rest, rfl, hkind⟩ := exists_of_startsWith hblank
  have hstops : context.stopsLine [] token.kind = true := by
    rw [hkind]
    rfl
  rcases fails_lines.mp h with hline | ⟨nodes, middle, hline, other, hother, hmore⟩
  · exact absurd hline (not_fails_upTo_of_stops hstops)
  · obtain ⟨-, rfl⟩ := hline.upTo_unique (.stop hstops)
    obtain rfl := Option.some.inj (hother.symm.trans hnext)
    exact hmore

/-- A moment that is stuck in the first list is stuck in the second one. -/
theorem Stuck.thin {moment : Moment} (h : Stuck limit moment fault)
    (hfollows : moment.task.mode.Follows moment.tokens others) :
    ∃ other, other.error = fault.error ∧ Stuck limit { moment with tokens := others } other := by
  obtain ⟨hthins, hmode⟩ := hfollows
  cases h with
  | noItem =>
    obtain rfl := hthins.eq_nil
    exact ⟨_, rfl, .noItem⟩
  | tooDeep hopened hnesting =>
    obtain ⟨rest, rfl, hahead, -⟩ := hthins.solid (hmode _ rfl)
    exact ⟨_, by rfl, .tooDeep ((opened?_of_sameAhead hahead).trans hopened) hnesting⟩
  | noTurn =>
    obtain rfl := hthins.eq_nil
    exact ⟨_, rfl, .noTurn⟩
  | ended hstops hend =>
    obtain ⟨rest, rfl, -⟩ := hthins.solid (by rw [hend]; rfl)
    exact ⟨_, by rfl, .ended hstops hend⟩
  | endedOperand hkind hassigns hsymbol hend =>
    obtain ⟨rest, rfl, hahead, hrest⟩ := hthins.solid (hmode _ rfl)
    have hsame := (assigns_of_sameAhead hkind hahead).trans hassigns
    exact ⟨_, by rfl, .endedOperand hkind hsame hsymbol (hrest.afterTrivia.atEnd hend)⟩
  | noOperand hkind hassigns hsymbol hnext hstop =>
    obtain ⟨rest, rfl, hahead, hrest⟩ := hthins.solid (hmode _ rfl)
    have hsame := (assigns_of_sameAhead hkind hahead).trans hassigns
    have hoperand := hrest.afterTrivia
    rw [hnext] at hoperand
    obtain ⟨next, more, hmore, hother⟩ := hoperand.kind_eq (not_isTrivia_of_afterTrivia hnext)
    exact ⟨_, by rfl, .noOperand hkind hsame hsymbol hmore (hother.symm ▸ hstop)⟩
  | emptyOperand hkind hassigns hsymbol hnext hend hcloser hitem =>
    obtain ⟨rest, rfl, hahead, hrest⟩ := hthins.solid (hmode _ rfl)
    have hsame := (assigns_of_sameAhead hkind hahead).trans hassigns
    obtain ⟨more, hmore, hoperand⟩ := hrest.operand hnext hend
    obtain ⟨left, -, hread⟩ := hitem.thin hoperand
    exact ⟨_, by rfl, .emptyOperand hkind hsame hsymbol hmore hend hcloser hread⟩
  | endedElse hkind hend =>
    obtain ⟨rest, rfl, hahead, -⟩ := hthins.solid (hmode _ rfl)
    exact ⟨_, by rfl, .endedElse hkind ((atEnd_of_sameAhead hkind hahead).trans hend)⟩

/-- A call in the first list is followed in the second one: what fails
there once the call is made has failed from the start. -/
theorem Calls.thin {moment next : Moment} (h : Calls limit moment next)
    (hfails : Fails limit next fault)
    (hfollows : moment.task.mode.Follows moment.tokens others) :
    ∃ left, next.task.mode.Follows next.tokens left ∧
      ∀ other, Fails limit { next with tokens := left } other →
        Fails limit { moment with tokens := others } other := by
  obtain ⟨hthins, hmode⟩ := hfollows
  cases h with
  | enter hopened hnesting =>
    obtain ⟨rest, rfl, hahead, -⟩ := hthins.solid (hmode _ rfl)
    refine ⟨_, ⟨hthins, hmode⟩, fun other h => ?_⟩
    exact h.ofCall (.enter ((opened?_of_sameAhead hahead).trans hopened) hnesting)
  | lineFunction hkind hline =>
    obtain ⟨rest, rfl, hahead, hrest⟩ := hthins.solid (hmode _ rfl)
    refine ⟨rest, hrest.follows_line _, fun other h => ?_⟩
    have hsame := (startsWith_of_sameAhead (.inl hkind) hahead).trans hline
    exact h.ofCall (.lineFunction hkind hsame)
  | blockFunction hkind hline =>
    obtain ⟨rest, rfl, hahead, hrest⟩ := hthins.solid (hmode _ rfl)
    refine ⟨rest, ⟨hrest, hline⟩, fun other h => ?_⟩
    have hsame := (startsWith_of_sameAhead (.inl hkind) hahead).trans hline
    exact h.ofCall (.blockFunction hkind hsame)
  | returnExpression hkind =>
    obtain ⟨rest, rfl, -, hrest⟩ := hthins.solid (hmode _ rfl)
    exact ⟨rest, hrest.follows_line _, fun other h => h.ofCall (.returnExpression hkind)⟩
  | assignment hkind hassigns =>
    obtain ⟨rest, rfl, hahead, hrest⟩ := hthins.solid (hmode _ rfl)
    have hsame := (assigns_of_sameAhead hkind hahead).trans hassigns
    exact ⟨_, (hrest.afterAssign hassigns).follows_line _, fun other h =>
      h.ofCall (.assignment hkind hsame)⟩
  | operand hkind hassigns hsymbol hnext hend hcloser =>
    obtain ⟨rest, rfl, hahead, hrest⟩ := hthins.solid (hmode _ rfl)
    have hsame := (assigns_of_sameAhead hkind hahead).trans hassigns
    obtain ⟨more, hmore, hoperand⟩ := hrest.operand hnext hend
    exact ⟨_, hoperand, fun other h =>
      h.ofCall (.operand hkind hsame hsymbol hmore hend hcloser)⟩
  | bracketed bracket hkind =>
    obtain ⟨rest, rfl, -, hrest⟩ := hthins.solid (hmode _ rfl)
    exact ⟨rest, hrest.follows_group bracket, fun other h => h.ofCall (.bracketed bracket hkind)⟩
  | condition hkind =>
    obtain ⟨rest, rfl, -, hrest⟩ := hthins.solid (hmode _ rfl)
    exact ⟨rest, hrest.follows_condition, fun other h => h.ofCall (.condition hkind)⟩
  | lineIf hkind hcondition hthen =>
    obtain ⟨rest, rfl, -, hrest⟩ := hthins.solid (hmode _ rfl)
    obtain ⟨middle, hmiddle, hread⟩ := hcondition.thin hrest.follows_condition
    obtain ⟨word, behind, rfl, hword⟩ := exists_of_startsWith hthen
    obtain ⟨more, rfl, -, hmore⟩ := hmiddle.solid (by rw [hword]; rfl)
    exact ⟨more, hmore.follows_branch _, fun other h => h.ofCall (.lineIf hkind hread hthen)⟩
  | blockIf hkind hcondition hthen =>
    obtain ⟨rest, rfl, -, hrest⟩ := hthins.solid (hmode _ rfl)
    have hnewline := hcondition.startsWith_newline hthen
    obtain ⟨middle, hmiddle, hread⟩ := hcondition.thin hrest.follows_condition
    refine ⟨middle, hmiddle.follows_block hnewline, fun other h => ?_⟩
    exact h.ofCall (.blockIf hkind hread (hmiddle.not_then hnewline))
  | lineElse hkind hnext hend =>
    obtain ⟨rest, rfl, hahead, hrest⟩ := hthins.solid (hmode _ rfl)
    have htabs := hrest.afterTabs
    obtain ⟨next, more, hmore, hends⟩ := exists_of_sameAhead hkind hahead hnext hend
    rw [hnext, hmore] at htabs
    exact ⟨_, htabs.follows_line _, fun other h => h.ofCall (.lineElse hkind hmore hends)⟩
  | blockElse hkind hline =>
    obtain ⟨rest, rfl, hahead, hrest⟩ := hthins.solid (hmode _ rfl)
    refine ⟨_, hrest.afterTabs.follows_block hline, fun other h => ?_⟩
    exact h.ofCall (.blockElse hkind ((startsWith_of_sameAhead (.inr hkind) hahead).trans hline))
  | @turn _ _ _ token _ hstops hend =>
    rcases token.kind.isTrivia_or_newline_or_isSolid with htrivia | hnewline | hsolid
    · exact absurd hfails (not_fails_item (opened?_of_isTrivia htrivia))
    · exact absurd hfails (not_fails_item (by simp [opened?, hnewline]))
    · obtain ⟨rest, rfl, -⟩ := hthins.solid hsolid
      exact ⟨_, hthins.follows_item hsolid, fun other h => h.ofCall (.turn hstops hend)⟩
  | @furtherTurn _ _ _ token rest _ _ hstops hend hitem =>
    rcases token.kind.isTrivia_or_newline_or_isSolid with htrivia | hnewline | hsolid
    · obtain ⟨rfl, rfl⟩ := (Reads.trivia_iff htrivia).mp hitem
      rcases hthins.trivia htrivia with hrest | ⟨behind, rfl, hrest⟩
      · exact ⟨_, ⟨hrest, hmode⟩, fun other h => h⟩
      · exact ⟨_, ⟨hrest, hmode⟩, fun other h =>
          h.ofCall (.furtherTurn hstops hend ((Reads.trivia_iff htrivia).mpr ⟨rfl, rfl⟩))⟩
    · obtain ⟨rfl, rfl⟩ := (Reads.newline_iff hnewline).mp hitem
      obtain ⟨run, behind, rfl, hrun, hrest⟩ := hthins.afterNewlines
      rw [afterNewlines_cons hnewline] at hrest
      refine ⟨behind, ⟨hrest, hmode⟩, fun other h => ?_⟩
      refine (newlines_append_iff (fun tokens => Fails limit ⟨_, _, tokens⟩ other)
        (fun _ _ => ?_) hrun behind).mpr h
      exact fails_upTo_newline (hnewline ▸ hstops)
    · obtain ⟨middle, hmiddle, hread⟩ := hitem.thin (hthins.follows_item hsolid)
      obtain ⟨behind, rfl, -⟩ := hthins.solid hsolid
      exact ⟨middle, ⟨hmiddle, hmode⟩, fun other h => h.ofCall (.furtherTurn hstops hend hread)⟩
  | line =>
    exact ⟨others, hthins.follows_line _, fun other h => h.ofCall .line⟩
  | furtherLine hline hnext =>
    obtain ⟨middle, hmiddle, hread⟩ := hline.thin (hthins.follows_line _)
    obtain ⟨target, hcontinues, line, hthin, hresumes⟩ := hmiddle.exists_continuation? hnext
    exact ⟨line, ⟨hthin, trivial⟩, fun other h =>
      (h.resume hresumes).ofCall (.furtherLine hread hcontinues)⟩
  | @block context construct tokens =>
    obtain ⟨hwidth, -, line, hthin, hresumes⟩ := hthins.newline_nextLine hmode
    refine ⟨line, ⟨hthin, trivial⟩, fun other h => fails_block.mpr ?_⟩
    rw [hwidth]
    exact h.resume hresumes
  | @statement _ token _ =>
    rcases token.kind.isTrivia_or_newline_or_isSolid with htrivia | hnewline | hsolid
    · exact absurd hfails (not_fails_item (opened?_of_isTrivia htrivia))
    · exact absurd hfails (not_fails_item (by simp [opened?, hnewline]))
    · obtain ⟨rest, rfl, -⟩ := hthins.solid hsolid
      exact ⟨_, hthins.follows_item hsolid, fun other h => h.ofCall .statement⟩
  | @furtherStatement _ token rest _ _ hitem =>
    rcases token.kind.isTrivia_or_newline_or_isSolid with htrivia | hnewline | hsolid
    · obtain ⟨rfl, rfl⟩ := (Reads.trivia_iff htrivia).mp hitem
      rcases hthins.trivia htrivia with hrest | ⟨behind, rfl, hrest⟩
      · exact ⟨_, ⟨hrest, trivial⟩, fun other h => h⟩
      · exact ⟨_, ⟨hrest, trivial⟩, fun other h =>
          h.ofCall (.furtherStatement ((Reads.trivia_iff htrivia).mpr ⟨rfl, rfl⟩))⟩
    · obtain ⟨rfl, rfl⟩ := (Reads.newline_iff hnewline).mp hitem
      obtain ⟨run, behind, rfl, hrun, hrest⟩ := hthins.afterNewlines
      rw [afterNewlines_cons hnewline] at hrest
      refine ⟨behind, ⟨hrest, trivial⟩, fun other h => ?_⟩
      exact (newlines_append_iff (fun tokens => Fails limit ⟨_, _, tokens⟩ other)
        (fun _ _ => fails_program_newline) hrun behind).mpr h
    · obtain ⟨middle, hmiddle, hread⟩ := hitem.thin (hthins.follows_item hsolid)
      obtain ⟨behind, rfl, -⟩ := hthins.solid hsolid
      exact ⟨middle, ⟨hmiddle, trivial⟩, fun other h => h.ofCall (.furtherStatement hread)⟩

/-- A run that fails in the first list fails in the second one, with the
same error. -/
theorem Fails.thin {moment : Moment} (h : Fails limit moment fault)
    (hfollows : moment.task.mode.Follows moment.tokens others) :
    ∃ other, other.error = fault.error ∧ Fails limit { moment with tokens := others } other := by
  obtain ⟨last, hreaches, hstuck⟩ := h
  induction hreaches using Relation.ReflTransGen.head_induction_on generalizing others with
  | refl =>
    obtain ⟨other, herror, hother⟩ := hstuck.thin hfollows
    exact ⟨other, herror, fails_iff.mpr (.inl hother)⟩
  | head hcall hreaches ih =>
    obtain ⟨left, hleft, hback⟩ := hcall.thin ⟨last, hreaches, hstuck⟩ hfollows
    obtain ⟨other, herror, hother⟩ := ih hleft
    exact ⟨other, herror, hback other hother⟩

end Failures

/-- What is left out makes no difference to the answer. -/
theorem parse_thin {first second : List Token} (h : Thins first second) :
    parse first = parse second := by
  cases hresult : parse first with
  | ok program =>
    obtain ⟨left, hleft, hreads⟩ := (parse_eq_ok_iff.mp hresult).thin ⟨h, trivial⟩
    obtain rfl := hleft.eq_nil
    exact (parse_eq_ok_iff.mpr hreads).symm
  | error error =>
    obtain ⟨fault, rfl, hfails⟩ := parse_eq_error_iff.mp hresult
    obtain ⟨other, herror, hother⟩ := hfails.thin ⟨h, trivial⟩
    exact (parse_eq_error_iff.mpr ⟨other, herror, hother⟩).symm

end Flick
