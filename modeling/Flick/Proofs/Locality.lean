import Flick.Proofs.Calls.Adequacy

/-!
# What lies ahead does not matter

The parser looks ahead over layout only: past tabs for a sign or a line
end, past tabs and comments for an operand, and past blank lines for the
width of the next line.  So no lookahead goes beyond a token that is
neither layout nor a comment, a *solid* token.

Hence what is read in front of a solid token, and left it unread, is read
the same whatever stands behind it.  A line end will do as well, if the
line behind it is measured alike by the blocks that end there; a token of
either sort is a `Pivot`.  `regrow` replaces what stands behind, and the
lemmas say that it commutes with each lookahead, with readings
(`Reads.regrow`) and with the calls of a run (`Reaches.regrow`).

One consequence is that errors which are not about the end of the input
are final.  The token at which such an error is found has been reached by
looking at no more than the tokens up to it, so what follows can be
replaced (`Fails.changeEnding`).
-/

namespace Flick

open Layout

/-- Whether every lookahead ends at a token of this kind. -/
def TokenKind.isSolid : TokenKind → Bool
  | .tab | .newline | .comment => false
  | _ => true

theorem TokenKind.isTrivia_of_isSolid {kind : TokenKind} (h : kind.isSolid = true) :
    kind.isTrivia = false := by
  cases kind <;> simp_all [isSolid, isTrivia]

theorem TokenKind.ne_newline_of_isSolid {kind : TokenKind} (h : kind.isSolid = true) :
    kind ≠ .newline := by
  rintro rfl
  simp [isSolid] at h

/-- The tokens with `new` in the place of the last ones, which are `old`. -/
def regrow (old new tokens : List Token) : List Token :=
  tokens.take (tokens.length - old.length) ++ new

theorem regrow_append (old new front : List Token) :
    regrow old new (front ++ old) = front ++ new := by
  simp [regrow]

theorem regrow_self (old new : List Token) : regrow old new old = new := regrow_append old new []

section Lookahead

variable {pivot : Token} {old new tokens rest : List Token} {token : Token}

/-- The tokens in front of the pivot, and the pivot itself, stay. -/
theorem regrow_append_cons (front : List Token) :
    regrow old new (front ++ pivot :: old) = front ++ pivot :: new := by
  rw [List.append_cons, List.append_cons front pivot new, regrow_append]

theorem regrow_cons (h : pivot :: old <:+ token :: rest) :
    regrow old new (token :: rest) = token :: regrow old new rest := by
  have hle : old.length ≤ rest.length := by simpa using h.length_le
  rw [regrow, regrow, List.length_cons, Nat.succ_sub hle, List.take_succ_cons, List.cons_append]

theorem regrow_tail (h : pivot :: old <:+ tokens.tail) :
    regrow old new tokens.tail = (regrow old new tokens).tail := by
  cases tokens with
  | nil => exact absurd h (by simp)
  | cons token rest => rw [regrow_cons (h.trans (List.suffix_cons token rest))]; rfl

theorem startsWith_regrow (h : pivot :: old <:+ tokens) (kind : TokenKind) :
    startsWith kind (regrow old new tokens) = startsWith kind tokens := by
  cases tokens with
  | nil => exact absurd h (by simp)
  | cons token rest => rw [regrow_cons h]; rfl

/-- The pivot is still to come if the next one is of another kind. -/
theorem suffix_tail_of_startsWith {kind : TokenKind} (h : pivot :: old <:+ tokens)
    (hstarts : startsWith kind tokens = true) (hkind : pivot.kind ≠ kind) :
    pivot :: old <:+ tokens.tail := by
  obtain ⟨token, rest, rfl, htoken⟩ := exists_of_startsWith hstarts
  rcases List.suffix_cons_iff.mp h with heq | hrest
  · obtain ⟨rfl, -⟩ := List.cons.inj heq
    exact absurd htoken hkind
  · exact hrest

theorem atEnd_regrow (h : pivot :: old <:+ tokens) :
    atEnd (regrow old new tokens) = atEnd tokens := by
  cases tokens with
  | nil => exact absurd h (by simp)
  | cons token rest => rw [regrow_cons h]; rfl

/-! ## Scans

A scan that does not pass the pivot is not changed by what is behind it. -/

section Scans

variable {passes : Token → Bool}

theorem suffix_dropWhile (hstops : passes pivot = false) (h : pivot :: old <:+ tokens) :
    pivot :: old <:+ tokens.dropWhile passes := by
  obtain ⟨front, rfl⟩ := h
  induction front with
  | nil => simp [hstops]
  | cons token front ih =>
    rw [List.cons_append, List.dropWhile_cons]
    split
    · exact ih
    · exact List.suffix_append (token :: front) _

theorem dropWhile_regrow (h : pivot :: old <:+ tokens.dropWhile passes) :
    (regrow old new tokens).dropWhile passes = regrow old new (tokens.dropWhile passes) := by
  induction tokens with
  | nil => exact absurd h (by simp)
  | cons token rest ih =>
    rw [regrow_cons (h.trans (List.dropWhile_suffix _))]
    rw [List.dropWhile_cons] at h
    rw [List.dropWhile_cons, List.dropWhile_cons]
    split at h
    next hpasses =>
      rw [if_pos hpasses, if_pos hpasses]
      exact ih h
    next hpasses =>
      rw [if_neg hpasses, if_neg hpasses]
      exact (regrow_cons h).symm

theorem afterNewlines_regrow (h : pivot :: old <:+ afterNewlines tokens) :
    afterNewlines (regrow old new tokens) = regrow old new (afterNewlines tokens) :=
  dropWhile_regrow h

theorem nextLine_regrow {width : Nat} (h : pivot :: old <:+ (nextLine width tokens).2) :
    nextLine width (regrow old new tokens) =
      ((nextLine width tokens).1, regrow old new (nextLine width tokens).2) := by
  induction tokens generalizing width with
  | nil => exact absurd h (by simp [nextLine])
  | cons token rest ih =>
    rw [regrow_cons (h.trans (nextLine_suffix width _))]
    rw [nextLine] at h
    rw [nextLine, nextLine]
    split at h
    next htab =>
      rw [if_pos htab, if_pos htab]
      exact ih h
    next htab =>
      rw [if_neg htab, if_neg htab]
      split at h
      next hnewline =>
        rw [if_pos hnewline, if_pos hnewline]
        exact ih h
      next hnewline =>
        rw [if_neg hnewline, if_neg hnewline]
        exact Prod.ext rfl (regrow_cons h).symm

theorem continuation?_regrow {width : Nat} (h : pivot :: old <:+ (nextLine 0 tokens).2) :
    continuation? width (regrow old new tokens) =
      (continuation? width tokens).map (regrow old new) := by
  rw [continuation?, continuation?, startsWith_regrow (h.trans (nextLine_suffix 0 _)),
    nextLine_regrow h]
  simp only [atEnd_regrow h]
  split
  · split <;> rfl
  · rfl

theorem continuation?_regrow_some {width : Nat} {next : List Token}
    (hnext : continuation? width tokens = some next) (h : pivot :: old <:+ next) :
    continuation? width (regrow old new tokens) = some (regrow old new next) := by
  have hline : pivot :: old <:+ (nextLine 0 tokens).2 := by
    rw [(nextLine_of_continuation? hnext).2]
    exact h
  rw [continuation?_regrow hline, hnext, Option.map_some]

end Scans

/-! ## Looking along a line

A token that is neither a tab nor a comment ends what is looked at on its
line. -/

section Line

variable (hpivot : pivot.kind.isTrivia = false)
include hpivot

theorem pivot_ne_tab : pivot.kind ≠ .tab := by
  intro hkind
  simp [hkind, TokenKind.isTrivia] at hpivot

variable (h : pivot :: old <:+ tokens)
include h

theorem suffix_afterTabs : pivot :: old <:+ afterTabs tokens :=
  suffix_dropWhile (by simpa using pivot_ne_tab hpivot) h

theorem suffix_afterTrivia : pivot :: old <:+ afterTrivia tokens := suffix_dropWhile hpivot h

theorem afterTabs_regrow :
    afterTabs (regrow old new tokens) = regrow old new (afterTabs tokens) :=
  dropWhile_regrow (suffix_afterTabs hpivot h)

theorem afterTrivia_regrow :
    afterTrivia (regrow old new tokens) = regrow old new (afterTrivia tokens) :=
  dropWhile_regrow (suffix_afterTrivia hpivot h)

theorem assigns_regrow : Parser.assigns (regrow old new tokens) = Parser.assigns tokens := by
  rw [Parser.assigns, Parser.assigns, afterTabs_regrow hpivot h,
    startsWith_regrow (suffix_afterTabs hpivot h)]

end Line

/-! ## Looking for the next line -/

/-- The next line is found in front of the pivot or at it, or the pivot is
a line end and the next line is behind it. -/
theorem nextLine_append_cons (hpivot : pivot.kind ≠ .tab) (front : List Token) (width : Nat) :
    (∀ behind, pivot :: behind <:+ (nextLine width (front ++ pivot :: behind)).2) ∨
      pivot.kind = .newline ∧
        ∀ behind, nextLine width (front ++ pivot :: behind) = nextLine 0 behind := by
  induction front generalizing width with
  | nil =>
    by_cases hnewline : pivot.kind = .newline
    · exact .inr ⟨hnewline, fun behind => nextLine_newline hnewline width behind⟩
    · exact .inl fun behind => by simp [nextLine, hpivot, hnewline]
  | cons token front ih =>
    simp only [List.cons_append, nextLine]
    split
    · exact ih (width + 1)
    split
    · exact ih 0
    · exact .inl fun behind => List.suffix_append (token :: front) _

theorem suffix_nextLine (hsolid : pivot.kind.isSolid = true) (h : pivot :: old <:+ tokens)
    (width : Nat) : pivot :: old <:+ (nextLine width tokens).2 := by
  obtain ⟨front, rfl⟩ := h
  have htab := pivot_ne_tab (TokenKind.isTrivia_of_isSolid hsolid)
  exact (nextLine_append_cons htab front width).elim (fun hline => hline old)
    fun hline => absurd hline.1 (TokenKind.ne_newline_of_isSolid hsolid)

/-- What is behind the token may be exchanged without a change to what is
read in front of it.  If the token is a line end, then the line that comes
to stand behind it goes on with no block that the old one did not go on
with. -/
structure Pivot (pivot : Token) (old new : List Token) : Prop where
  not_trivia : pivot.kind.isTrivia = false
  not_continued : ∀ width, continuation? width (pivot :: old) = none →
    continuation? width (pivot :: new) = none

theorem Pivot.ofSolid (hsolid : pivot.kind.isSolid = true) : Pivot pivot old new where
  not_trivia := TokenKind.isTrivia_of_isSolid hsolid
  not_continued width _ := by
    simp [continuation?, startsWith, TokenKind.ne_newline_of_isSolid hsolid]

/-- A block that ends in front of the pivot, or at it, still ends there. -/
theorem Pivot.not_continued_regrow (hpivot : Pivot pivot old new) (h : pivot :: old <:+ tokens)
    {width : Nat} (hnone : continuation? width tokens = none) :
    continuation? width (regrow old new tokens) = none := by
  obtain ⟨front, rfl⟩ := h
  rcases nextLine_append_cons (pivot_ne_tab hpivot.not_trivia) front 0 with hline | ⟨hkind, hline⟩
  · rw [continuation?_regrow (hline old), hnone, Option.map_none]
  · -- The next line is the first one behind the pivot, whatever is in front.
    have hpast (behind : List Token)
        (hnewline : startsWith .newline (front ++ pivot :: behind) = true) :
        continuation? width (front ++ pivot :: behind) =
          continuation? width (pivot :: behind) := by
      have hstart : startsWith .newline (pivot :: behind) = true := by simp [startsWith, hkind]
      simp only [continuation?, hnewline, hstart, hline, nextLine_newline hkind]
    have hstarts : startsWith .newline (regrow old new (front ++ pivot :: old)) =
        startsWith .newline (front ++ pivot :: old) :=
      startsWith_regrow (List.suffix_append front (pivot :: old)) .newline
    rw [regrow_append_cons] at hstarts ⊢
    cases hnewline : startsWith .newline (front ++ pivot :: old) with
    | true =>
      rw [hpast old hnewline] at hnone
      rw [hpast new (hstarts.trans hnewline)]
      exact hpivot.not_continued width hnone
    | false => simp [continuation?, hstarts, hnewline]

end Lookahead

/-! ## Readings and calls -/

section Runs

variable {limit : Nat} {mode : Mode} {context : Context} {pivot : Token}
  {old new tokens after : List Token} {nodes : List Node}

/-- What is read in front of a pivot does not depend on what is behind
it. -/
theorem Reads.regrow (hpivot : Pivot pivot old new)
    (h : Reads limit mode context tokens nodes after) (hafter : pivot :: old <:+ after) :
    Reads limit mode context (regrow old new tokens) nodes (regrow old new after) := by
  have htrivia := hpivot.not_trivia
  induction h with
  | @leaf _ token rest kind hkind hident =>
    rw [regrow_cons (hafter.trans (List.suffix_cons token rest))]
    refine .leaf kind hkind fun heq => ?_
    rw [assigns_regrow htrivia hafter]
    exact hident heq
  | @newline _ token rest hkind =>
    have hrest := hafter.trans (afterNewlines_suffix rest)
    rw [regrow_cons (hrest.trans (List.suffix_cons token rest)),
      ← afterNewlines_regrow hafter]
    exact .newline hkind
  | @skip _ token rest hkind hnewline =>
    rw [regrow_cons (hafter.trans (List.suffix_cons token rest))]
    exact .skip hkind hnewline
  | @lineFunction _ token rest _ _ hkind hnesting hline hbody ih =>
    have hrest := hafter.trans hbody.suffix
    rw [regrow_cons (hrest.trans (List.suffix_cons token rest))]
    refine .lineFunction hkind hnesting ?_ (ih hafter)
    rw [afterTabs_regrow htrivia hrest, startsWith_regrow (suffix_afterTabs htrivia hrest)]
    exact hline
  | @blockFunction _ token rest _ _ hkind hnesting hline hbody ih =>
    have hrest := hafter.trans hbody.suffix
    rw [regrow_cons (hrest.trans (List.suffix_cons token rest))]
    refine .blockFunction hkind hnesting ?_ (ih hafter)
    rw [afterTabs_regrow htrivia hrest, startsWith_regrow (suffix_afterTabs htrivia hrest)]
    exact hline
  | @returnExpression _ token rest _ _ hkind hnesting hbody ih =>
    have hrest := hafter.trans hbody.suffix
    rw [regrow_cons (hrest.trans (List.suffix_cons token rest))]
    exact .returnExpression hkind hnesting (ih hafter)
  | @assignment _ token rest _ _ hkind hnesting hassigns hbody ih =>
    have htail := hafter.trans hbody.suffix
    have hrest := (htail.trans (List.tail_suffix _)).trans (afterTabs_suffix rest)
    have hbody := ih hafter
    rw [regrow_tail htail, ← afterTabs_regrow htrivia hrest] at hbody
    rw [regrow_cons (hrest.trans (List.suffix_cons token rest))]
    exact .assignment hkind hnesting ((assigns_regrow htrivia hrest).trans hassigns) hbody
  | @operator _ token next rest more _ _ hkind hnesting hassigns hsymbol hnext hend hcloser
      hoperand ih =>
    have hmore := hafter.trans hoperand.suffix
    have hrest := hmore.trans (hnext ▸ afterTrivia_suffix rest)
    have hoperand := ih hafter
    rw [regrow_cons hmore] at hoperand
    rw [regrow_cons (hrest.trans (List.suffix_cons token rest))]
    refine .operator hkind hnesting ((assigns_regrow htrivia hrest).trans hassigns) hsymbol ?_
      hend hcloser hoperand
    rw [afterTrivia_regrow htrivia hrest, hnext, regrow_cons hmore]
  | @bracketed _ token rest _ _ bracket hkind hnesting hbody ih =>
    have hclosing := hafter.trans (List.tail_suffix _)
    have hrest := hclosing.trans hbody.suffix
    rw [regrow_cons (hrest.trans (List.suffix_cons token rest)), regrow_tail hafter]
    exact .bracketed bracket hkind hnesting (ih hclosing)
  | @lineIf _ token rest middle _ _ _ hkind hnesting hcondition hthen hbody ihcondition ihbody =>
    have htail := hafter.trans hbody.suffix
    have hmiddle := htail.trans (List.tail_suffix _)
    have hrest := hmiddle.trans hcondition.suffix
    have hbody := ihbody hafter
    rw [regrow_tail htail] at hbody
    rw [regrow_cons (hrest.trans (List.suffix_cons token rest))]
    exact .lineIf hkind hnesting (ihcondition hmiddle) ((startsWith_regrow hmiddle _).trans hthen)
      hbody
  | @blockIf _ token rest middle _ _ _ hkind hnesting hcondition hthen hbody ihcondition ihbody =>
    have hmiddle := hafter.trans hbody.suffix
    have hrest := hmiddle.trans hcondition.suffix
    rw [regrow_cons (hrest.trans (List.suffix_cons token rest))]
    exact .blockIf hkind hnesting (ihcondition hmiddle) ((startsWith_regrow hmiddle _).trans hthen)
      (ihbody hafter)
  | @lineElse _ token next rest more _ _ hkind hnesting hnext hend hbody ih =>
    have hmore := hafter.trans hbody.suffix
    have hrest := hmore.trans (hnext ▸ afterTabs_suffix rest)
    have hbody := ih hafter
    rw [regrow_cons hmore] at hbody
    rw [regrow_cons (hrest.trans (List.suffix_cons token rest))]
    refine .lineElse hkind hnesting ?_ hend hbody
    rw [afterTabs_regrow htrivia hrest, hnext, regrow_cons hmore]
  | @blockElse _ token rest _ _ hkind hnesting hline hbody ih =>
    have htabs := hafter.trans hbody.suffix
    have hrest := htabs.trans (afterTabs_suffix rest)
    have hbody := ih hafter
    rw [← afterTabs_regrow htrivia hrest] at hbody
    rw [regrow_cons (hrest.trans (List.suffix_cons token rest))]
    refine .blockElse hkind hnesting ?_ hbody
    rw [afterTabs_regrow htrivia hrest, startsWith_regrow htabs]
    exact hline
  | stop hstops =>
    rw [regrow_cons hafter]
    exact .stop hstops
  | step hstops hend hitem hmore ihitem ihmore =>
    have hmiddle := hafter.trans hmore.suffix
    have hread := ihitem hmiddle
    rw [regrow_cons (hmiddle.trans hitem.suffix)] at hread ⊢
    exact .step hstops hend hread (ihmore hafter)
  | lastLine _ hlast ih =>
    exact .lastLine (ih hafter) (hpivot.not_continued_regrow hafter hlast)
  | @moreLines _ width _ middle next _ _ _ hline hnext hmore ihline ihmore =>
    have hnextLine := hafter.trans hmore.suffix
    have hmiddle :=
      (hnextLine.trans (continuation?_suffix hnext).1).trans (List.tail_suffix middle)
    exact .moreLines (ihline hmiddle) (continuation?_regrow_some hnext hnextLine) (ihmore hafter)
  | @block _ tokens line _ width _ hline hbody ih =>
    have hbehind : pivot :: old <:+ (nextLine 0 tokens).2 := by
      rw [hline]
      exact hafter.trans hbody.suffix
    refine .block ?_ (ih hafter)
    rw [nextLine_regrow hbehind, hline]
  | done => exact absurd hafter (by simp)
  | statement hitem hmore ihitem ihmore =>
    have hmiddle := hafter.trans hmore.suffix
    have hread := ihitem hmiddle
    rw [regrow_cons (hmiddle.trans hitem.suffix)] at hread ⊢
    exact .statement hread (ihmore hafter)

/-- The end of the input is taken by itself only: an item that begins in
front of it leaves it unread, and so does all that stops before the end of
the tokens. -/
theorem Reads.last_suffix {last : Token} {rest : List Token}
    (h : Reads limit mode context tokens nodes after) (hlast : last.kind = .endOfInput)
    (hmode : mode ≠ .program) (htokens : last :: rest <:+ tokens)
    (hitem : mode = .item → last :: rest <:+ tokens.tail) : last :: rest <:+ after := by
  have hsolid : last.kind.isSolid = true := by
    rw [hlast]
    rfl
  have htrivia := TokenKind.isTrivia_of_isSolid hsolid
  induction h with
  | leaf | skip => exact hitem rfl
  | newline => exact suffix_dropWhile (by simp [hlast]) (hitem rfl)
  | lineFunction _ _ _ _ ih | blockFunction _ _ _ _ ih | returnExpression _ _ _ ih =>
    exact ih (by simp) (hitem rfl) (by simp)
  | assignment _ _ hassigns _ ih =>
    have htabs := suffix_afterTabs htrivia (hitem rfl)
    exact ih (by simp) (suffix_tail_of_startsWith htabs hassigns (by simp [hlast])) (by simp)
  | operator _ _ _ _ hnext hend _ _ ih =>
    have hoperand := suffix_afterTrivia htrivia (hitem rfl)
    rw [List.tail_cons, hnext] at hoperand
    refine ih (by simp) hoperand fun _ => ?_
    rcases List.suffix_cons_iff.mp hoperand with heq | hmore
    · obtain ⟨rfl, -⟩ := List.cons.inj heq
      simp [hlast, TokenKind.endsLine] at hend
    · exact hmore
  | bracketed bracket _ _ hbody ih =>
    have hclosing := ih (by simp) (hitem rfl) (by simp)
    obtain ⟨closing, behind, rfl, hkind⟩ := hbody.upTo_after
    have hstarts : startsWith (.closing bracket) (closing :: behind) = true := hkind
    exact suffix_tail_of_startsWith hclosing hstarts (by simp [hlast])
  | lineIf _ _ _ hthen _ ihcondition ihbody =>
    have hmiddle := ihcondition (by simp) (hitem rfl) (by simp)
    exact ihbody (by simp) (suffix_tail_of_startsWith hmiddle hthen (by simp [hlast])) (by simp)
  | blockIf _ _ _ _ _ ihcondition ihbody =>
    exact ihbody (by simp) (ihcondition (by simp) (hitem rfl) (by simp)) (by simp)
  | lineElse _ _ hnext _ _ ih =>
    exact ih (by simp) (hnext ▸ suffix_afterTabs htrivia (hitem rfl)) (by simp)
  | blockElse _ _ _ _ ih => exact ih (by simp) (suffix_afterTabs htrivia (hitem rfl)) (by simp)
  | stop => exact htokens
  | step _ hend _ _ ihitem ihmore =>
    refine ihmore (by simp) (ihitem (by simp) htokens fun _ => ?_) (by simp)
    rcases List.suffix_cons_iff.mp htokens with heq | hrest
    · obtain ⟨rfl, -⟩ := List.cons.inj heq
      exact absurd hlast hend
    · exact hrest
  | lastLine _ _ ih => exact ih (by simp) htokens (by simp)
  | moreLines _ hnext _ ihline ihmore =>
    have hmiddle := suffix_nextLine hsolid (ihline (by simp) htokens (by simp)) 0
    rw [(nextLine_of_continuation? hnext).2] at hmiddle
    exact ihmore (by simp) hmiddle (by simp)
  | block hline _ ih =>
    have hbody := suffix_nextLine hsolid htokens 0
    rw [hline] at hbody
    exact ih (by simp) hbody (by simp)
  | done | statement => exact absurd rfl hmode

/-- The moment with other tokens behind the pivot. -/
def Moment.regrow (old new : List Token) (moment : Moment) : Moment :=
  { moment with tokens := Flick.regrow old new moment.tokens }

/-- What a token opens depends on what is behind the pivot only if it
is that token. -/
theorem opened?_regrow {token : Token} {rest : List Token} (hpivot : Pivot pivot old new)
    (hopened : opened? pivot new = opened? pivot old) (h : pivot :: old <:+ token :: rest) :
    opened? token (regrow old new rest) = opened? token rest := by
  rcases List.suffix_cons_iff.mp h with heq | hrest
  · obtain ⟨rfl, rfl⟩ := List.cons.inj heq
    rw [regrow_self]
    exact hopened
  · rw [opened?, opened?, assigns_regrow hpivot.not_trivia hrest]

/-- The calls up to a pivot do not depend on what is behind it. -/
theorem Calls.regrow {moment next : Moment} (hpivot : Pivot pivot old new)
    (hopened : opened? pivot new = opened? pivot old) (h : Calls limit moment next)
    (hnext : pivot :: old <:+ next.tokens) :
    Calls limit (moment.regrow old new) (next.regrow old new) := by
  have htrivia := hpivot.not_trivia
  have htokens := hnext.trans h.suffix
  unfold Moment.regrow
  cases h with
  | enter hopens hnesting =>
    simp only [regrow_cons htokens]
    exact .enter ((opened?_regrow hpivot hopened htokens).trans hopens) hnesting
  | lineFunction hkind hline =>
    simp only [regrow_cons htokens]
    refine .lineFunction hkind ?_
    rw [afterTabs_regrow htrivia hnext, startsWith_regrow (suffix_afterTabs htrivia hnext)]
    exact hline
  | blockFunction hkind hline =>
    simp only [regrow_cons htokens]
    refine .blockFunction hkind ?_
    rw [afterTabs_regrow htrivia hnext, startsWith_regrow (suffix_afterTabs htrivia hnext)]
    exact hline
  | returnExpression hkind =>
    simp only [regrow_cons htokens]
    exact .returnExpression hkind
  | @assignment _ _ rest hkind hassigns =>
    have hrest := (hnext.trans (List.tail_suffix _)).trans (afterTabs_suffix rest)
    simp only [regrow_cons htokens]
    rw [regrow_tail hnext, ← afterTabs_regrow htrivia hrest]
    exact .assignment hkind ((assigns_regrow htrivia hrest).trans hassigns)
  | @operand _ _ _ rest _ hkind hassigns hsymbol hafter hend hcloser =>
    have hrest := hnext.trans (hafter ▸ afterTrivia_suffix rest)
    simp only [regrow_cons htokens, regrow_cons hnext]
    refine .operand hkind ((assigns_regrow htrivia hrest).trans hassigns) hsymbol ?_ hend hcloser
    rw [afterTrivia_regrow htrivia hrest, hafter, regrow_cons hnext]
  | bracketed bracket hkind =>
    simp only [regrow_cons htokens]
    exact .bracketed bracket hkind
  | condition hkind =>
    simp only [regrow_cons htokens]
    exact .condition hkind
  | lineIf hkind hcondition hthen =>
    have hmiddle := hnext.trans (List.tail_suffix _)
    simp only [regrow_cons htokens, regrow_tail hnext]
    exact .lineIf hkind (hcondition.regrow hpivot hmiddle)
      ((startsWith_regrow hmiddle _).trans hthen)
  | blockIf hkind hcondition hthen =>
    simp only [regrow_cons htokens]
    exact .blockIf hkind (hcondition.regrow hpivot hnext) ((startsWith_regrow hnext _).trans hthen)
  | @lineElse _ _ _ rest _ hkind hafter hend =>
    have hrest := hnext.trans (hafter ▸ afterTabs_suffix rest)
    simp only [regrow_cons htokens, regrow_cons hnext]
    refine .lineElse hkind ?_ hend
    rw [afterTabs_regrow htrivia hrest, hafter, regrow_cons hnext]
  | @blockElse _ _ rest hkind hline =>
    have hrest := hnext.trans (afterTabs_suffix rest)
    simp only [regrow_cons htokens, ← afterTabs_regrow htrivia hrest]
    refine .blockElse hkind ?_
    rw [afterTabs_regrow htrivia hrest, startsWith_regrow hnext]
    exact hline
  | turn hstops hend =>
    simp only [regrow_cons htokens]
    exact .turn hstops hend
  | furtherTurn hstops hend hitem =>
    have hread : Reads limit .item _ (Flick.regrow old new _) _ _ := hitem.regrow hpivot hnext
    simp only [regrow_cons htokens] at hread ⊢
    exact .furtherTurn hstops hend hread
  | line => exact .line
  | @furtherLine _ _ width _ middle _ _ hline hcontinues =>
    have hmiddle :=
      (hnext.trans (continuation?_suffix hcontinues).1).trans (List.tail_suffix middle)
    exact .furtherLine (hline.regrow hpivot hmiddle) (continuation?_regrow_some hcontinues hnext)
  | @block context construct tokens =>
    have hcall : Calls limit ⟨.block construct, context, Flick.regrow old new tokens⟩ _ := .block
    rw [nextLine_regrow hnext] at hcall
    exact hcall
  | statement =>
    simp only [regrow_cons htokens]
    exact .statement
  | furtherStatement hitem =>
    have hread : Reads limit .item _ (Flick.regrow old new _) _ _ := hitem.regrow hpivot hnext
    simp only [regrow_cons htokens] at hread ⊢
    exact .furtherStatement hread

/-- The moments up to a pivot do not depend on what is behind it. -/
theorem Reaches.regrow {moment last : Moment} (hpivot : Pivot pivot old new)
    (hopened : opened? pivot new = opened? pivot old) (h : Reaches limit moment last)
    (hlast : pivot :: old <:+ last.tokens) :
    Reaches limit (moment.regrow old new) (last.regrow old new) := by
  induction h with
  | refl => exact .refl
  | tail _ hcall ih =>
    exact .tail (ih (hlast.trans hcall.suffix)) (hcall.regrow hpivot hopened hlast)

end Runs

/-! ## Final errors

An error that is not about the end of the input is found at a token that
opens a construct.  Everything up to that token has been settled by then,
and the token itself looks no further than to its own line. -/

/-- A token of two lists in a row stands in the second one, or it stands in
the first one and all of the second one is behind it. -/
theorem cons_suffix_append {token : Token} {rest front ending : List Token}
    (h : token :: rest <:+ front ++ ending) :
    token :: rest <:+ ending ∨ ∃ mid, rest = mid ++ ending ∧ token :: mid <:+ front := by
  rcases List.suffix_or_suffix_of_suffix h (List.suffix_append front ending) with hin | ⟨mid, hmid⟩
  · exact .inl hin
  · cases mid with
    | nil => exact .inl (hmid ▸ List.suffix_refl _)
    | cons next mid =>
      obtain ⟨rfl, rfl⟩ := List.cons.inj hmid
      exact .inr ⟨mid, rfl, List.suffix_append_self_iff.mp h⟩

/-- Whether the error is about the tokens, and not about their end. -/
def ParseError.isFinal : ParseError → Bool
  | .unexpectedEnd _ => false
  | .missingOperand _ | .nestingTooDeep _ => true

/-- The tokens open no constructs. -/
def Inert (tokens : List Token) : Prop :=
  ∀ token ∈ tokens, ∀ rest, opened? token rest = none

theorem isSolid_of_opened? {token : Token} {rest : List Token} {construct : Construct}
    (h : opened? token rest = some construct) : token.kind.isSolid = true := by
  cases hkind : token.kind <;> simp_all [opened?, TokenKind.isSolid]

theorem Stuck.exists_opened {limit : Nat} {moment : Moment} {fault : Fault}
    (h : Stuck limit moment fault) (hfinal : fault.error.isFinal = true) :
    ∃ token rest construct, moment.tokens = token :: rest ∧
      opened? token rest = some construct := by
  have hoperator {token : Token} {rest : List Token} (hkind : token.kind = .ident)
      (hassigns : Parser.assigns rest = false) (hsymbol : token.text ∈ prefixOperators) :
      opened? token rest = some .operand := by
    simp [opened?, hkind, hassigns, hsymbol]
  cases h with
  | tooDeep hopened => exact ⟨_, _, _, rfl, hopened⟩
  | noOperand hkind hassigns hsymbol => exact ⟨_, _, _, rfl, hoperator hkind hassigns hsymbol⟩
  | emptyOperand hkind hassigns hsymbol => exact ⟨_, _, _, rfl, hoperator hkind hassigns hsymbol⟩
  | noItem | noTurn | ended | endedOperand | endedElse => cases hfinal

section Endings

variable {limit : Nat} {front rest others : List Token} {first other : Token}

/-- A name is not assigned to by what follows its line. -/
theorem assigns_append_cons (hfirst : first.kind ≠ .tab ∧ first.kind ≠ .assign)
    (hother : other.kind ≠ .tab ∧ other.kind ≠ .assign) :
    Parser.assigns (front ++ first :: rest) = Parser.assigns (front ++ other :: others) := by
  unfold Parser.assigns afterTabs
  rw [List.dropWhile_append, List.dropWhile_append]
  cases front.dropWhile (·.kind == .tab) with
  | nil =>
    simp [startsWith, beq_eq_false_iff_ne.mpr hfirst.1, beq_eq_false_iff_ne.mpr hfirst.2,
      beq_eq_false_iff_ne.mpr hother.1, beq_eq_false_iff_ne.mpr hother.2]
  | cons next more => simp [startsWith]

theorem opened?_append_cons (hfirst : first.kind ≠ .tab ∧ first.kind ≠ .assign)
    (hother : other.kind ≠ .tab ∧ other.kind ≠ .assign) (token : Token) :
    opened? token (front ++ first :: rest) = opened? token (front ++ other :: others) := by
  rw [opened?, opened?, assigns_append_cons hfirst hother]

/-- The token after an operator and its tabs and comments is found in front
of an ending, or it is the first one of the ending. -/
theorem afterTrivia_append_cons (hfirst : first.kind.isTrivia = false) :
    (∃ next more, ∀ ending, afterTrivia (front ++ ending) = next :: (more ++ ending)) ∨
      afterTrivia (front ++ first :: rest) = first :: rest := by
  unfold afterTrivia
  simp only [List.dropWhile_append]
  cases front.dropWhile (·.kind.isTrivia) with
  | nil => exact .inr (by simp [hfirst])
  | cons next more => exact .inl ⟨next, more, fun ending => rfl⟩

/-- A final error that is found in front of an ending is found in front of
any other one. -/
theorem Stuck.changeEnding {task : Task} {context : Context} {token : Token} {fault : Fault}
    (hfirst : first.kind = .number ∨ first.kind = .endOfInput)
    (hother : other.kind ≠ .tab ∧ other.kind ≠ .assign)
    (h : Stuck limit ⟨task, context, token :: (front ++ first :: rest)⟩ fault)
    (hfinal : fault.error.isFinal = true) :
    ∃ fault', fault'.error = fault.error ∧
      Stuck limit ⟨task, context, token :: (front ++ other :: others)⟩ fault' := by
  have hplain : first.kind ≠ .tab ∧ first.kind ≠ .assign := by
    rcases hfirst with hkind | hkind <;> simp [hkind]
  have htrivia : first.kind.isTrivia = false := by
    rcases hfirst with hkind | hkind <;> simp [hkind, TokenKind.isTrivia]
  have hsame :
      Parser.assigns (front ++ other :: others) = Parser.assigns (front ++ first :: rest) :=
    assigns_append_cons hother hplain
  cases h with
  | tooDeep hopened hnesting =>
    refine ⟨_, ?_, .tooDeep ((opened?_append_cons hplain hother token).symm.trans hopened) hnesting⟩
    rfl
  | noOperand hkind hassigns hsymbol hnext hstop =>
    replace hassigns := hsame.trans hassigns
    rcases afterTrivia_append_cons htrivia with ⟨next, more, hafter⟩ | hafter
    · obtain ⟨rfl, -⟩ := List.cons.inj ((hafter _).symm.trans hnext)
      refine ⟨_, ?_, .noOperand hkind hassigns hsymbol (hafter _) hstop⟩
      rfl
    · -- A number or the end of the input is no line end and no bracket.
      obtain ⟨rfl, -⟩ := List.cons.inj (hafter.symm.trans hnext)
      exfalso
      rcases hfirst with hfirst | hfirst <;> simp only [hfirst, Context.closes] at hstop <;>
        split at hstop <;> simp at hstop
  | emptyOperand hkind hassigns hsymbol hnext hend hcloser hitem =>
    replace hassigns := hsame.trans hassigns
    rcases afterTrivia_append_cons htrivia with ⟨next, more, hafter⟩ | hafter
    · obtain ⟨rfl, rfl⟩ := List.cons.inj ((hafter _).symm.trans hnext)
      have hskip : Reads limit .item context (next :: (more ++ other :: others)) []
          (more ++ other :: others) := by
        cases hitem with
        | newline hnewline => simp [hnewline, TokenKind.endsLine] at hend
        | skip hcontent hnewline => exact .skip hcontent hnewline
      refine ⟨_, ?_, .emptyOperand hkind hassigns hsymbol (hafter _) hend hcloser hskip⟩
      rfl
    · -- A number makes a node, and the end of the input ends the line.
      obtain ⟨rfl, -⟩ := List.cons.inj (hafter.symm.trans hnext)
      rcases hfirst with hfirst | hfirst
      · have hnodes := ((Reads.leaf_iff .number hfirst (by simp)).mp hitem).1
        cases hnodes
      · simp [hfirst, TokenKind.endsLine] at hend
  | ended | endedOperand | endedElse => cases hfinal

/-- A run that ends with a final error in front of an ending ends so in
front of any other one. -/
theorem Fails.changeEnding {task : Task} {context : Context} {fault : Fault}
    (hinert : Inert (first :: rest)) (hfirst : first.kind = .number ∨ first.kind = .endOfInput)
    (hother : other.kind ≠ .tab ∧ other.kind ≠ .assign)
    (h : Fails limit ⟨task, context, front ++ first :: rest⟩ fault)
    (hfinal : fault.error.isFinal = true) :
    ∃ fault', fault'.error = fault.error ∧
      Fails limit ⟨task, context, front ++ other :: others⟩ fault' := by
  obtain ⟨⟨lastTask, lastContext, lastTokens⟩, hreaches, hstuck⟩ := h
  obtain ⟨token, behind, construct, rfl, hopened⟩ := hstuck.exists_opened hfinal
  have hnot : token ∉ first :: rest := by
    intro hmem
    rw [hinert token hmem] at hopened
    cases hopened
  -- The token stands in front of the ending, with `mid` in between.
  obtain ⟨mid, rfl, before, rfl⟩ :=
    (cons_suffix_append hreaches.suffix).resolve_left fun hsuffix =>
      hnot (hsuffix.subset List.mem_cons_self)
  have hplain : first.kind ≠ .tab ∧ first.kind ≠ .assign := by
    rcases hfirst with hkind | hkind <;> simp [hkind]
  have hopens : opened? token (mid ++ other :: others) = opened? token (mid ++ first :: rest) :=
    opened?_append_cons hother hplain token
  have hsolid := isSolid_of_opened? hopened
  have hmoments := hreaches.regrow (.ofSolid hsolid) hopens (List.suffix_refl _)
  obtain ⟨fault', herror, hstuck'⟩ := hstuck.changeEnding hfirst hother hfinal
  simp only [Moment.regrow, List.append_assoc, List.cons_append, regrow_append_cons before,
    regrow_cons (List.suffix_refl (token :: (mid ++ first :: rest)))] at hmoments
  rw [regrow_self] at hmoments
  refine ⟨fault', herror, _, ?_, hstuck'⟩
  rwa [List.append_assoc, List.cons_append]

/-- A token list that fails with a final error in front of an ending fails
with it in front of any other one. -/
theorem parse_changeEnding {error : ParseError} (hinert : Inert (first :: rest))
    (hfirst : first.kind = .number ∨ first.kind = .endOfInput)
    (hother : other.kind ≠ .tab ∧ other.kind ≠ .assign) (hfinal : error.isFinal = true)
    (h : parse (front ++ first :: rest) = .error error) :
    parse (front ++ other :: others) = .error error := by
  obtain ⟨fault, rfl, hfails⟩ := parse_eq_error_iff.mp h
  obtain ⟨fault', herror, hfails'⟩ := hfails.changeEnding hinert hfirst hother hfinal
  exact parse_eq_error_iff.mpr ⟨fault', herror, hfails'⟩

end Endings

end Flick
