import Flick.Proofs.Brackets
import Flick.Proofs.NestingLimit
import Flick.Proofs.Statements

/-!
# Branches on one line

`if c then b else d` is two statements, an `if` and an `else`.  The words
`then` and `else` end the condition and the first branch, but only the `if`
itself looks for them.  A function, a return or an assignment runs to the
end of its line, or to the bracket that closes the group it is in, and it
takes a `then` or an `else` that stands in between.

So the two statements are the expected ones exactly if every construct of
the condition and of the first branch that runs on is inside of brackets.
`Contained` says this of the tokens.  For each item of a phrase there are
two cases (`Reads.phrase_item`): the item is read the same in front of any
token, or it is no item of a contained phrase and ends at a line end,
whatever is put behind the phrase.
-/

namespace Flick

open Layout Node

/-- Whether the token begins a construct that runs to the end of its
line. -/
def runsOn (token : Token) (rest : List Token) : Bool :=
  match token.kind with
  | .arrow | .returnMark => true
  | .ident => Parser.assigns rest
  | _ => false

/-- Whether nothing in the tokens runs to the end of the line, inside of so
many open brackets at the front. -/
def containedAt (brackets : Nat) : List Token → Bool
  | [] => true
  | token :: rest =>
    match token.kind with
    | .opening _ => containedAt (brackets + 1) rest
    | .closing _ => containedAt (brackets - 1) rest
    | _ => (brackets != 0 || !runsOn token rest) && containedAt brackets rest

/-- All that would run to the end of the line stands in brackets. -/
def Contained (tokens : List Token) : Prop := containedAt 0 tokens = true

instance (tokens : List Token) : Decidable (Contained tokens) :=
  inferInstanceAs (Decidable (_ = true))

section Containment

variable {token closing : Token} {inner rest : List Token} {brackets : Nat} {bracket : Bracket}

theorem containedAt_cons (hkind : token.kind.isBracket = false) :
    containedAt brackets (token :: rest) =
      ((brackets != 0 || !runsOn token rest) && containedAt brackets rest) := by
  rw [containedAt]
  split
  next hopening => simp [hopening, TokenKind.isBracket] at hkind
  next hclosing => simp [hclosing, TokenKind.isBracket] at hkind
  · rfl

theorem containedAt_opening (hkind : token.kind = .opening bracket) :
    containedAt brackets (token :: rest) = containedAt (brackets + 1) rest := by
  simp [containedAt, hkind]

theorem containedAt_closing (hkind : token.kind = .closing bracket) :
    containedAt brackets (token :: rest) = containedAt (brackets - 1) rest := by
  simp [containedAt, hkind]

/-- Nothing inside of brackets counts. -/
theorem Balanced.containedAt_append (h : Balanced inner) (brackets : Nat) (rest : List Token) :
    containedAt (brackets + 1) (inner ++ rest) = containedAt (brackets + 1) rest := by
  induction h generalizing brackets rest with
  | nil => rfl
  | token hkind _ ih =>
    rw [List.cons_append, containedAt_cons hkind, ih]
    rfl
  | group bracket hopening hclosing _ _ ihinner ihrest =>
    rw [List.cons_append, List.append_assoc, List.cons_append, containedAt_opening hopening,
      ihinner, containedAt_closing hclosing, Nat.add_sub_cancel, ihrest]

theorem contained_group (hopening : token.kind = .opening bracket)
    (hclosing : closing.kind = .closing bracket) (hinner : Balanced inner) :
    Contained (token :: (inner ++ closing :: rest)) ↔ Contained rest := by
  rw [Contained, Contained, containedAt_opening hopening, hinner.containedAt_append,
    containedAt_closing hclosing, Nat.add_sub_cancel]

theorem contained_cons (hkind : token.kind.isBracket = false) :
    Contained (token :: rest) ↔ runsOn token rest = false ∧ Contained rest := by
  rw [Contained, Contained, containedAt_cons hkind]
  simp

theorem runsOn_of_isTrivia (h : token.kind.isTrivia = true) : runsOn token rest = false := by
  unfold runsOn
  cases hkind : token.kind <;> simp_all [TokenKind.isTrivia]

theorem contained_afterTrivia (tokens : List Token) :
    Contained (afterTrivia tokens) ↔ Contained tokens := by
  induction tokens with
  | nil => exact Iff.rfl
  | cons token rest ih =>
    rw [afterTrivia, List.dropWhile_cons]
    split
    next htrivia =>
      have hbracket : token.kind.isBracket = false := by
        cases hkind : token.kind <;> simp_all [TokenKind.isTrivia, TokenKind.isBracket]
      rw [contained_cons hbracket, runsOn_of_isTrivia htrivia]
      exact ih.trans (by simp)
    · exact Iff.rfl

end Containment

/-! ## One item -/

/-- The token ends what is looked at in front of it, and assigns to
nothing. -/
structure Ends (token : Token) : Prop where
  solid : token.kind.isSolid = true
  not_assign : token.kind ≠ .assign

namespace Ends

variable {other : Token} {front others : List Token}

theorem assigns_append (h : Ends other) :
    Parser.assigns (front ++ other :: others) = Parser.assigns front := by
  rw [Parser.assigns, afterTabs_append h.solid, Parser.assigns]
  cases afterTabs front with
  | nil => simp [startsWith, h.not_assign]
  | cons token rest => rfl

theorem runsOn_append (h : Ends other) (token : Token) :
    runsOn token (front ++ other :: others) = runsOn token front := by
  unfold runsOn
  rw [h.assigns_append]

theorem of_endOfInput (hkind : other.kind = .endOfInput) : Ends other where
  solid := by simp [hkind, TokenKind.isSolid]
  not_assign := by simp [hkind]

end Ends

/-- The tokens begin where a line ends. -/
def BeginsWithLineEnd (tokens : List Token) : Prop :=
  ∃ token rest, tokens = token :: rest ∧ token.kind.endsLine = true

section Items

variable {limit : Nat} {context : Context} {rest after phrase : List Token} {nodes : List Node}
  {token last : Token}

/-- Outside of brackets, what runs on ends with its line. -/
theorem Reads.runsOn_after (h : Reads limit .item context (token :: rest) nodes after)
    (hruns : runsOn token rest = true) (hcloser : context.closer = none) :
    BeginsWithLineEnd after := by
  have hstops {inner : Context} (hinner : inner.closer = context.closer)
      (hafter : ∃ token rest, after = token :: rest ∧ inner.stopsLine [] token.kind = true) :
      BeginsWithLineEnd after := by
    obtain ⟨token, rest, rfl, hstop⟩ := hafter
    rw [hcloser] at hinner
    exact ⟨token, rest, rfl, by simpa [Context.stopsLine, Context.closes, hinner] using hstop⟩
  unfold runsOn at hruns
  cases h with
  | lineFunction _ _ _ hbody | returnExpression _ _ hbody | assignment _ _ _ hbody =>
    exact hstops rfl hbody.upTo_after
  | blockFunction _ _ _ hbody => exact hstops rfl hbody.block_after
  | leaf kind hkind hident => cases kind <;> simp_all [Leaf.tokenKind]
  | skip hkind => cases htoken : token.kind <;> simp_all [TokenKind.isContent]
  | newline hkind | operator hkind | bracketed _ hkind | lineIf hkind | blockIf hkind
  | lineElse hkind | blockElse hkind => simp_all

/-- What becomes of an item of a phrase if other tokens are put behind the
phrase: it is read as it was, or it runs to the end of its line. -/
inductive Reread (limit : Nat) (context : Context) (phrase : List Token) (nodes : List Node) :
    Prop where
  | same (left : List Token) (hleft : Phrase left)
      (hcontained : Contained phrase ↔ Contained left)
      (hread : ∀ other others, Ends other →
        Reads limit .item context (phrase ++ other :: others) nodes (left ++ other :: others))
  | runs (hcontained : ¬ Contained phrase)
      (hends : ∀ other others nodes after, Ends other →
        Reads limit .item context (phrase ++ other :: others) nodes after →
        BeginsWithLineEnd after)

/-- A token by itself, which opens nothing. -/
theorem Reread.single (hphrase : Phrase (token :: rest)) (hkind : token.kind.isBracket = false)
    (hruns : runsOn token rest = false)
    (hread : ∀ other others, Ends other →
      Reads limit .item context (token :: (rest ++ other :: others)) nodes
        (rest ++ other :: others)) :
    Reread limit context (token :: rest) nodes := by
  refine .same rest (hphrase.tail fun bracket hopening => ?_) ?_ hread
  · simp [hopening, TokenKind.isBracket] at hkind
  · rw [contained_cons hkind]
    exact and_iff_right hruns

theorem Reread.ofRunsOn (hkind : token.kind.isBracket = false) (hruns : runsOn token rest = true)
    (hcloser : context.closer = none) : Reread limit context (token :: rest) nodes := by
  refine .runs ?_ fun other others nodes after hother h => ?_
  · rw [contained_cons hkind]
    simp [hruns]
  · exact h.runsOn_after ((hother.runsOn_append token).trans hruns) hcloser

/-- An operator is reread as its operand is. -/
theorem Reread.operator {next : Token} {more : List Token} {operand : Node}
    (hkind : token.kind = .ident) (hnesting : context.nesting < limit)
    (hassigns : Parser.assigns rest = false) (hsymbol : token.text ∈ prefixOperators)
    (hnext : afterTrivia rest = next :: more) (hend : next.kind.endsLine = false)
    (hcloser : context.closes next.kind = false)
    (h : Reread limit context.nest (next :: more) [operand]) :
    Reread limit context (token :: rest) [.operator token.text operand] := by
  have hbehind {other : Token} {others : List Token} (hother : Ends other) :
      afterTrivia (rest ++ other :: others) = next :: (more ++ other :: others) := by
    rw [afterTrivia_append hother.solid, hnext]
    rfl
  have hoperand : Contained (token :: rest) ↔ Contained (next :: more) := by
    rw [contained_cons (by simp [hkind, TokenKind.isBracket]), ← hnext, contained_afterTrivia]
    exact and_iff_right (by simp [runsOn, hkind, hassigns])
  cases h with
  | same left hleft hcontained hread =>
    refine .same left hleft (hoperand.trans hcontained) fun other others hother => ?_
    exact .operator hkind hnesting (hother.assigns_append.trans hassigns) hsymbol (hbehind hother)
      hend hcloser (hread other others hother)
  | runs hcontained hends =>
    refine .runs (fun hwhole => hcontained (hoperand.mp hwhole)) ?_
    intro other others _ after hother h
    obtain ⟨-, -, -, operand, -, first, behind, hfirst, -, -, hitem⟩ :=
      (Reads.operator_iff hkind (hother.assigns_append.trans hassigns) hsymbol).mp h
    obtain ⟨rfl, rfl⟩ := List.cons.inj ((hbehind hother).symm.trans hfirst)
    exact hends other others _ after hother hitem

/-- An item that is read in a phrase at the end of the input. -/
theorem Reads.phrase_item (h : Reads limit .item context (phrase ++ [last]) nodes after)
    (hphrase : Phrase phrase) (hne : phrase ≠ []) (hcloser : context.closer = none)
    (hlast : last.kind = .endOfInput) : Reread limit context phrase nodes := by
  have hends : Ends last := .of_endOfInput hlast
  generalize hmode : Mode.item = mode at h
  generalize htokens : phrase ++ [last] = tokens at h
  induction h generalizing phrase with
  | leaf kind hkind hident =>
    obtain ⟨more, rfl, rfl⟩ := exists_cons_of_append hne htokens.symm
    simp only [hends.assigns_append] at hident
    refine .single hphrase ?_ ?_ fun other others hother => ?_
    · cases kind <;> simp [hkind, Leaf.tokenKind, TokenKind.isBracket]
    · cases kind <;> simp_all [runsOn, Leaf.tokenKind]
    · refine .leaf kind hkind fun hleaf => ?_
      rw [hother.assigns_append]
      exact hident hleaf
  | skip hkind hnewline =>
    obtain ⟨more, rfl, rfl⟩ := exists_cons_of_append hne htokens.symm
    have hclosing := hphrase.ne_closing
    refine .single hphrase ?_ ?_ fun other others _ => .skip hkind hnewline
    · cases htoken : Token.kind _ <;> simp_all [TokenKind.isContent, TokenKind.isBracket]
    · unfold runsOn
      cases htoken : Token.kind _ <;> simp_all [TokenKind.isContent]
  | lineFunction hkind | blockFunction hkind | returnExpression hkind =>
    obtain ⟨more, rfl, rfl⟩ := exists_cons_of_append hne htokens.symm
    exact .ofRunsOn (by simp [hkind, TokenKind.isBracket]) (by simp [runsOn, hkind]) hcloser
  | assignment hkind _ hassigns =>
    obtain ⟨more, rfl, rfl⟩ := exists_cons_of_append hne htokens.symm
    rw [hends.assigns_append] at hassigns
    refine .ofRunsOn (by simp [hkind, TokenKind.isBracket]) ?_ hcloser
    simp [runsOn, hkind, hassigns]
  | operator hkind hnesting hassigns hsymbol hnext hend hnot _ ih =>
    obtain ⟨more, rfl, rfl⟩ := exists_cons_of_append hne htokens.symm
    rw [afterTrivia_append hends.solid] at hnext
    rw [hends.assigns_append] at hassigns
    have hoperand : afterTrivia more ≠ [] := by
      intro hempty
      rw [hempty, List.nil_append] at hnext
      obtain ⟨rfl, -⟩ := List.cons.inj hnext
      simp [hlast, TokenKind.endsLine] at hend
    obtain ⟨behind, hbehind, -⟩ := exists_cons_of_append hoperand hnext.symm
    have hrest := (hphrase.tail (by simp [hkind])).afterTrivia
    rw [hbehind] at hrest hnext
    exact .operator hkind hnesting hassigns hsymbol hbehind hend hnot
      (ih hrest (by simp) hcloser rfl hnext)
  | bracketed bracket hkind hnesting hbody =>
    obtain ⟨more, rfl, rfl⟩ := exists_cons_of_append hne htokens.symm
    obtain ⟨inner, closing, behind, rfl, hclosing, hinner, hbehind⟩ := hphrase.exists_group hkind
    rw [List.append_assoc, List.cons_append] at hbody
    obtain ⟨-, hgroup⟩ := hbody.group hinner hclosing
    refine .same behind hbehind (contained_group hkind hclosing hinner.balanced) ?_
    intro other others _
    rw [List.cons_append, List.append_assoc, List.cons_append]
    exact .bracketed bracket hkind hnesting (hgroup _)
  | newline hkind | lineIf hkind | blockIf hkind | lineElse hkind | blockElse hkind =>
    obtain ⟨more, rfl, rfl⟩ := exists_cons_of_append hne htokens.symm
    have hinline := hphrase.inline _ List.mem_cons_self
    simp [hkind, TokenKind.isInline] at hinline
  | stop | step | lastLine | moreLines | block | done | statement => cases hmode

end Items

/-! ## Whole phrases -/

/-- No token of a phrase stops the reading, and a line end does. -/
structure StopsBehind (stops : TokenKind → Bool) : Prop where
  inline : ∀ kind : TokenKind, kind.isInline = true → stops kind = false
  newline : stops .newline = true

theorem stopsBehind_endsCondition : StopsBehind endsCondition where
  inline kind hkind := by cases kind <;> simp_all [TokenKind.isInline, endsCondition]
  newline := rfl

theorem stopsBehind_stopsLine {context : Context} (hcloser : context.closer = none) :
    StopsBehind (context.stopsLine [.elseWord]) where
  inline kind hkind := by
    cases kind <;> simp_all [TokenKind.isInline, Context.stopsLine, Context.closes,
      TokenKind.endsLine]
  newline := rfl

section Phrases

variable {limit : Nat} {context : Context} {phrase others after : List Token} {nodes : List Node}
  {last other : Token} {stops : TokenKind → Bool}

/-- What stops at a line end does not go past one. -/
theorem Reads.beginsWithLineEnd {tokens : List Token} (hstops : StopsBehind stops)
    (h : Reads limit (.upTo stops) context tokens nodes after)
    (htokens : BeginsWithLineEnd tokens) : BeginsWithLineEnd after := by
  obtain ⟨token, rest, rfl, hkind⟩ := htokens
  cases h with
  | stop => exact ⟨token, rest, rfl, hkind⟩
  | step hgoes hend =>
    have hnewline : token.kind = .newline := by
      cases htoken : token.kind <;> simp_all [TokenKind.endsLine]
    rw [hnewline, hstops.newline] at hgoes
    cases hgoes

/-- A phrase with a program of its own has the same nodes in front of a
token that stops it, if it is contained.  If it is not, then whatever is
read there reaches a line end. -/
theorem Reads.phrase_upTo (h : Reads limit .program context (phrase ++ [last]) nodes [])
    (hphrase : Phrase phrase) (hcloser : context.closer = none) (hlast : last.kind = .endOfInput)
    (hstops : StopsBehind stops) (hother : Ends other) :
    (Contained phrase → stops other.kind = true →
      Reads limit (.upTo stops) context (phrase ++ other :: others) nodes (other :: others)) ∧
    (¬ Contained phrase → ∀ nodes after,
      Reads limit (.upTo stops) context (phrase ++ other :: others) nodes after →
      BeginsWithLineEnd after) := by
  generalize hmode : Mode.program = mode at h
  generalize htokens : phrase ++ [last] = tokens at h
  generalize hempty : ([] : List Token) = after at h
  induction h generalizing phrase with
  | done => simp at htokens
  | @statement context token rest middle after nodes more hitem hmore _ ih =>
    subst hempty
    cases phrase with
    | nil =>
      obtain ⟨rfl, rfl⟩ := List.cons.inj htokens
      have hnodes := reads_last hlast List.suffix_rfl (.statement hitem hmore)
      rw [hnodes]
      exact ⟨fun _ hstop => .stop hstop, fun hnot => absurd rfl hnot⟩
    | cons first phrase =>
      obtain ⟨rfl, rfl⟩ := List.cons.inj htokens
      have hgoes := hstops.inline _ (hphrase.inline _ List.mem_cons_self)
      have hend : first.kind ≠ .endOfInput := by
        intro hkind
        have hinline := hphrase.inline _ List.mem_cons_self
        simp [hkind, TokenKind.isInline] at hinline
      cases Reads.phrase_item hitem hphrase (by simp) hcloser hlast with
      | same left hleft hcontained hread =>
        obtain ⟨-, rfl⟩ := hitem.item_unique (hread last [] (.of_endOfInput hlast))
        obtain ⟨hstop, hreach⟩ := ih hleft hcloser rfl rfl rfl
        rw [hcontained]
        refine ⟨fun hleft hkind => ?_, fun hleft others' after h => ?_⟩
        · exact .step hgoes hend (hread other others hother) (hstop hleft hkind)
        · cases h with
          | stop hstop => simp [hgoes] at hstop
          | step _ _ hfirst hmore =>
            obtain ⟨-, rfl⟩ := hfirst.item_unique (hread other others hother)
            exact hreach hleft _ after hmore
      | runs hcontained hends =>
        refine ⟨fun hwhole => absurd hwhole hcontained, fun _ others' after h => ?_⟩
        cases h with
        | stop hstop => simp [hgoes] at hstop
        | step _ _ hfirst hmore =>
          exact hmore.beginsWithLineEnd hstops (hends other others _ _ hother hfirst)
  | _ => cases hmode

/-- A line end of a single line is its last token. -/
theorem eq_last_of_endsLine {token : Token} {front rest : List Token}
    (hfront : ∀ other ∈ front, other.kind.endsLine = false) (htoken : token.kind.endsLine = true)
    (h : token :: rest <:+ front ++ [last]) : token = last ∧ rest = [] := by
  rcases cons_suffix_append h with hlast | ⟨mid, -, hmem⟩
  · rcases List.suffix_cons_iff.mp hlast with heq | hnil
    · exact List.cons.inj heq
    · exact absurd hnil (by simp)
  · have hnot := hfront token (hmem.subset List.mem_cons_self)
    rw [htoken] at hnot
    cases hnot

/-- A program that is one line is read as the rest of a line. -/
theorem Reads.line_of_program {tokens front : List Token}
    (h : Reads limit .program context tokens nodes []) (hcloser : context.closer = none)
    (hlast : last.kind = .endOfInput) (hfront : ∀ token ∈ front, token.kind.endsLine = false)
    (hsuffix : tokens <:+ front ++ [last]) (htokens : [last] <:+ tokens) :
    Reads limit (.upTo (context.stopsLine [])) context tokens nodes [last] := by
  have hstops (kind : TokenKind) : context.stopsLine [] kind = kind.endsLine := by
    simp [Context.stopsLine, Context.closes, hcloser]
  generalize hmode : Mode.program = mode at h
  generalize hempty : ([] : List Token) = after at h
  induction h with
  | done => exact absurd htokens (by simp)
  | @statement context token rest middle after nodes more hitem hmore _ ih =>
    subst hempty
    cases hkind : token.kind.endsLine with
    | true =>
      obtain ⟨rfl, rfl⟩ := eq_last_of_endsLine hfront hkind hsuffix
      rw [reads_last hlast List.suffix_rfl (.statement hitem hmore)]
      exact .stop ((hstops _).trans hkind)
    | false =>
      have hend : token.kind ≠ .endOfInput := by
        intro htoken
        simp [htoken, TokenKind.endsLine] at hkind
      have hrest : [last] <:+ rest := by
        rcases List.suffix_cons_iff.mp htokens with heq | hrest
        · obtain ⟨rfl, -⟩ := List.cons.inj heq
          exact absurd hlast hend
        · exact hrest
      have hmiddle := hitem.last_suffix hlast (by simp) htokens fun _ => hrest
      exact .step ((hstops _).trans hkind) hend hitem
        (ih hcloser (hitem.suffix.trans hsuffix) hmiddle hstops rfl rfl)
  | _ => cases hmode

end Phrases

/-! ## The `if` and its `else` -/

section Branches

variable {limit : Nat} {context : Context} {tokens front behind otherwise : List Token}
  {nodes condition body : List Node} {ifWord thenWord elseWord last : Token}

theorem Reads.program_afterTabs (h : Reads limit .program context tokens nodes []) :
    Reads limit .program context (afterTabs tokens) nodes [] := by
  induction tokens with
  | nil => exact h
  | cons token rest ih =>
    rw [afterTabs, List.dropWhile_cons]
    split
    next htab =>
      have hkind : token.kind = .tab := by simpa using htab
      cases h with
      | statement hitem hmore =>
        obtain ⟨rfl, rfl⟩ := (Reads.skip_iff (by rw [hkind]; rfl) (by simp [hkind])).mp hitem
        exact ih hmore
    · exact h

/-- A program is one inside of a construct as well, if there is room. -/
theorem Reads.enter (h : Reads limit .program context tokens nodes [])
    (hroom : context.nesting + depthAll nodes < limit) :
    Reads limit .program context.nest tokens nodes [] := by
  refine h.renest fun _ => ?_
  show context.nesting + 1 + depthAll nodes ≤ limit
  omega

theorem Phrase.endsLine (h : Phrase tokens) {token : Token} (hmem : token ∈ tokens) :
    token.kind.endsLine = false := by
  have hinline := h.inline token hmem
  cases hkind : token.kind <;> simp_all [TokenKind.isInline, TokenKind.endsLine]

/-- An `else` takes the rest of its line. -/
theorem reads_else (helse : elseWord.kind = .elseWord) (hlast : last.kind = .endOfInput)
    (hotherwise : Phrase otherwise) (hcontent : ∃ token ∈ otherwise, token.kind ≠ .tab)
    (hnesting : context.nesting < limit) (hcloser : context.closer = none)
    (h : Reads limit .program context.nest (otherwise ++ [last]) body []) :
    Reads limit .item context (elseWord :: (otherwise ++ [last]))
      [.group .elseStatement body] [last] := by
  have hsolid := (Ends.of_endOfInput hlast).solid
  have hread := h.program_afterTabs
  have htabs : afterTabs otherwise ≠ [] := by
    obtain ⟨token, hmem, hkind⟩ := hcontent
    obtain ⟨before, behind, rfl⟩ := List.append_of_mem hmem
    have hsuffix : token :: behind <:+ afterTabs (before ++ token :: behind) :=
      suffix_dropWhile (by simpa using hkind) (List.suffix_append _ _)
    exact List.ne_nil_of_length_pos (Nat.lt_of_lt_of_le (by simp) hsuffix.length_le)
  rw [afterTabs_append hsolid] at hread
  obtain ⟨next, more, hnext⟩ := List.exists_cons_of_ne_nil htabs
  have hphrase := hotherwise.afterTabs
  rw [hnext] at hphrase hread
  have hafter : afterTabs (otherwise ++ [last]) = next :: (more ++ [last]) := by
    rw [afterTabs_append hsolid, hnext]
    rfl
  refine .lineElse helse hnesting hafter (hphrase.endsLine List.mem_cons_self) ?_
  exact hread.line_of_program hcloser hlast (fun _ => hphrase.endsLine) List.suffix_rfl
    (List.suffix_append _ _)

/-- The condition and the branch of an `if` whose line has an `else`. -/
theorem reads_if (hif : ifWord.kind = .ifWord) (hthen : thenWord.kind = .thenWord)
    (helse : elseWord.kind = .elseWord) (hlast : last.kind = .endOfInput)
    (hfront : Phrase front) (hbehind : Phrase behind) (hnesting : context.nesting < limit)
    (hcloser : context.closer = none) (hinside : Contained front ∧ Contained behind)
    (hcondition : Reads limit .program context.nest (front ++ [last]) condition [])
    (hbody : Reads limit .program context.nest (behind ++ [last]) body []) :
    Reads limit .item context
      (ifWord :: (front ++ thenWord :: (behind ++ elseWord :: tokens)))
      [.conditional condition body] (elseWord :: tokens) := by
  have hendsThen : Ends thenWord := ⟨by rw [hthen]; rfl, by simp [hthen]⟩
  have hendsElse : Ends elseWord := ⟨by rw [helse]; rfl, by simp [helse]⟩
  obtain ⟨hreadFront, -⟩ :=
    hcondition.phrase_upTo hfront hcloser hlast stopsBehind_endsCondition hendsThen
  obtain ⟨hreadBehind, -⟩ :=
    hbody.phrase_upTo hbehind hcloser hlast (stopsBehind_stopsLine hcloser) hendsElse
  refine .lineIf hif hnesting (hreadFront hinside.1 (by rw [hthen]; rfl)) ?_
    (hreadBehind hinside.2 (by rw [helse]; rfl))
  simp [startsWith, hthen]

/-- If the condition or the branch is not contained, then the `if` takes
the whole line. -/
theorem Reads.if_takes_line {after : List Token} (hif : ifWord.kind = .ifWord)
    (hthen : thenWord.kind = .thenWord) (helse : elseWord.kind = .elseWord)
    (hlast : last.kind = .endOfInput) (hfront : Phrase front) (hbehind : Phrase behind)
    (hotherwise : Phrase otherwise) (hcloser : context.closer = none)
    (hrunsOn : ¬ (Contained front ∧ Contained behind))
    (hcondition : Reads limit .program context.nest (front ++ [last]) condition [])
    (hbody : Reads limit .program context.nest (behind ++ [last]) body [])
    (h : Reads limit .item context (ifWord :: (front ++ thenWord ::
      (behind ++ elseWord :: (otherwise ++ [last])))) nodes after) : after = [last] := by
  have hendsThen : Ends thenWord := ⟨by rw [hthen]; rfl, by simp [hthen]⟩
  have hendsElse : Ends elseWord := ⟨by rw [helse]; rfl, by simp [helse]⟩
  have hinside : ∀ other ∈ front ++ thenWord :: (behind ++ elseWord :: otherwise),
      other.kind.endsLine = false := by
    intro other hmem
    simp only [List.mem_append, List.mem_cons] at hmem
    rcases hmem with hmem | rfl | hmem | rfl | hmem
    · exact hfront.endsLine hmem
    · simp [hthen, TokenKind.endsLine]
    · exact hbehind.endsLine hmem
    · simp [helse, TokenKind.endsLine]
    · exact hotherwise.endsLine hmem
  have hline {token : Token} {rest : List Token} (htoken : token.kind.endsLine = true)
      (hsuffix : token :: rest <:+ front ++ thenWord ::
        (behind ++ elseWord :: (otherwise ++ [last]))) : token :: rest = [last] := by
    obtain ⟨rfl, rfl⟩ := eq_last_of_endsLine hinside htoken (by simpa using hsuffix)
    rfl
  obtain ⟨hreadFront, hreachFront⟩ :=
    hcondition.phrase_upTo hfront hcloser hlast stopsBehind_endsCondition hendsThen
  obtain ⟨-, hreachBehind⟩ :=
    hbody.phrase_upTo hbehind hcloser hlast (stopsBehind_stopsLine hcloser) hendsElse
  obtain ⟨-, -, -, condition', middle, hfirst, body', hsecond, -⟩ := (Reads.ifWord_iff hif).mp h
  by_cases hcontained : Contained front
  · -- The condition ends at `then`, and the branch reaches the line end.
    obtain ⟨-, rfl⟩ := hfirst.upTo_unique (hreadFront hcontained (by rw [hthen]; rfl))
    rw [if_pos (by simp [startsWith, hthen]), List.tail_cons] at hsecond
    obtain ⟨token, rest, rfl, htoken⟩ :=
      hreachBehind (fun hwhole => hrunsOn ⟨hcontained, hwhole⟩) _ _ hsecond
    have hbody := hsecond.suffix.trans (List.suffix_cons thenWord _)
    exact hline htoken (hbody.trans (List.suffix_append front _))
  · -- The condition itself reaches the line end, where no condition stops.
    obtain ⟨token, rest, rfl, htoken⟩ := hreachFront hcontained _ _ hfirst
    obtain ⟨rfl, rfl⟩ := List.cons.inj (hline htoken hfirst.suffix)
    obtain ⟨_, _, heq, hstop⟩ := hfirst.upTo_after
    obtain ⟨rfl, -⟩ := List.cons.inj heq
    rw [hlast] at hstop
    cases hstop

end Branches

section OneLine

variable {front behind otherwise : List Token} {condition body elseBody : List Node}
  {ifWord thenWord elseWord last : Token}

/-- An `if` and an `else` on one line are two statements, with the nodes
that the condition and the branches have by themselves, exactly if in the
condition and in the first branch every function, return and assignment
stands in brackets. -/
theorem parse_branches_iff (hif : ifWord.kind = .ifWord) (hthen : thenWord.kind = .thenWord)
    (helse : elseWord.kind = .elseWord) (hlast : last.kind = .endOfInput)
    (hfront : Phrase front) (hbehind : Phrase behind) (hotherwise : Phrase otherwise)
    (hcontent : ∃ token ∈ otherwise, token.kind ≠ .tab)
    (hcondition : parse (front ++ [last]) = .ok ⟨condition⟩)
    (hbody : parse (behind ++ [last]) = .ok ⟨body⟩)
    (helseBody : parse (otherwise ++ [last]) = .ok ⟨elseBody⟩)
    (hdepth : Program.depth ⟨[.conditional condition body, .group .elseStatement elseBody]⟩ ≤
      maxNesting) :
    parse ([ifWord] ++ front ++ [thenWord] ++ behind ++ [elseWord] ++ otherwise ++ [last]) =
        .ok ⟨[.conditional condition body, .group .elseStatement elseBody]⟩ ↔
      Contained front ∧ Contained behind := by
  have hline : [ifWord] ++ front ++ [thenWord] ++ behind ++ [elseWord] ++ otherwise ++ [last] =
      ifWord :: (front ++ thenWord :: (behind ++ elseWord :: (otherwise ++ [last]))) := by simp
  simp only [Program.depth, depthAll, depth] at hdepth
  have hroom {nodes : List Node} (hnodes : depthAll nodes < maxNesting) :
      Context.fresh.nesting + depthAll nodes < maxNesting := by
    show 0 + depthAll nodes < maxNesting
    omega
  have hcondition := (parse_eq_ok_iff.mp hcondition).enter (hroom (by simp only; omega))
  have hbody := (parse_eq_ok_iff.mp hbody).enter (hroom (by simp only; omega))
  have helseBody := (parse_eq_ok_iff.mp helseBody).enter (hroom (by simp only; omega))
  rw [hline, parse_eq_ok_iff]
  constructor
  · intro h
    refine Decidable.byContradiction fun hrunsOn => ?_
    -- The `if` leaves no `else`, so the program has one statement.
    generalize hnodes : Program.body _ = nodes at h
    cases h with
    | statement hitem hmore =>
      obtain rfl := Reads.if_takes_line hif hthen helse hlast hfront hbehind hotherwise rfl hrunsOn
        hcondition hbody hitem
      obtain rfl := reads_last hlast List.suffix_rfl hmore
      obtain ⟨node, rfl⟩ := hitem.exists_toList_eq
      cases node <;> simp at hnodes
  · intro hinside
    have hnesting : Context.fresh.nesting < maxNesting := by decide
    have hthird : Reads maxNesting .item .fresh [last] [] [] :=
      .skip (by rw [hlast]; rfl) (by simp [hlast])
    have hsecond := reads_else helse hlast hotherwise hcontent hnesting rfl helseBody
    exact .statement
      (reads_if hif hthen helse hlast hfront hbehind hnesting rfl hinside hcondition hbody)
      (.statement hsecond (.statement hthird .done))

/-- An assignment of a function in brackets as the condition, and an
operator as the branch.  The `else` holds a return, which may run on. -/
theorem parse_branches_iff_of_group :
    let last : Token := ⟨.endOfInput, ""⟩
    let front : List Token := [⟨.opening .round, "("⟩, ⟨.ident, "f"⟩, ⟨.assign, "="⟩,
      ⟨.arrow, "->"⟩, ⟨.number, "1"⟩, ⟨.closing .round, ")"⟩]
    let behind : List Token := [⟨.ident, "+"⟩, ⟨.tab, " "⟩, ⟨.ident, "x"⟩]
    let otherwise : List Token := [⟨.tab, " "⟩, ⟨.returnMark, "^"⟩, ⟨.ident, "y"⟩]
    let condition : List Node :=
      [.group (.bracketed .round) [.assignment "f" [.group .topLevelFunction [.leaf .number "1"]]]]
    let body : List Node := [.operator "+" (.leaf .ident "x")]
    let elseBody : List Node := [.group .returnExpression [.leaf .ident "y"]]
    Phrase front ∧ Phrase behind ∧ Phrase otherwise ∧
      parse (front ++ [last]) = .ok ⟨condition⟩ ∧ parse (behind ++ [last]) = .ok ⟨body⟩ ∧
      parse (otherwise ++ [last]) = .ok ⟨elseBody⟩ ∧
      parse ([⟨.ifWord, "if"⟩] ++ front ++ [⟨.thenWord, "then"⟩] ++ behind ++
          [⟨.elseWord, "else"⟩] ++ otherwise ++ [last]) =
        .ok ⟨[.conditional condition body, .group .elseStatement elseBody]⟩ := by
  intro last front behind otherwise condition body elseBody
  have hfront : Phrase front := by
    refine ⟨by decide, @Balanced.group _ _ [_, _, _, _] _ .round rfl rfl ?_ .nil⟩
    exact .token rfl (.token rfl (.token rfl (.token rfl .nil)))
  have hbehind : Phrase behind := ⟨by decide, .token rfl (.token rfl (.token rfl .nil))⟩
  have hotherwise : Phrase otherwise := ⟨by decide, .token rfl (.token rfl (.token rfl .nil))⟩
  have hcondition : parse (front ++ [last]) = .ok ⟨condition⟩ := rfl
  have hbody : parse (behind ++ [last]) = .ok ⟨body⟩ := rfl
  have helseBody : parse (otherwise ++ [last]) = .ok ⟨elseBody⟩ := rfl
  refine ⟨hfront, hbehind, hotherwise, hcondition, hbody, helseBody, ?_⟩
  exact (parse_branches_iff rfl rfl rfl rfl hfront hbehind hotherwise (by decide) hcondition hbody
    helseBody (by decide)).mpr ⟨by decide, by decide⟩

/-- In `if a then return b else c` the return takes the `else`. -/
theorem parse_branches_of_return :
    let last : Token := ⟨.endOfInput, ""⟩
    let front : List Token := [⟨.ident, "a"⟩]
    let behind : List Token := [⟨.returnMark, "return"⟩, ⟨.ident, "b"⟩]
    let otherwise : List Token := [⟨.ident, "c"⟩]
    let body : List Node := [.group .returnExpression [.leaf .ident "b"]]
    let line : List Token := [⟨.ifWord, "if"⟩] ++ front ++ [⟨.thenWord, "then"⟩] ++ behind ++
      [⟨.elseWord, "else"⟩] ++ otherwise ++ [last]
    let expected : Program :=
      ⟨[.conditional [.leaf .ident "a"] body, .group .elseStatement [.leaf .ident "c"]]⟩
    Phrase front ∧ Phrase behind ∧ Phrase otherwise ∧
      (∃ token ∈ otherwise, token.kind ≠ .tab) ∧
      parse (front ++ [last]) = .ok ⟨[.leaf .ident "a"]⟩ ∧
      parse (behind ++ [last]) = .ok ⟨body⟩ ∧
      parse (otherwise ++ [last]) = .ok ⟨[.leaf .ident "c"]⟩ ∧
      expected.depth ≤ maxNesting ∧
      parse line = .ok ⟨[.conditional [.leaf .ident "a"] [.group .returnExpression
        [.leaf .ident "b", .group .elseStatement [.leaf .ident "c"]]]]⟩ ∧
      parse line ≠ .ok expected := by
  intro last front behind otherwise body line expected
  have hline : parse line = .ok ⟨[.conditional [.leaf .ident "a"] [.group .returnExpression
      [.leaf .ident "b", .group .elseStatement [.leaf .ident "c"]]]]⟩ := rfl
  refine ⟨⟨by decide, .token rfl .nil⟩, ⟨by decide, .token rfl (.token rfl .nil)⟩,
    ⟨by decide, .token rfl .nil⟩, by decide, rfl, rfl, rfl, by decide, hline, ?_⟩
  rw [hline]
  simp [expected]

end OneLine

end Flick
