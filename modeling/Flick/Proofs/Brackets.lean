import Flick.Proofs.Locality

/-!
# Brackets on a line

`Balanced` tokens have their brackets properly nested: every opening one has
a closing partner of its own kind, and there is no other closing one.  A
`Phrase` is a piece of a line that is balanced and holds no word of an `if`.

A bracketed group of a phrase ends at the partner of its opening bracket.
A construct inside the group that runs to the end of its line stops in
front of the partner as well, since the partner is the bracket that the
group waits for, and no construct looks past it.  `Reads.inside_group` says
so for every construct, and `Reads.group` draws the conclusion: the group
as a whole reads the same in front of other tokens.
-/

namespace Flick

open Layout

/-- Whether a token of this kind opens or closes a group. -/
def TokenKind.isBracket : TokenKind → Bool
  | .opening _ | .closing _ => true
  | _ => false

theorem TokenKind.isBracket_of_isTrivia {kind : TokenKind} (h : kind.isTrivia = true) :
    kind.isBracket = false := by
  cases kind <;> simp_all [isTrivia, isBracket]

/-- Whether a token of this kind may stand in a phrase: it ends no line, and
it is none of the words of an `if`. -/
def TokenKind.isInline : TokenKind → Bool
  | .newline | .endOfInput | .ifWord | .thenWord | .elseWord => false
  | _ => true

/-- The brackets of the tokens are properly nested. -/
inductive Balanced : List Token → Prop where
  | nil : Balanced []
  | token {token : Token} {rest : List Token} (hkind : token.kind.isBracket = false)
      (hrest : Balanced rest) : Balanced (token :: rest)
  | group {opening closing : Token} {inner rest : List Token} (bracket : Bracket)
      (hopening : opening.kind = .opening bracket) (hclosing : closing.kind = .closing bracket)
      (hinner : Balanced inner) (hrest : Balanced rest) :
      Balanced (opening :: (inner ++ closing :: rest))

/-- What is kept behind each token that is passed is kept by a scan. -/
theorem holds_dropWhile {holds : List Token → Prop} {passes : Token → Bool} {tokens : List Token}
    (hpass : ∀ token rest, passes token = true → holds (token :: rest) → holds rest)
    (h : holds tokens) : holds (tokens.dropWhile passes) := by
  induction tokens with
  | nil => exact h
  | cons token rest ih =>
    rw [List.dropWhile_cons]
    split
    next hpasses => exact ih (hpass token rest hpasses h)
    · exact h

/-- A piece of a line without the words of an `if`, and with its brackets
properly nested. -/
structure Phrase (tokens : List Token) : Prop where
  inline : ∀ token ∈ tokens, token.kind.isInline = true
  balanced : Balanced tokens

namespace Balanced

variable {token : Token} {rest : List Token} {bracket : Bracket}

theorem append {first second : List Token} (hfirst : Balanced first) (hsecond : Balanced second) :
    Balanced (first ++ second) := by
  induction hfirst with
  | nil => exact hsecond
  | token hkind _ ih => exact .token hkind ih
  | group bracket hopening hclosing hinner _ _ ih =>
    rw [List.cons_append, List.append_assoc, List.cons_append]
    exact .group bracket hopening hclosing hinner ih

/-- Balanced tokens do not begin with a closing bracket. -/
theorem ne_closing (h : Balanced (token :: rest)) : token.kind ≠ .closing bracket := by
  intro hclosing
  cases h with
  | token hkind => simp [hclosing, TokenKind.isBracket] at hkind
  | group _ hopening => simp [hclosing] at hopening

theorem tail (h : Balanced (token :: rest)) (hopening : ∀ bracket, token.kind ≠ .opening bracket) :
    Balanced rest := by
  cases h with
  | token _ hrest => exact hrest
  | group bracket hkind => exact absurd hkind (hopening bracket)

/-- An opening bracket has its partner further on. -/
theorem exists_group (h : Balanced (token :: rest)) (hopening : token.kind = .opening bracket) :
    ∃ inner closing behind, rest = inner ++ closing :: behind ∧
      closing.kind = .closing bracket ∧ Balanced inner ∧ Balanced behind := by
  cases h with
  | token hkind => simp [hopening, TokenKind.isBracket] at hkind
  | group other hother hclosing hinner hrest =>
    obtain rfl : bracket = other := by simpa [hopening] using hother
    exact ⟨_, _, _, rfl, hclosing, hinner, hrest⟩

end Balanced

namespace Phrase

variable {token : Token} {tokens rest : List Token}

theorem nil : Phrase [] := ⟨by simp, .nil⟩

/-- A phrase does not begin with a closing bracket. -/
theorem ne_closing (h : Phrase (token :: rest)) (bracket : Bracket) :
    token.kind ≠ .closing bracket :=
  h.balanced.ne_closing

theorem tail (h : Phrase (token :: rest)) (hopening : ∀ bracket, token.kind ≠ .opening bracket) :
    Phrase rest :=
  ⟨fun other hmem => h.inline other (List.mem_cons_of_mem _ hmem), h.balanced.tail hopening⟩

/-- An opening bracket has its partner in the phrase. -/
theorem exists_group {bracket : Bracket} (h : Phrase (token :: rest))
    (hopening : token.kind = .opening bracket) :
    ∃ inner closing behind, rest = inner ++ closing :: behind ∧
      closing.kind = .closing bracket ∧ Phrase inner ∧ Phrase behind := by
  obtain ⟨hinline, hbalanced⟩ := h
  obtain ⟨inner, closing, behind, rfl, hclosing, hinner, hbehind⟩ :=
    hbalanced.exists_group hopening
  exact ⟨inner, closing, behind, rfl, hclosing, ⟨fun token hmem => hinline token (by simp [hmem]),
    hinner⟩, fun token hmem => hinline token (by simp [hmem]), hbehind⟩

theorem afterTrivia (h : Phrase tokens) : Phrase (afterTrivia tokens) := by
  refine holds_dropWhile (fun token rest htrivia h => h.tail fun bracket hopening => ?_) h
  simp [hopening, TokenKind.isTrivia] at htrivia

theorem afterTabs (h : Phrase tokens) : Phrase (afterTabs tokens) := by
  refine holds_dropWhile (fun token rest htab h => h.tail fun bracket hopening => ?_) h
  simp [hopening] at htab

end Phrase

/-! ## Looking ahead in front of a token -/

section Lookahead

variable {inner rest : List Token} {closing : Token}

theorem dropWhile_append_cons {passes : Token → Bool} (hclosing : passes closing = false) :
    (inner ++ closing :: rest).dropWhile passes =
      inner.dropWhile passes ++ closing :: rest := by
  rw [List.dropWhile_append]
  split
  next hempty =>
    rw [List.dropWhile_cons_of_neg (by simp [hclosing]), List.isEmpty_iff.mp hempty,
      List.nil_append]
  · rfl

theorem afterTrivia_append (hclosing : closing.kind.isSolid = true) :
    afterTrivia (inner ++ closing :: rest) = afterTrivia inner ++ closing :: rest :=
  dropWhile_append_cons (TokenKind.isTrivia_of_isSolid hclosing)

theorem afterTabs_append (hclosing : closing.kind.isSolid = true) :
    afterTabs (inner ++ closing :: rest) = afterTabs inner ++ closing :: rest := by
  refine dropWhile_append_cons ?_
  rw [beq_eq_false_iff_ne]
  exact pivot_ne_tab (TokenKind.isTrivia_of_isSolid hclosing)

/-- No line ends in a phrase, nor right behind it. -/
theorem Phrase.not_startsWith_newline (h : Phrase inner) (hclosing : closing.kind.isSolid = true) :
    startsWith .newline (Layout.afterTabs (inner ++ closing :: rest)) = false := by
  rw [afterTabs_append hclosing]
  have htabs := h.afterTabs
  cases hfirst : Layout.afterTabs inner with
  | nil =>
    rw [List.nil_append, startsWith, beq_eq_false_iff_ne]
    exact TokenKind.ne_newline_of_isSolid hclosing
  | cons token behind =>
    rw [List.cons_append, startsWith, beq_eq_false_iff_ne]
    intro hkind
    have hinline := htabs.inline token (by simp [hfirst])
    simp [hkind, TokenKind.isInline] at hinline

/-- The sign that is found behind tabs is in the phrase. -/
theorem Phrase.exists_assign (h : Phrase inner) (hclosing : closing.kind.isSolid = true)
    (hkind : closing.kind ≠ .assign)
    (hassigns : Parser.assigns (inner ++ closing :: rest) = true) :
    ∃ more, (Layout.afterTabs (inner ++ closing :: rest)).tail = more ++ closing :: rest ∧
      Phrase more := by
  rw [Parser.assigns, afterTabs_append hclosing] at hassigns
  rw [afterTabs_append hclosing]
  have htabs := h.afterTabs
  cases hfirst : Layout.afterTabs inner with
  | nil => simp [hfirst, startsWith, hkind] at hassigns
  | cons token behind =>
    rw [hfirst] at hassigns htabs
    have hassign : token.kind = .assign := by simpa [startsWith] using hassigns
    exact ⟨behind, rfl, htabs.tail (by simp [hassign])⟩

/-- The first of some tokens is the first one in front of an ending. -/
theorem exists_cons_of_append {token : Token} {behind ending : List Token} (hne : inner ≠ [])
    (h : token :: behind = inner ++ ending) :
    ∃ more, inner = token :: more ∧ behind = more ++ ending := by
  obtain ⟨first, more, rfl⟩ := List.exists_cons_of_ne_nil hne
  obtain ⟨rfl, rfl⟩ := List.cons.inj h
  exact ⟨more, rfl, rfl⟩

end Lookahead

/-! ## The inside of a group -/

/-- Of the tokens of a phrase, only this bracket stops the reading. -/
def StopsAt (stops : TokenKind → Bool) (bracket : Bracket) : Prop :=
  ∀ kind : TokenKind, kind.isInline = true → stops kind = (kind == .closing bracket)

theorem stopsAt_stopsLine {context : Context} {bracket : Bracket}
    (hcloser : context.closer = some bracket) : StopsAt (context.stopsLine []) bracket := by
  intro kind hkind
  cases kind <;> simp_all [Context.stopsLine, Context.closes, TokenKind.endsLine,
    TokenKind.isInline]

/-- What is left of the inside of a group, in front of its closing bracket
and the tokens behind it: an item leaves a phrase, and what the bracket
stops leaves nothing. -/
def Mode.LeavesInside (mode : Mode) (bracket : Bracket) (inner ending after : List Token) : Prop :=
  match mode with
  | .item => inner ≠ [] → ∃ left, after = left ++ ending ∧ Phrase left
  | .upTo stops => StopsAt stops bracket → after = ending
  | _ => True

section Groups

variable {limit : Nat} {mode : Mode} {context : Context} {tokens after inner rest : List Token}
  {nodes : List Node} {closing : Token} {bracket : Bracket}

/-- Inside of a group an item leaves the closing bracket in its place, and
what runs to the end of its line runs to the closing bracket. -/
theorem Reads.inside_group (h : Reads limit mode context tokens nodes after)
    (htokens : tokens = inner ++ closing :: rest) (hclosing : closing.kind = .closing bracket)
    (hphrase : Phrase inner) (hcloser : context.closer = some bracket) :
    mode.LeavesInside bracket inner (closing :: rest) after := by
  have hsolid : closing.kind.isSolid = true := by
    rw [hclosing]
    rfl
  induction h generalizing inner closing rest bracket with
  | leaf kind hkind =>
    intro hne
    obtain ⟨more, rfl, rfl⟩ := exists_cons_of_append hne htokens
    refine ⟨more, rfl, hphrase.tail fun other hopening => ?_⟩
    cases kind <;> simp [hopening, Leaf.tokenKind] at hkind
  | skip hkind =>
    intro hne
    obtain ⟨more, rfl, rfl⟩ := exists_cons_of_append hne htokens
    refine ⟨more, rfl, hphrase.tail fun other hopening => ?_⟩
    simp [hopening, TokenKind.isContent] at hkind
  | lineFunction hkind _ _ _ ih | returnExpression hkind _ _ ih =>
    intro hne
    obtain ⟨more, rfl, rfl⟩ := exists_cons_of_append hne htokens
    have hmore := hphrase.tail (by simp [hkind])
    exact ⟨[], ih rfl hclosing hmore hcloser hsolid (stopsAt_stopsLine hcloser), .nil⟩
  | blockFunction hkind _ hline =>
    intro hne
    obtain ⟨more, rfl, rfl⟩ := exists_cons_of_append hne htokens
    rw [(hphrase.tail (by simp [hkind])).not_startsWith_newline hsolid] at hline
    cases hline
  | assignment hkind _ hassigns _ ih =>
    intro hne
    obtain ⟨more, rfl, rfl⟩ := exists_cons_of_append hne htokens
    obtain ⟨behind, htail, hbehind⟩ := (hphrase.tail (by simp [hkind])).exists_assign hsolid
      (by simp [hclosing]) hassigns
    exact ⟨[], ih htail hclosing hbehind hcloser hsolid (stopsAt_stopsLine hcloser), .nil⟩
  | operator hkind _ _ _ hnext _ hnot _ ih =>
    intro hne
    obtain ⟨more, rfl, rfl⟩ := exists_cons_of_append hne htokens
    have hmore := (hphrase.tail (by simp [hkind])).afterTrivia
    rw [afterTrivia_append hsolid] at hnext
    refine ih hnext.symm hclosing hmore hcloser hsolid fun hempty => ?_
    -- The operand is not the bracket that the group waits for.
    rw [hempty, List.nil_append] at hnext
    obtain ⟨rfl, -⟩ := List.cons.inj hnext
    simp [Context.closes, hcloser, hclosing] at hnot
  | bracketed other hkind _ _ ih =>
    intro hne
    obtain ⟨more, rfl, rfl⟩ := exists_cons_of_append hne htokens
    obtain ⟨within, partner, behind, rfl, hpartner, hwithin, hbehind⟩ := hphrase.exists_group hkind
    have hbody := ih (by rw [List.append_assoc, List.cons_append]) hpartner hwithin rfl
      (by rw [hpartner]; rfl) fun _ _ => rfl
    exact ⟨behind, by rw [hbody]; rfl, hbehind⟩
  | newline hkind | lineIf hkind | blockIf hkind | lineElse hkind | blockElse hkind =>
    intro hne
    obtain ⟨more, rfl, rfl⟩ := exists_cons_of_append hne htokens
    have hinline := hphrase.inline _ List.mem_cons_self
    simp [hkind, TokenKind.isInline] at hinline
  | @stop _ _ token _ hstops =>
    intro hstopsAt
    cases inner with
    | nil => exact htokens
    | cons first more =>
      obtain ⟨rfl, -⟩ := List.cons.inj htokens
      rw [hstopsAt _ (hphrase.inline _ List.mem_cons_self), beq_iff_eq] at hstops
      exact absurd hstops (hphrase.ne_closing bracket)
  | step hstops _ _ _ ihitem ihmore =>
    intro hstopsAt
    cases inner with
    | nil =>
      obtain ⟨rfl, -⟩ := List.cons.inj htokens
      rw [hstopsAt _ (by rw [hclosing]; rfl), hclosing] at hstops
      simp at hstops
    | cons first more =>
      obtain ⟨left, rfl, hleft⟩ := ihitem htokens hclosing hphrase hcloser hsolid (by simp)
      exact ihmore rfl hclosing hleft hcloser hsolid hstopsAt
  | lastLine | moreLines | block | done | statement => trivial

/-- The inside of a group is read up to the partner of its opening
bracket, and is read the same in front of other tokens. -/
theorem Reads.group (hphrase : Phrase inner) (hclosing : closing.kind = .closing bracket)
    (h : Reads limit (.upTo (· == .closing bracket)) (context.inGroup bracket)
      (inner ++ closing :: rest) nodes after) :
    after = closing :: rest ∧ ∀ others,
      Reads limit (.upTo (· == .closing bracket)) (context.inGroup bracket)
        (inner ++ closing :: others) nodes (closing :: others) := by
  obtain rfl : after = closing :: rest := h.inside_group rfl hclosing hphrase rfl fun _ _ => rfl
  refine ⟨rfl, fun others => ?_⟩
  have hsolid : closing.kind.isSolid = true := by
    rw [hclosing]
    rfl
  have hread := h.regrow (.ofSolid hsolid : Pivot closing rest others) (List.suffix_refl _)
  rwa [regrow_append_cons, regrow_cons (List.suffix_refl _), regrow_self] at hread

end Groups

end Flick
