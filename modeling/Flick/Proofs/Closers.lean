import Flick.Proofs.Branches

/-!
# Closing brackets that are not found

A group whose opening bracket has a partner can be reported as open only if
something inside of it reads past the partner.  What runs to the end of its
line stops there, an operator asks for it, and a group inside of the group
ends at its own partner.  There is one reading that does not look for the
bracket: the condition of an `if` goes on up to a `then` or a line end.  In
`(if a) then b` it takes the bracket, the branch takes the rest, and the
group is left without an end.

`Within whole ending tokens` says that properly nested tokens stand in
front of the end of the innermost group, and `ConditionOverruns` that the
condition of some `if` gets to the end of its group.  Where no condition
does, every reading stays within its group (`Reads.stays`) and so does every
call of a run (`Calls.stays_inside`), which leaves no place for the error.
`conditionsEnd` is a test of the tokens that excludes such conditions: in
brackets, a `then` or a line end comes before all that could take it.
-/

namespace Flick

open Layout

/-! ## The end of the innermost group -/

/-- Where the innermost open group ends: at the bracket that is waited for,
or with the tokens if no group is open. -/
def Context.EndsAt (context : Context) : List Token → Prop
  | [] => context.closer = none
  | token :: _ => context.closes token.kind = true

theorem Context.exists_of_closes {context : Context} {kind : TokenKind}
    (h : context.closes kind = true) :
    ∃ bracket, context.closer = some bracket ∧ kind = .closing bracket := by
  rw [closes] at h
  split at h
  next bracket hcloser => exact ⟨bracket, hcloser, beq_iff_eq.mp h⟩
  · cases h

theorem Context.endsAt_inGroup {closing : Token} {bracket : Bracket}
    (hclosing : closing.kind = .closing bracket) (context : Context) (behind : List Token) :
    (context.inGroup bracket).EndsAt (closing :: behind) :=
  beq_iff_eq.mpr hclosing

namespace Context.EndsAt

variable {context : Context} {ending rest : List Token} {token : Token}

/-- A token that does not close the group is not where it ends. -/
theorem ne (h : context.EndsAt ending) (hcloses : context.closes token.kind = false) :
    token :: rest ≠ ending := by
  rintro rfl
  rw [EndsAt, hcloses] at h
  cases h

theorem ne_of_not_closing (h : context.EndsAt ending)
    (hkind : ∀ bracket, token.kind ≠ .closing bracket) : token :: rest ≠ ending := by
  refine h.ne ?_
  rw [← Bool.not_eq_true]
  intro hcloses
  obtain ⟨bracket, -, hclosing⟩ := exists_of_closes hcloses
  exact hkind bracket hclosing

/-- With no group open, no token is where the group ends. -/
theorem ne_of_closer (h : context.EndsAt ending) (hcloser : context.closer = none) :
    token :: rest ≠ ending := by
  refine h.ne ?_
  rw [closes, hcloser]

end Context.EndsAt

/-- The tokens are the last ones of the whole, and those in front of the
ending are properly nested. -/
structure Within (whole ending tokens : List Token) : Prop where
  suffix : tokens <:+ whole
  nested : ∃ inner, tokens = inner ++ ending ∧ Balanced inner

namespace Within

variable {context : Context} {whole ending tokens rest : List Token} {token : Token}
  {bracket : Bracket}

theorem exists_cons (h : Within whole ending (token :: rest)) (hne : token :: rest ≠ ending) :
    ∃ inner, rest = inner ++ ending ∧ Balanced (token :: inner) := by
  obtain ⟨inner, htokens, hbalanced⟩ := h.nested
  have hinner : inner ≠ [] := by
    rintro rfl
    exact hne htokens
  obtain ⟨more, rfl, rfl⟩ := exists_cons_of_append hinner htokens
  exact ⟨more, rfl, hbalanced⟩

/-- The first closing bracket that has no partner is where the group
ends. -/
theorem eq_of_closing (h : Within whole ending (token :: rest))
    (hclosing : token.kind = .closing bracket) : token :: rest = ending := by
  obtain ⟨inner, htokens, hbalanced⟩ := h.nested
  cases inner with
  | nil => exact htokens
  | cons first more =>
    obtain ⟨rfl, -⟩ := List.cons.inj htokens
    exact absurd hclosing hbalanced.ne_closing

theorem tail (h : Within whole ending (token :: rest)) (hne : token :: rest ≠ ending)
    (hopening : ∀ bracket, token.kind ≠ .opening bracket) : Within whole ending rest := by
  obtain ⟨inner, hrest, hbalanced⟩ := h.exists_cons hne
  exact ⟨(List.suffix_cons _ _).trans h.suffix, inner, hrest, hbalanced.tail hopening⟩

/-- Behind a token that is no bracket. -/
theorem next (h : Within whole ending (token :: rest)) (hends : context.EndsAt ending)
    (hkind : token.kind.isBracket = false) : Within whole ending rest := by
  refine h.tail (hends.ne_of_not_closing fun bracket hclosing => ?_) fun bracket hopening => ?_
  · simp [hclosing, TokenKind.isBracket] at hkind
  · simp [hopening, TokenKind.isBracket] at hkind

/-- A group inside ends at the partner of its opening bracket. -/
theorem group (h : Within whole ending (token :: rest)) (hends : context.EndsAt ending)
    (hopening : token.kind = .opening bracket) :
    ∃ closing behind, closing.kind = .closing bracket ∧ Within whole (closing :: behind) rest ∧
      Within whole ending behind := by
  obtain ⟨inner, rfl, hbalanced⟩ := h.exists_cons (hends.ne_of_not_closing (by simp [hopening]))
  obtain ⟨within, closing, behind, rfl, hclosing, hwithin, hbehind⟩ :=
    hbalanced.exists_group hopening
  have hsuffix := (List.suffix_cons _ _).trans h.suffix
  rw [List.append_assoc, List.cons_append] at hsuffix ⊢
  refine ⟨closing, behind ++ ending, hclosing, ⟨hsuffix, within, rfl, hwithin⟩, ?_, behind, rfl,
    hbehind⟩
  exact (List.suffix_cons _ _).trans ((List.suffix_append _ _).trans hsuffix)

theorem afterTabs (h : Within whole ending tokens) (hends : context.EndsAt ending) :
    Within whole ending (afterTabs tokens) := by
  refine holds_dropWhile (fun token rest hkind h => h.next hends ?_) h
  rw [beq_iff_eq.mp hkind]
  rfl

theorem afterNewlines (h : Within whole ending tokens) (hends : context.EndsAt ending) :
    Within whole ending (afterNewlines tokens) := by
  refine holds_dropWhile (fun token rest hkind h => h.next hends ?_) h
  rw [beq_iff_eq.mp hkind]
  rfl

theorem afterTrivia (h : Within whole ending tokens) (hends : context.EndsAt ending) :
    Within whole ending (afterTrivia tokens) :=
  holds_dropWhile
    (fun _ _ htrivia h => h.next hends (TokenKind.isBracket_of_isTrivia htrivia)) h

theorem nextLine (h : Within whole ending tokens) (hends : context.EndsAt ending) (width : Nat) :
    Within whole ending (nextLine width tokens).2 := by
  induction tokens generalizing width with
  | nil => exact h
  | cons token rest ih =>
    rw [Layout.nextLine]
    split
    next hkind => exact ih (h.next hends (by rw [hkind]; rfl)) (width + 1)
    split
    next hkind => exact ih (h.next hends (by rw [hkind]; rfl)) 0
    · exact h

theorem continuation? {width : Nat} {line : List Token} (h : Within whole ending tokens)
    (hends : context.EndsAt ending) (hline : continuation? width tokens = some line) :
    Within whole ending line := by
  have hnext := h.nextLine hends 0
  rwa [(nextLine_of_continuation? hline).2] at hnext

/-- Behind the sign of an assignment or a `then`. -/
theorem tail_of_startsWith {kind : TokenKind} (h : Within whole ending tokens)
    (hends : context.EndsAt ending) (hstarts : startsWith kind tokens = true)
    (hkind : kind.isBracket = false) : Within whole ending tokens.tail := by
  obtain ⟨token, rest, rfl, rfl⟩ := exists_of_startsWith hstarts
  exact h.next hends hkind

end Within

/-! ## Readings that get past the end -/

/-- What is read up to one of `stops` gets to the end of the group, and the
bracket there does not stop it. -/
def Overruns (limit : Nat) (stops : TokenKind → Bool) (context : Context)
    (tokens ending : List Token) : Prop :=
  ∃ closing rest nodes, ending = closing :: rest ∧ stops closing.kind = false ∧
    Reads limit (.upTo fun kind => stops kind || context.closes kind) context tokens nodes ending

/-- The condition of an `if` gets to the end of the group that the `if`
stands in. -/
def ConditionOverruns (limit : Nat) (tokens : List Token) : Prop :=
  ∃ word condition ending context, word :: (condition ++ ending) <:+ tokens ∧
    word.kind = .ifWord ∧ Balanced condition ∧ context.EndsAt ending ∧
    Overruns limit endsCondition context (condition ++ ending) ending

section Overruns

variable {limit : Nat} {stops : TokenKind → Bool} {context outer : Context}
  {whole tokens ending rest middle : List Token} {token : Token} {nodes : List Node}

/-- What stops at the end of the group does not get past it. -/
theorem not_overruns (hends : context.EndsAt ending)
    (hstops : ∀ kind, context.closes kind = true → stops kind = true) :
    ¬Overruns limit stops context tokens ending := by
  rintro ⟨closing, behind, nodes, rfl, hnot, -⟩
  rw [hstops closing.kind hends] at hnot
  cases hnot

/-- What runs to the end of its line stops at the end of its group. -/
theorem not_overruns_line (hends : context.EndsAt ending) (hcloser : outer.closer = context.closer)
    (stops : List TokenKind) :
    ¬Overruns limit (outer.stopsLine stops) context tokens ending := by
  refine not_overruns hends fun kind hcloses => ?_
  rw [Context.closes, ← hcloser] at hcloses
  rw [Context.stopsLine, Context.closes, hcloses, Bool.or_true]

theorem not_overruns_group {closing : Token} {bracket : Bracket}
    (hclosing : closing.kind = .closing bracket) (context : Context) (behind : List Token) :
    ¬Overruns limit (· == .closing bracket) (context.inGroup bracket) tokens (closing :: behind) :=
  not_overruns (context.endsAt_inGroup hclosing behind) fun _ hcloses => hcloses

namespace Overruns

theorem of_eq (hends : context.EndsAt ending) (htokens : token :: rest = ending)
    (hstops : stops token.kind = false) : Overruns limit stops context (token :: rest) ending := by
  subst htokens
  refine ⟨token, rest, [], rfl, hstops, .stop ?_⟩
  rw [hends, Bool.or_true]

theorem of_item (h : Overruns limit stops context middle ending)
    (hwithin : Within whole ending (token :: rest)) (hne : token :: rest ≠ ending)
    (hstops : stops token.kind = false) (hend : token.kind ≠ .endOfInput)
    (hitem : Reads limit .item context (token :: rest) nodes middle) :
    Overruns limit stops context (token :: rest) ending := by
  obtain ⟨closing, behind, more, rfl, hnot, hmore⟩ := h
  refine ⟨closing, behind, nodes ++ more, rfl, hnot, .step ?_ hend hitem hmore⟩
  rw [hstops, Bool.false_or, ← Bool.not_eq_true]
  intro hcloses
  obtain ⟨bracket, -, hclosing⟩ := Context.exists_of_closes hcloses
  exact hne (hwithin.eq_of_closing hclosing)

theorem conditionOverruns (h : Overruns limit endsCondition context rest ending)
    (hends : context.EndsAt ending) (hword : Within whole ending (token :: rest))
    (hkind : token.kind = .ifWord) : ConditionOverruns limit whole := by
  obtain ⟨condition, rfl, hcondition⟩ := (hword.next hends (by rw [hkind]; rfl)).nested
  exact ⟨token, condition, ending, context, hword.suffix, hkind, hcondition, hends, h⟩

end Overruns

end Overruns

/-! ## Readings stay within their group -/

/-- Where a reading of this mode may begin: an item is not the bracket that
the group ends at, and a program is in no group. -/
def Mode.MayBegin (mode : Mode) (context : Context) (tokens ending : List Token) : Prop :=
  match mode with
  | .item => tokens ≠ ending
  | .program => context.closer = none
  | _ => True

/-- What a reading of this mode comes to: it leaves the end of the group in
its place, or it is one up to some kind of token and gets past the end. -/
def Mode.Stays (mode : Mode) (limit : Nat) (context : Context)
    (whole tokens ending after : List Token) : Prop :=
  match mode with
  | .upTo stops => Within whole ending after ∨ Overruns limit stops context tokens ending
  | _ => Within whole ending after

section Readings

variable {limit : Nat} {mode : Mode} {context outer : Context}
  {whole tokens after ending : List Token} {nodes : List Node}

theorem Mode.Stays.within_line {stops : List TokenKind}
    (h : (Mode.upTo (outer.stopsLine stops)).Stays limit context whole tokens ending after)
    (hends : context.EndsAt ending) (hcloser : outer.closer = context.closer) :
    Within whole ending after :=
  h.resolve_right (not_overruns_line hends hcloser stops)

theorem Mode.Stays.within_condition {word : Token} {rest : List Token}
    (h : (Mode.upTo endsCondition).Stays limit context whole rest ending after)
    (hclear : ¬ConditionOverruns limit whole) (hends : context.EndsAt ending)
    (hword : Within whole ending (word :: rest)) (hkind : word.kind = .ifWord) :
    Within whole ending after :=
  h.resolve_right fun hover => hclear (hover.conditionOverruns hends hword hkind)

/-- The inside of a group ends at the partner of its opening bracket. -/
theorem Mode.Stays.group_after {bracket : Bracket} {closing : Token} {behind : List Token}
    (h : (Mode.upTo (· == .closing bracket)).Stays limit (context.inGroup bracket) whole tokens
      (closing :: behind) after)
    (hclosing : closing.kind = .closing bracket)
    (hread : Reads limit (.upTo (· == .closing bracket)) (context.inGroup bracket) tokens nodes
      after) : after = closing :: behind := by
  have hleft := h.resolve_right (not_overruns_group hclosing context behind)
  obtain ⟨first, more, rfl, hfirst⟩ := hread.upTo_after
  exact hleft.eq_of_closing (beq_iff_eq.mp hfirst)

/-- Where no condition gets to the end of its group, every reading stays
within its group. -/
theorem Reads.stays (h : Reads limit mode context tokens nodes after)
    (hclear : ¬ConditionOverruns limit whole) (hends : context.EndsAt ending)
    (hwithin : Within whole ending tokens) (hbegin : mode.MayBegin context tokens ending) :
    mode.Stays limit context whole tokens ending after := by
  induction h generalizing ending with
  | leaf kind hkind => exact hwithin.next hends (by cases kind <;> rw [hkind] <;> rfl)
  | newline hkind => exact (hwithin.next hends (by rw [hkind]; rfl)).afterNewlines hends
  | skip hkind =>
    refine hwithin.tail hbegin fun bracket hopening => ?_
    simp [hopening, TokenKind.isContent] at hkind
  | lineFunction hkind _ _ _ ih | returnExpression hkind _ _ ih =>
    have hrest := hwithin.next hends (by rw [hkind]; rfl)
    exact (ih hends hrest trivial).within_line hends rfl
  | blockFunction hkind _ _ _ ih => exact ih hends (hwithin.next hends (by rw [hkind]; rfl)) trivial
  | assignment hkind _ hassigns _ ih =>
    have htabs := (hwithin.next hends (by rw [hkind]; rfl)).afterTabs hends
    have hrest := htabs.tail_of_startsWith hends hassigns rfl
    exact (ih hends hrest trivial).within_line hends rfl
  | operator hkind _ _ _ hnext _ hcloser _ ih =>
    have hrest := (hwithin.next hends (by rw [hkind]; rfl)).afterTrivia hends
    rw [hnext] at hrest
    exact ih hends hrest (hends.ne hcloser)
  | bracketed bracket hkind _ hbody ih =>
    obtain ⟨closing, behind, hclosing, hinner, hbehind⟩ := hwithin.group hends hkind
    have hstays := ih (Context.endsAt_inGroup hclosing _ behind) hinner trivial
    rw [hstays.group_after hclosing hbody]
    exact hbehind
  | lineIf hkind _ _ hthen _ ihcondition ihbody =>
    have hrest := hwithin.next hends (by rw [hkind]; rfl)
    have hmiddle := (ihcondition hends hrest trivial).within_condition hclear hends hwithin hkind
    have hbody := hmiddle.tail_of_startsWith hends hthen rfl
    exact (ihbody hends hbody trivial).within_line hends rfl
  | blockIf hkind _ _ _ _ ihcondition ihbody =>
    have hrest := hwithin.next hends (by rw [hkind]; rfl)
    have hmiddle := (ihcondition hends hrest trivial).within_condition hclear hends hwithin hkind
    exact ihbody hends hmiddle trivial
  | lineElse hkind _ hnext _ _ ih =>
    have hrest := (hwithin.next hends (by rw [hkind]; rfl)).afterTabs hends
    rw [hnext] at hrest
    exact (ih hends hrest trivial).within_line hends rfl
  | blockElse hkind _ _ _ ih =>
    exact ih hends ((hwithin.next hends (by rw [hkind]; rfl)).afterTabs hends) trivial
  | stop => exact .inl hwithin
  | @step _ _ token rest _ _ _ _ hstops hend hitem _ ihitem ihmore =>
    -- Only a reading that does not know the bracket goes on at the end of the group.
    by_cases heq : token :: rest = ending
    · exact .inr (.of_eq hends heq hstops)
    · have hmiddle := ihitem hends hwithin heq
      refine (ihmore hends hmiddle trivial).imp_right fun hmore => ?_
      exact hmore.of_item hwithin heq hstops hend hitem
  | lastLine _ _ ih => exact (ih hends hwithin trivial).within_line hends rfl
  | moreLines _ hnext _ ihline ihmore =>
    have hmiddle := (ihline hends hwithin trivial).within_line hends rfl
    exact ihmore hends (hmiddle.continuation? hends hnext) trivial
  | block hline _ ih =>
    have hfirst := hwithin.nextLine hends 0
    rw [hline] at hfirst
    exact ih hends hfirst trivial
  | done => exact hwithin
  | statement _ _ ihitem ihmore =>
    have hmiddle := ihitem hends hwithin (hends.ne_of_closer hbegin)
    exact ihmore hends hmiddle hbegin

end Readings

/-! ## Runs stay within their groups -/

/-- What is known where a piece of work begins: an item is not the bracket
that the group ends at, a bracket that is waited for is the one that the
context has, a block is not waited for by a bracket, and a program is in no
group. -/
def Task.Fits (task : Task) (context : Context) (tokens ending : List Token) : Prop :=
  match task with
  | .item | .inside => tokens ≠ ending
  | .upTo construct _ => ∀ bracket, construct = .bracketed bracket → context.closer = some bracket
  | .lines construct _ | .block construct => ∀ bracket, construct ≠ .bracketed bracket
  | .program => context.closer = none

/-- The moment is one within a group that ends there. -/
structure Moment.Inside (moment : Moment) (whole ending : List Token) : Prop where
  ends : moment.context.EndsAt ending
  within : Within whole ending moment.tokens
  fits : moment.task.Fits moment.context moment.tokens ending

/-- The work is to read up to some kind of token, and gets past the end of
the group. -/
def Moment.Overruns (limit : Nat) (moment : Moment) (ending : List Token) : Prop :=
  match moment.task with
  | .upTo _ stops => Flick.Overruns limit stops moment.context moment.tokens ending
  | _ => False

section Runs

variable {limit : Nat} {moment next : Moment} {whole ending : List Token} {fault : Fault}
  {bracket : Bracket}

/-- The work that is begun is within a group as well, and if it gets past
the end of that one, the work that begins it has done so. -/
theorem Calls.stays_inside (h : Calls limit moment next) (hinside : moment.Inside whole ending)
    (hclear : ¬ConditionOverruns limit whole) :
    moment.Overruns limit ending ∨
      ∃ other, next.Inside whole other ∧
        (next.Overruns limit other → moment.Overruns limit ending) := by
  obtain ⟨hends, hwithin, hfits⟩ := hinside
  cases h with
  | enter => exact .inr ⟨ending, ⟨hends, hwithin, hfits⟩, id⟩
  | @lineFunction context _ _ hkind =>
    have hrest := hwithin.next hends (by rw [hkind]; rfl)
    have hbody : (context.inBlock .inline).EndsAt ending := hends
    exact .inr ⟨ending, ⟨hbody, hrest, nofun⟩, not_overruns_line hbody rfl []⟩
  | returnExpression hkind =>
    have hrest := hwithin.next hends (by rw [hkind]; rfl)
    exact .inr ⟨ending, ⟨hends, hrest, nofun⟩, not_overruns_line hends rfl []⟩
  | blockFunction hkind =>
    have hrest := hwithin.next hends (by rw [hkind]; rfl)
    exact .inr ⟨ending, ⟨hends, hrest, nofun⟩, id⟩
  | assignment hkind hassigns =>
    have htabs := (hwithin.next hends (by rw [hkind]; rfl)).afterTabs hends
    have hrest := htabs.tail_of_startsWith hends hassigns rfl
    exact .inr ⟨ending, ⟨hends, hrest, nofun⟩, not_overruns_line hends rfl []⟩
  | operand hkind _ _ hnext _ hcloser =>
    have hrest := (hwithin.next hends (by rw [hkind]; rfl)).afterTrivia hends
    rw [hnext] at hrest
    exact .inr ⟨ending, ⟨hends, hrest, hends.ne hcloser⟩, id⟩
  | bracketed bracket hkind =>
    obtain ⟨closing, behind, hclosing, hinner, -⟩ := hwithin.group hends hkind
    refine .inr ⟨closing :: behind, ⟨Context.endsAt_inGroup hclosing _ behind, hinner, ?_⟩,
      not_overruns_group hclosing _ behind⟩
    exact fun other heq => congrArg some (Construct.bracketed.inj heq)
  | condition hkind =>
    have hrest := hwithin.next hends (by rw [hkind]; rfl)
    exact .inr ⟨ending, ⟨hends, hrest, nofun⟩, fun hover =>
      hclear (Overruns.conditionOverruns hover hends hwithin hkind)⟩
  | lineIf hkind hcondition hthen =>
    have hrest := hwithin.next hends (by rw [hkind]; rfl)
    have hstays := hcondition.stays hclear hends hrest trivial
    have hmiddle := hstays.within_condition hclear hends hwithin hkind
    have hbody := hmiddle.tail_of_startsWith hends hthen rfl
    exact .inr ⟨ending, ⟨hends, hbody, nofun⟩, not_overruns_line hends rfl [.elseWord]⟩
  | blockIf hkind hcondition =>
    have hrest := hwithin.next hends (by rw [hkind]; rfl)
    have hstays := hcondition.stays hclear hends hrest trivial
    have hmiddle := hstays.within_condition hclear hends hwithin hkind
    exact .inr ⟨ending, ⟨hends, hmiddle, nofun⟩, id⟩
  | lineElse hkind hnext =>
    have hrest := (hwithin.next hends (by rw [hkind]; rfl)).afterTabs hends
    rw [hnext] at hrest
    exact .inr ⟨ending, ⟨hends, hrest, nofun⟩, not_overruns_line hends rfl []⟩
  | blockElse hkind =>
    have hrest := (hwithin.next hends (by rw [hkind]; rfl)).afterTabs hends
    exact .inr ⟨ending, ⟨hends, hrest, nofun⟩, id⟩
  | @turn _ _ _ token rest hstops =>
    by_cases heq : token :: rest = ending
    · exact .inl (.of_eq hends heq hstops)
    · exact .inr ⟨ending, ⟨hends, hwithin, heq⟩, False.elim⟩
  | @furtherTurn _ _ _ token rest _ _ hstops hend hitem =>
    by_cases heq : token :: rest = ending
    · exact .inl (.of_eq hends heq hstops)
    · have hmiddle := hitem.stays hclear hends hwithin heq
      exact .inr ⟨ending, ⟨hends, hmiddle, hfits⟩, fun hmore =>
        Overruns.of_item hmore hwithin heq hstops hend hitem⟩
  | line =>
    exact .inr ⟨ending, ⟨hends, hwithin, fun bracket heq => absurd heq (hfits bracket)⟩,
      not_overruns_line hends rfl []⟩
  | furtherLine hline hnext =>
    have hmiddle := (hline.stays hclear hends hwithin trivial).within_line hends rfl
    exact .inr ⟨ending, ⟨hends, hmiddle.continuation? hends hnext, hfits⟩, id⟩
  | block => exact .inr ⟨ending, ⟨hends, hwithin.nextLine hends 0, hfits⟩, id⟩
  | statement => exact .inr ⟨ending, ⟨hends, hwithin, hends.ne_of_closer hfits⟩, id⟩
  | furtherStatement hitem =>
    have hmiddle := hitem.stays hclear hends hwithin (hends.ne_of_closer hfits)
    exact .inr ⟨ending, ⟨hends, hmiddle, hfits⟩, id⟩

/-- The end of the input is behind every closing bracket, so a group is not
found open within itself. -/
theorem Stuck.error_ne_of_inside (h : Stuck limit moment fault)
    (hinside : moment.Inside whole ending)
    (hlast : ∀ token rest, token :: rest <:+ whole → token.kind = .endOfInput → rest = []) :
    fault.error ≠ .unexpectedEnd (.bracketed bracket) := by
  obtain ⟨hends, hwithin, hfits⟩ := hinside
  intro herror
  cases h with
  | noTurn =>
    have hcloser := hfits bracket (ParseError.unexpectedEnd.inj herror)
    obtain ⟨inner, hnil, -⟩ := hwithin.nested
    obtain ⟨rfl, rfl⟩ := List.append_eq_nil_iff.mp hnil.symm
    rw [Context.EndsAt, hcloser] at hends
    cases hends
  | ended _ hend =>
    have hcloser := hfits bracket (ParseError.unexpectedEnd.inj herror)
    obtain rfl := hlast _ _ hwithin.suffix hend
    obtain ⟨inner, hnil, -⟩ := hwithin.exists_cons (hends.ne_of_not_closing (by simp [hend]))
    obtain ⟨rfl, rfl⟩ := List.append_eq_nil_iff.mp hnil.symm
    rw [Context.EndsAt, hcloser] at hends
    cases hends
  | _ => cases herror

/-- A run that finds a group open has got past the end of a group. -/
theorem Fails.overruns (h : Fails limit moment fault) (hinside : moment.Inside whole ending)
    (hclear : ¬ConditionOverruns limit whole)
    (hlast : ∀ token rest, token :: rest <:+ whole → token.kind = .endOfInput → rest = [])
    (herror : fault.error = .unexpectedEnd (.bracketed bracket)) :
    moment.Overruns limit ending := by
  obtain ⟨last, hreaches, hstuck⟩ := h
  induction hreaches using Relation.ReflTransGen.head_induction_on generalizing ending with
  | refl => exact absurd herror (hstuck.error_ne_of_inside hinside hlast)
  | head hcall _ ih =>
    rcases hcall.stays_inside hinside hclear with hover | ⟨other, hnext, hover⟩
    · exact hover
    · exact hover (ih hnext)

end Runs

/-! ## A test of the tokens -/

/-- Whether the tokens stand in a group that ends among them.  So many
groups of their own are open in front. -/
def enclosed (brackets : Nat) : List Token → Bool
  | [] => false
  | token :: rest =>
    match token.kind with
    | .opening _ => enclosed (brackets + 1) rest
    | .closing _ => brackets == 0 || enclosed (brackets - 1) rest
    | _ => enclosed brackets rest

/-- Whether the token begins a construct that may take a `then` or a line
end: one that runs to the end of its line, or a branch. -/
def mayTakeThen (token : Token) (rest : List Token) : Bool :=
  runsOn token rest || token.kind == .ifWord || token.kind == .elseWord

/-- Whether a `then` or a line end comes in the group that the tokens stand
in, before anything that may take it.  So many groups of their own are open
in front, and what is inside of those does not count. -/
def conditionEnds (brackets : Nat) : List Token → Bool
  | [] => false
  | token :: rest =>
    match token.kind with
    | .opening _ => conditionEnds (brackets + 1) rest
    | .closing _ => brackets != 0 && conditionEnds (brackets - 1) rest
    | kind =>
      brackets == 0 && endsCondition kind ||
        (brackets != 0 || !mayTakeThen token rest) && conditionEnds brackets rest

/-- Whether the condition of every `if` inside of brackets ends before its
group does, as far as the tokens tell. -/
def conditionsEnd : List Token → Bool
  | [] => true
  | token :: rest =>
    (token.kind != .ifWord || !enclosed 0 rest || conditionEnds 0 rest) && conditionsEnd rest

section Conditions

variable {token : Token} {inner rest : List Token} {brackets : Nat} {bracket : Bracket}

theorem enclosed_cons (hkind : token.kind.isBracket = false) :
    enclosed brackets (token :: rest) = enclosed brackets rest := by
  rw [enclosed]
  split
  next hopening => simp [hopening, TokenKind.isBracket] at hkind
  next hclosing => simp [hclosing, TokenKind.isBracket] at hkind
  · rfl

theorem enclosed_opening (hkind : token.kind = .opening bracket) :
    enclosed brackets (token :: rest) = enclosed (brackets + 1) rest := by
  simp [enclosed, hkind]

theorem enclosed_closing (hkind : token.kind = .closing bracket) :
    enclosed brackets (token :: rest) = (brackets == 0 || enclosed (brackets - 1) rest) := by
  simp [enclosed, hkind]

/-- Properly nested tokens end no group but their own. -/
theorem Balanced.enclosed_append (h : Balanced inner) (brackets : Nat) (rest : List Token) :
    enclosed brackets (inner ++ rest) = enclosed brackets rest := by
  induction h generalizing brackets rest with
  | nil => rfl
  | token hkind _ ih => rw [List.cons_append, enclosed_cons hkind, ih]
  | group bracket hopening hclosing _ _ ihinner ihrest =>
    rw [List.cons_append, List.append_assoc, List.cons_append, enclosed_opening hopening,
      ihinner, enclosed_closing hclosing, Nat.add_sub_cancel, ihrest]
    rfl

theorem conditionEnds_cons (hkind : token.kind.isBracket = false) :
    conditionEnds brackets (token :: rest) =
      (brackets == 0 && endsCondition token.kind ||
        (brackets != 0 || !mayTakeThen token rest) && conditionEnds brackets rest) := by
  rw [conditionEnds]
  split
  next hopening => simp [hopening, TokenKind.isBracket] at hkind
  next hclosing => simp [hclosing, TokenKind.isBracket] at hkind
  · rfl

theorem conditionEnds_opening (hkind : token.kind = .opening bracket) :
    conditionEnds brackets (token :: rest) = conditionEnds (brackets + 1) rest := by
  simp [conditionEnds, hkind]

theorem conditionEnds_closing (hkind : token.kind = .closing bracket) :
    conditionEnds brackets (token :: rest) =
      (brackets != 0 && conditionEnds (brackets - 1) rest) := by
  simp [conditionEnds, hkind]

/-- Nothing inside of brackets counts. -/
theorem Balanced.conditionEnds_append (h : Balanced inner) (brackets : Nat) (rest : List Token) :
    conditionEnds (brackets + 1) (inner ++ rest) = conditionEnds (brackets + 1) rest := by
  induction h generalizing brackets rest with
  | nil => rfl
  | token hkind _ ih =>
    rw [List.cons_append, conditionEnds_cons hkind, ih]
    rfl
  | group bracket hopening hclosing _ _ ihinner ihrest =>
    rw [List.cons_append, List.append_assoc, List.cons_append, conditionEnds_opening hopening,
      ihinner, conditionEnds_closing hclosing, Nat.add_sub_cancel, ihrest]
    rfl

/-- Nothing begins outside of brackets that may take the end of the
condition. -/
theorem conditionEnds_tail (h : conditionEnds 0 (token :: rest) = true)
    (hkind : token.kind.isBracket = false) (hfirst : endsCondition token.kind = false) :
    mayTakeThen token rest = false ∧ conditionEnds 0 rest = true := by
  rw [conditionEnds_cons hkind, hfirst] at h
  simpa using h

theorem conditionEnds_afterTrivia {tokens : List Token} (h : conditionEnds 0 tokens = true) :
    conditionEnds 0 (afterTrivia tokens) = true := by
  refine @holds_dropWhile (conditionEnds 0 · = true) _ _ (fun token rest htrivia h => ?_) h
  refine (conditionEnds_tail h (TokenKind.isBracket_of_isTrivia htrivia) ?_).2
  cases hkind : token.kind <;> simp_all [TokenKind.isTrivia, endsCondition]

end Conditions

section Readings

variable {limit : Nat} {context : Context} {whole tokens rest after ending : List Token}
  {token : Token} {nodes : List Node}

/-- An item in front of the end of a condition leaves the end. -/
theorem Reads.conditionEnds_after (h : Reads limit .item context (token :: rest) nodes after)
    (hclear : ¬ConditionOverruns limit whole) (hends : context.EndsAt ending)
    (hwithin : Within whole ending (token :: rest))
    (hcondition : conditionEnds 0 (token :: rest) = true)
    (hfirst : endsCondition token.kind = false) : conditionEnds 0 after = true := by
  generalize hmode : Mode.item = mode at h
  generalize htokens : token :: rest = tokens at h
  induction h generalizing token rest with
  | leaf kind hkind =>
    cases htokens
    exact (conditionEnds_tail hcondition (by cases kind <;> rw [hkind] <;> rfl) hfirst).2
  | newline hkind =>
    cases htokens
    simp [hkind, endsCondition] at hfirst
  | @skip _ token _ hkind =>
    cases htokens
    refine (conditionEnds_tail hcondition ?_ hfirst).2
    cases hother : token.kind with
    | opening bracket => simp [hother, TokenKind.isContent] at hkind
    | closing bracket => simp [conditionEnds_closing hother] at hcondition
    | _ => rfl
  | lineFunction hkind | blockFunction hkind | returnExpression hkind =>
    cases htokens
    have htake := (conditionEnds_tail hcondition (by rw [hkind]; rfl) hfirst).1
    simp [mayTakeThen, runsOn, hkind] at htake
  | assignment hkind _ hassigns =>
    cases htokens
    have htake := (conditionEnds_tail hcondition (by rw [hkind]; rfl) hfirst).1
    simp [mayTakeThen, runsOn, hkind, hassigns] at htake
  | lineIf hkind | blockIf hkind | lineElse hkind | blockElse hkind =>
    cases htokens
    have htake := (conditionEnds_tail hcondition (by rw [hkind]; rfl) hfirst).1
    simp [mayTakeThen, hkind] at htake
  | operator hkind _ _ _ hnext hend hcloser hoperand ih =>
    cases htokens
    have hrest := (hwithin.next hends (by rw [hkind]; rfl)).afterTrivia hends
    have hmore := conditionEnds_afterTrivia
      (conditionEnds_tail hcondition (by rw [hkind]; rfl) hfirst).2
    rw [hnext] at hrest hmore
    refine ih hends hrest hmore ?_ rfl rfl
    rw [endsCondition, Bool.or_eq_false_iff, beq_eq_false_iff_ne, beq_eq_false_iff_ne]
    constructor
    · -- An operand makes a node, and a `then` does not.
      intro hthen
      have hnone := ((skip_iff (by rw [hthen]; rfl) (by simp [hthen])).mp hoperand).1
      cases hnone
    · intro hnewline
      simp [hnewline, TokenKind.endsLine] at hend
  | bracketed bracket hkind _ hbody =>
    cases htokens
    obtain ⟨closing, behind, hclosing, hinner, hbehind⟩ := hwithin.group hends hkind
    have hstays := hbody.stays hclear (Context.endsAt_inGroup hclosing _ behind) hinner trivial
    rw [hstays.group_after hclosing hbody]
    obtain ⟨inner, rfl, hbalanced⟩ := hinner.nested
    rw [conditionEnds_opening hkind, hbalanced.conditionEnds_append,
      conditionEnds_closing hclosing] at hcondition
    exact hcondition
  | stop | step | lastLine | moreLines | block | done | statement => cases hmode

/-- What is read up to the end of a condition does not get to the end of
the group. -/
theorem Reads.after_ne_ending
    (h : Reads limit (.upTo fun kind => endsCondition kind || context.closes kind) context tokens
      nodes after)
    (hclear : ¬ConditionOverruns limit whole) (hends : context.EndsAt ending)
    (hwithin : Within whole ending tokens) (hcondition : conditionEnds 0 tokens = true) :
    after ≠ ending := by
  generalize hmode : (Mode.upTo fun kind => endsCondition kind || context.closes kind) = mode at h
  induction h with
  | stop =>
    rintro rfl
    obtain ⟨bracket, -, hclosing⟩ := Context.exists_of_closes hends
    simp [conditionEnds_closing hclosing] at hcondition
  | step hstops _ hitem _ _ ihmore =>
    cases hmode
    obtain ⟨hfirst, hcloses⟩ := Bool.or_eq_false_iff.mp hstops
    have hmiddle := hitem.stays hclear hends hwithin (hends.ne hcloses)
    have hcomes := hitem.conditionEnds_after hclear hends hwithin hcondition hfirst
    exact ihmore hends hmiddle hcomes rfl
  | _ => cases hmode

end Readings

theorem not_conditionOverruns {limit : Nat} {tokens : List Token}
    (h : conditionsEnd tokens = true) : ¬ConditionOverruns limit tokens := by
  induction tokens with
  | nil =>
    rintro ⟨word, condition, ending, context, hsuffix, -⟩
    simp at hsuffix
  | cons token rest ih =>
    rw [conditionsEnd, Bool.and_eq_true] at h
    obtain ⟨hfirst, hrest⟩ := h
    rintro ⟨word, condition, ending, context, hsuffix, hkind, hcondition, hends, hover⟩
    rcases List.suffix_cons_iff.mp hsuffix with heq | hlater
    · obtain ⟨rfl, rfl⟩ := List.cons.inj heq
      obtain ⟨closing, behind, nodes, rfl, -, hread⟩ := hover
      obtain ⟨bracket, -, hclosing⟩ := Context.exists_of_closes hends
      have henclosed : enclosed 0 (condition ++ closing :: behind) = true := by
        rw [hcondition.enclosed_append, enclosed_closing hclosing]
        rfl
      have hcomes : conditionEnds 0 (condition ++ closing :: behind) = true := by
        simpa [hkind, henclosed] using hfirst
      have hwithin : Within (condition ++ closing :: behind) (closing :: behind)
          (condition ++ closing :: behind) := ⟨List.suffix_refl _, condition, rfl, hcondition⟩
      exact hread.after_ne_ending (ih hrest) hends hwithin hcomes rfl
    · exact ih hrest ⟨word, condition, ending, context, hlater, hkind, hcondition, hends, hover⟩

/-! ## Whole token lists -/

/-- Properly nested tokens with one end of the input, the last of them.  If
a group is reported as open, then the condition of an `if` has got to the
end of its group.  None does if a `then` or a line end comes before all that
could take it, and then no group is reported as open. -/
theorem parse_unexpectedEnd_bracketed {front : List Token} {last : Token}
    (hbalanced : Balanced front) (hfront : ∀ token ∈ front, token.kind ≠ .endOfInput)
    (hlast : last.kind = .endOfInput) :
    (∀ bracket, parse (front ++ [last]) = .error (.unexpectedEnd (.bracketed bracket)) →
      ConditionOverruns maxNesting (front ++ [last])) ∧
    (conditionsEnd (front ++ [last]) = true → ∀ bracket,
      parse (front ++ [last]) ≠ .error (.unexpectedEnd (.bracketed bracket))) := by
  have hwhole : Within (front ++ [last]) [] (front ++ [last]) := by
    refine ⟨List.suffix_refl _, front ++ [last], (List.append_nil _).symm, ?_⟩
    exact hbalanced.append (.token (by rw [hlast]; rfl) .nil)
  have honly (token : Token) (rest : List Token) (h : token :: rest <:+ front ++ [last])
      (hkind : token.kind = .endOfInput) : rest = [] := by
    rcases cons_suffix_append h with hsuffix | ⟨mid, -, hmid⟩
    · exact List.eq_nil_of_length_eq_zero (by simpa using hsuffix.length_le)
    · exact absurd hkind (hfront token (hmid.subset List.mem_cons_self))
  have hopen (bracket : Bracket)
      (h : parse (front ++ [last]) = .error (.unexpectedEnd (.bracketed bracket))) :
      ConditionOverruns maxNesting (front ++ [last]) := by
    obtain ⟨fault, herror, hfails⟩ := parse_eq_error_iff.mp h
    have hinside : (Moment.ofTokens (front ++ [last])).Inside (front ++ [last]) [] :=
      ⟨rfl, hwhole, rfl⟩
    exact Classical.byContradiction fun hclear => hfails.overruns hinside hclear honly herror
  exact ⟨hopen, fun hends bracket h => not_conditionOverruns hends (hopen bracket h)⟩

/-- In `(if f(x = 1) then [-> y])` the condition ends at the `then`, and in
`(if a) then b` it gets to the end of the group. -/
theorem parse_unexpectedEnd_bracketed_of_conditions :
    let last : Token := ⟨.endOfInput, ""⟩
    let front : List Token := [⟨.opening .round, "("⟩, ⟨.ifWord, "if"⟩, ⟨.ident, "f"⟩,
      ⟨.opening .round, "("⟩, ⟨.ident, "x"⟩, ⟨.assign, "="⟩, ⟨.number, "1"⟩,
      ⟨.closing .round, ")"⟩, ⟨.thenWord, "then"⟩, ⟨.opening .square, "["⟩, ⟨.arrow, "->"⟩,
      ⟨.ident, "y"⟩, ⟨.closing .square, "]"⟩, ⟨.closing .round, ")"⟩]
    let other : List Token := [⟨.opening .round, "("⟩, ⟨.ifWord, "if"⟩, ⟨.ident, "a"⟩,
      ⟨.closing .round, ")"⟩, ⟨.thenWord, "then"⟩, ⟨.ident, "b"⟩]
    Balanced front ∧ conditionsEnd (front ++ [last]) = true ∧
      (∀ bracket, parse (front ++ [last]) ≠ .error (.unexpectedEnd (.bracketed bracket))) ∧
      Balanced other ∧ ConditionOverruns maxNesting (other ++ [last]) := by
  intro last front other
  have hinner : Balanced [⟨.ident, "x"⟩, ⟨.assign, "="⟩, ⟨.number, "1"⟩] :=
    .token rfl (.token rfl (.token rfl .nil))
  have hbody : Balanced [⟨.arrow, "->"⟩, ⟨.ident, "y"⟩] := .token rfl (.token rfl .nil)
  have hfront : Balanced front := by
    refine @Balanced.group _ _ (front.tail.take 12) [] .round rfl rfl ?_ .nil
    refine .token rfl (.token rfl (.group .round rfl rfl hinner (.token rfl ?_)))
    exact .group .square rfl rfl hbody .nil
  have hother : Balanced other := by
    refine @Balanced.group _ _ [_, _] _ .round rfl rfl ?_ ?_
    · exact .token rfl (.token rfl .nil)
    · exact .token rfl (.token rfl .nil)
  refine ⟨hfront, by decide, ?_, hother, ?_⟩
  · exact (parse_unexpectedEnd_bracketed hfront (by decide) rfl).2 (by decide)
  · exact (parse_unexpectedEnd_bracketed hother (by decide) rfl).1 .round rfl

/-- The group of `(if a) then b` is closed and is reported as open. -/
theorem parse_unexpectedEnd_of_closed_group :
    let last : Token := ⟨.endOfInput, ""⟩
    let front : List Token := [⟨.opening .round, "("⟩, ⟨.ifWord, "if"⟩, ⟨.ident, "a"⟩,
      ⟨.closing .round, ")"⟩, ⟨.thenWord, "then"⟩, ⟨.ident, "b"⟩]
    Balanced front ∧ (∀ token ∈ front, token.kind ≠ .endOfInput) ∧
      parse (front ++ [last]) = .error (.unexpectedEnd (.bracketed .round)) := by
  intro last front
  refine ⟨?_, by decide, rfl⟩
  refine @Balanced.group _ _ [_, _] _ .round rfl rfl ?_ ?_
  · exact .token rfl (.token rfl .nil)
  · exact .token rfl (.token rfl .nil)

end Flick
