import Flick.Proofs.Brackets
import Flick.Proofs.Origins
import Mathlib.Control.Monad.Basic

/-!
# The scopes of brackets

A group that is read begins at an opening bracket and ends at a closing one
of its own kind, and the groups inside of it do so in between.  So the
brackets of a token list that parses are properly nested, up to closing
brackets that no group waits for.  Those are passed without a word.

`Covers taken kept walk` says how tokens are taken: which of them are kept
if the stray closing brackets are left out, and which nodes are met on a
walk over what has been read.  It has a rule for groups, in which the nodes
below the node of the group are those of the tokens between its brackets.
Each rule of `Reads` keeps it (`Reads.takes`).

If there are as many closing brackets of each kind as opening ones, then
none is stray.  So the brackets are properly nested as they are, the
partner of an opening bracket is the one that its group ends at, and the
nodes below the group come from the tokens between the two
(`parse_scopes`).
-/

namespace Flick

open Layout

/-- Whether a token of this kind closes a group. -/
def TokenKind.isClosing : TokenKind → Bool
  | .closing _ => true
  | _ => false

/-- How many of the tokens make a node. -/
def contentCount (tokens : List Token) : Nat := tokens.countP (·.kind.isContent)

theorem contentCount_append (first second : List Token) :
    contentCount (first ++ second) = contentCount first + contentCount second :=
  List.countP_append

theorem contentCount_cons_of_content {token : Token} (h : token.kind.isContent = true)
    (rest : List Token) : contentCount (token :: rest) = contentCount rest + 1 :=
  List.countP_cons_of_pos h

theorem contentCount_cons_of_not_content {token : Token} (h : token.kind.isContent = false)
    (rest : List Token) : contentCount (token :: rest) = contentCount rest :=
  List.countP_cons_of_neg (by simp [h])

/-- How many of the tokens are of this kind. -/
def countKind (kind : TokenKind) (tokens : List Token) : Nat := tokens.countP (·.kind == kind)

theorem countKind_append (kind : TokenKind) (first second : List Token) :
    countKind kind (first ++ second) = countKind kind first + countKind kind second :=
  List.countP_append

theorem countKind_cons (kind : TokenKind) (token : Token) (rest : List Token) :
    countKind kind (token :: rest) = countKind kind rest + if token.kind = kind then 1 else 0 := by
  simp [countKind, List.countP_cons]

theorem countKind_cons_of_ne {kind : TokenKind} {token : Token} (h : token.kind ≠ kind)
    (rest : List Token) : countKind kind (token :: rest) = countKind kind rest := by
  rw [countKind_cons, if_neg h]
  rfl

section NotBracket

variable {kind : TokenKind} (h : kind.isBracket = false) (bracket : Bracket)
include h

theorem ne_opening_of_not_isBracket : kind ≠ .opening bracket := by
  rintro rfl
  simp [TokenKind.isBracket] at h

theorem ne_closing_of_not_isBracket : kind ≠ .closing bracket := by
  rintro rfl
  simp [TokenKind.isBracket] at h

end NotBracket

/-! ## What readings take -/

/-- The tokens are taken and give the nodes of the walk.  Without the
closing brackets that close nothing, the tokens are those of `kept`. -/
inductive Covers : List Token → List Token → List Node → Prop where
  | nil : Covers [] [] []
  | plain {token : Token} {taken kept : List Token} {walk : List Node}
      (hcontent : token.kind.isContent = false) (hbracket : token.kind.isBracket = false)
      (h : Covers taken kept walk) : Covers (token :: taken) (token :: kept) walk
  | stray {token : Token} {taken kept : List Token} {walk : List Node} (bracket : Bracket)
      (hclosing : token.kind = .closing bracket) (h : Covers taken kept walk) :
      Covers (token :: taken) kept walk
  | node {token : Token} {taken kept : List Token} {node : Node} {walk : List Node}
      (hcontent : token.kind.isContent = true) (hbracket : token.kind.isBracket = false)
      (h : Covers taken kept walk) : Covers (token :: taken) (token :: kept) (node :: walk)
  | group {opening closing : Token} {inner keptInner rest keptRest : List Token}
      {body walk : List Node} (bracket : Bracket) (hopening : opening.kind = .opening bracket)
      (hclosing : closing.kind = .closing bracket)
      (hinner : Covers inner keptInner (Node.preorderAll body))
      (hrest : Covers rest keptRest walk) :
      Covers (opening :: (inner ++ closing :: rest)) (opening :: (keptInner ++ closing :: keptRest))
        (.group (.bracketed bracket) body :: (Node.preorderAll body ++ walk))

namespace Covers

variable {taken kept first second : List Token} {walk more : List Node}

theorem append {keptFirst keptSecond : List Token} (hfirst : Covers first keptFirst walk)
    (hsecond : Covers second keptSecond more) :
    Covers (first ++ second) (keptFirst ++ keptSecond) (walk ++ more) := by
  induction hfirst with
  | nil => exact hsecond
  | plain hcontent hbracket _ ih => exact .plain hcontent hbracket ih
  | stray bracket hclosing _ ih => exact .stray bracket hclosing ih
  | node hcontent hbracket _ ih => exact .node hcontent hbracket ih
  | group bracket hopening hclosing hinner _ _ ih =>
    simpa using Covers.group bracket hopening hclosing hinner ih

/-- What is kept is properly nested. -/
theorem balanced (h : Covers taken kept walk) : Balanced kept := by
  induction h with
  | nil => exact .nil
  | plain _ hbracket _ ih | node _ hbracket _ ih => exact .token hbracket ih
  | stray _ _ _ ih => exact ih
  | group bracket hopening hclosing _ _ ihinner ihrest =>
    exact .group bracket hopening hclosing ihinner ihrest

theorem sublist (h : Covers taken kept walk) : kept.Sublist taken := by
  induction h with
  | nil => exact .slnil
  | plain _ _ _ ih | node _ _ _ ih => exact ih.cons_cons _
  | stray _ _ _ ih => exact ih.cons _
  | group _ _ _ _ _ ihinner ihrest => exact (ihinner.append (ihrest.cons_cons _)).cons_cons _

/-- Only closing brackets are left out. -/
theorem filter_eq (h : Covers taken kept walk) :
    kept.filter (!·.kind.isClosing) = taken.filter (!·.kind.isClosing) := by
  induction h with
  | nil => rfl
  | plain _ _ _ ih | node _ _ _ ih => simp only [List.filter_cons, ih]
  | stray bracket hclosing _ ih =>
    rw [List.filter_cons_of_neg (by simp [hclosing, TokenKind.isClosing]), ih]
  | group _ _ _ _ _ ihinner ihrest =>
    simp only [List.filter_cons, List.filter_append, ihinner, ihrest]

/-- Each node is that of a content token. -/
theorem length_eq (h : Covers taken kept walk) : walk.length = contentCount taken := by
  induction h with
  | nil => rfl
  | plain hcontent _ _ ih => rw [contentCount_cons_of_not_content hcontent, ih]
  | stray bracket hclosing _ ih =>
    rw [contentCount_cons_of_not_content (by rw [hclosing]; rfl), ih]
  | node hcontent _ _ ih => rw [contentCount_cons_of_content hcontent, List.length_cons, ih]
  | group bracket hopening hclosing _ _ ihinner ihrest =>
    rw [contentCount_cons_of_content (by rw [hopening]; rfl), contentCount_append,
      contentCount_cons_of_not_content (by rw [hclosing]; rfl), List.length_cons,
      List.length_append, ihinner, ihrest]

/-- Each opening bracket has a closing one of its kind. -/
theorem countKind_le (h : Covers taken kept walk) (bracket : Bracket) :
    countKind (.opening bracket) taken ≤ countKind (.closing bracket) taken := by
  induction h with
  | nil => exact Nat.le_refl 0
  | plain _ hbracket _ ih | node _ hbracket _ ih =>
    rw [countKind_cons_of_ne (ne_opening_of_not_isBracket hbracket bracket),
      countKind_cons_of_ne (ne_closing_of_not_isBracket hbracket bracket)]
    exact ih
  | stray other hclosing _ ih =>
    rw [countKind_cons_of_ne (by simp [hclosing]), countKind_cons]
    omega
  | group other hopening hclosing _ _ ihinner ihrest =>
    simp only [countKind_cons, countKind_append, hopening, hclosing]
    by_cases heq : other = bracket
    · simp [heq]
      omega
    · simp [heq]
      omega

/-- If there are no more closing brackets of any kind than opening ones,
then no closing bracket is stray. -/
theorem eq_of_countKind_le (h : Covers taken kept walk)
    (hcount : ∀ bracket,
      countKind (.closing bracket) taken ≤ countKind (.opening bracket) taken) :
    kept = taken := by
  induction h with
  | nil => rfl
  | plain _ hbracket _ ih | node _ hbracket _ ih =>
    rw [ih]
    intro bracket
    have hboth := hcount bracket
    rwa [countKind_cons_of_ne (ne_opening_of_not_isBracket hbracket bracket),
      countKind_cons_of_ne (ne_closing_of_not_isBracket hbracket bracket)] at hboth
  | stray bracket hclosing h =>
    have hboth := hcount bracket
    have hle := h.countKind_le bracket
    rw [countKind_cons, if_pos hclosing, countKind_cons_of_ne (by simp [hclosing])] at hboth
    omega
  | @group _ _ inner _ rest _ _ _ other hopening hclosing hinner hrest ihinner ihrest =>
    -- Neither part has more opening brackets, so neither has fewer.
    have hparts (bracket : Bracket) :
        countKind (.closing bracket) inner ≤ countKind (.opening bracket) inner ∧
          countKind (.closing bracket) rest ≤ countKind (.opening bracket) rest := by
      have hboth := hcount bracket
      have hleInner := hinner.countKind_le bracket
      have hleRest := hrest.countKind_le bracket
      simp only [countKind_cons, countKind_append, hopening, hclosing] at hboth
      by_cases heq : other = bracket
      · simp [heq] at hboth
        omega
      · simp [heq] at hboth
        omega
    rw [ihinner fun bracket => (hparts bracket).1, ihrest fun bracket => (hparts bracket).2]

end Covers

/-- The nodes are read from the tokens that stand in front of `after`. -/
def Takes (tokens : List Token) (nodes : List Node) (after : List Token) : Prop :=
  ∃ taken kept, tokens = taken ++ after ∧ Covers taken kept (Node.preorderAll nodes)

namespace Takes

variable {token : Token} {tokens rest middle after : List Token} {nodes more : List Node}

theorem refl (tokens : List Token) : Takes tokens [] tokens := ⟨[], [], rfl, .nil⟩

theorem append (hfirst : Takes tokens nodes middle) (hmore : Takes middle more after) :
    Takes tokens (nodes ++ more) after := by
  obtain ⟨first, keptFirst, rfl, hfirst⟩ := hfirst
  obtain ⟨second, keptSecond, rfl, hsecond⟩ := hmore
  refine ⟨first ++ second, keptFirst ++ keptSecond, by rw [List.append_assoc], ?_⟩
  rw [Node.preorderAll_append]
  exact hfirst.append hsecond

/-- A token that makes no node is passed, also if it is a bracket that
closes nothing. -/
theorem skip (hcontent : token.kind.isContent = false) (h : Takes rest nodes after) :
    Takes (token :: rest) nodes after := by
  obtain ⟨taken, kept, rfl, hcovers⟩ := h
  cases hbracket : token.kind.isBracket with
  | false => exact ⟨token :: taken, token :: kept, rfl, .plain hcontent hbracket hcovers⟩
  | true =>
    obtain ⟨bracket, hclosing⟩ : ∃ bracket, token.kind = .closing bracket := by
      cases hkind : token.kind <;> simp_all [TokenKind.isContent, TokenKind.isBracket]
    exact ⟨token :: taken, kept, rfl, .stray bracket hclosing hcovers⟩

theorem dropWhile {passes : Token → Bool}
    (hpasses : ∀ token, passes token = true → token.kind.isContent = false)
    (h : Takes (tokens.dropWhile passes) nodes after) : Takes tokens nodes after := by
  induction tokens with
  | nil => exact h
  | cons token rest ih =>
    rw [List.dropWhile_cons] at h
    split at h
    next hpass => exact .skip (hpasses token hpass) (ih h)
    · exact h

theorem afterTabs (h : Takes (afterTabs tokens) nodes after) : Takes tokens nodes after := by
  refine h.dropWhile fun token hkind => ?_
  rw [beq_iff_eq.mp hkind]
  rfl

theorem afterNewlines (h : Takes (afterNewlines tokens) nodes after) :
    Takes tokens nodes after := by
  refine h.dropWhile fun token hkind => ?_
  rw [beq_iff_eq.mp hkind]
  rfl

theorem afterTrivia (h : Takes (afterTrivia tokens) nodes after) : Takes tokens nodes after := by
  refine h.dropWhile fun token htrivia => ?_
  cases hkind : token.kind <;> simp_all [TokenKind.isTrivia, TokenKind.isContent]

theorem nextLine (width : Nat) (h : Takes (nextLine width tokens).2 nodes after) :
    Takes tokens nodes after := by
  induction tokens generalizing width with
  | nil => exact h
  | cons token rest ih =>
    rw [Layout.nextLine] at h
    split at h
    next hkind => exact .skip (by rw [hkind]; rfl) (ih (width + 1) h)
    split at h
    next hkind => exact .skip (by rw [hkind]; rfl) (ih 0 h)
    · exact h

/-- The sign of an assignment or a `then` is passed without a node. -/
theorem tail {kind : TokenKind} (hstarts : startsWith kind tokens = true)
    (hkind : kind.isContent = false) (h : Takes tokens.tail nodes after) :
    Takes tokens nodes after := by
  obtain ⟨token, rest, rfl, htoken⟩ := exists_of_startsWith hstarts
  exact .skip (by rw [htoken, hkind]) h

/-- A node comes from its token, and its children from what follows. -/
theorem node {node : Node} (hcontent : token.kind.isContent = true)
    (hbracket : token.kind.isBracket = false) (h : Takes rest node.children after) :
    Takes (token :: rest) [node] after := by
  obtain ⟨taken, kept, rfl, hcovers⟩ := h
  refine ⟨token :: taken, token :: kept, rfl, ?_⟩
  rw [Node.preorderAll_singleton]
  exact .node hcontent hbracket hcovers

/-- The node of a group comes from its opening bracket, and its children
from the tokens in front of the closing one. -/
theorem group {opening closing : Token} {bracket : Bracket} {body : List Node}
    (hopening : opening.kind = .opening bracket) (hclosing : closing.kind = .closing bracket)
    (h : Takes rest body (closing :: after)) :
    Takes (opening :: rest) [.group (.bracketed bracket) body] after := by
  obtain ⟨inner, kept, rfl, hcovers⟩ := h
  refine ⟨opening :: (inner ++ [closing]), opening :: (kept ++ [closing]), by simp, ?_⟩
  have hgroup := Covers.group bracket hopening hclosing hcovers .nil
  rw [List.append_nil] at hgroup
  rwa [Node.preorderAll_singleton]

end Takes

/-- A reading takes brackets in pairs, but for stray closing ones. -/
theorem Reads.takes {limit : Nat} {mode : Mode} {context : Context}
    {tokens after : List Token} {nodes : List Node}
    (h : Reads limit mode context tokens nodes after) : Takes tokens nodes after := by
  induction h with
  | leaf kind hkind =>
    refine .node ?_ ?_ (.refl _)
    · cases kind <;> rw [hkind] <;> rfl
    · cases kind <;> rw [hkind] <;> rfl
  | newline hkind => exact .skip (by rw [hkind]; rfl) (.afterNewlines (.refl _))
  | skip hkind => exact .skip hkind (.refl _)
  | lineFunction hkind _ _ _ ih | blockFunction hkind _ _ _ ih | returnExpression hkind _ _ ih =>
    exact .node (by rw [hkind]; rfl) (by rw [hkind]; rfl) ih
  | assignment hkind _ hassigns _ ih =>
    exact .node (by rw [hkind]; rfl) (by rw [hkind]; rfl) (.afterTabs (.tail hassigns rfl ih))
  | operator hkind _ _ _ hnext _ _ _ ih =>
    rw [← hnext] at ih
    exact .node (by rw [hkind]; rfl) (by rw [hkind]; rfl) ih.afterTrivia
  | bracketed bracket hkind _ hbody ih =>
    obtain ⟨closing, behind, rfl, hclosing⟩ := hbody.upTo_after
    exact .group hkind (beq_iff_eq.mp hclosing) ih
  | lineIf hkind _ _ hthen _ ihcondition ihbody =>
    exact .node (by rw [hkind]; rfl) (by rw [hkind]; rfl)
      (ihcondition.append (.tail hthen rfl ihbody))
  | blockIf hkind _ _ _ _ ihcondition ihbody =>
    exact .node (by rw [hkind]; rfl) (by rw [hkind]; rfl) (ihcondition.append ihbody)
  | lineElse hkind _ hnext _ _ ih =>
    rw [← hnext] at ih
    exact .node (by rw [hkind]; rfl) (by rw [hkind]; rfl) ih.afterTabs
  | blockElse hkind _ _ _ ih =>
    exact .node (by rw [hkind]; rfl) (by rw [hkind]; rfl) ih.afterTabs
  | stop | done => exact .refl _
  | step _ _ _ _ ihitem ihmore | statement _ _ ihitem ihmore => exact ihitem.append ihmore
  | lastLine _ _ ih => exact ih
  | moreLines _ hnext _ ihline ihmore =>
    refine ihline.append (.nextLine 0 ?_)
    rw [(nextLine_of_continuation? hnext).2]
    exact ihmore
  | block hline _ ih =>
    refine .nextLine 0 ?_
    rw [hline]
    exact ih

/-! ## Partners -/

/-- The closing bracket behind tokens that are properly nested is the first
one that is not matched in front of it, so there is one such place only. -/
theorem Balanced.eq_of_append_closing {inner other rest behind : List Token}
    {closing partner : Token} {bracket kind : Bracket} (hinner : Balanced inner)
    (hother : Balanced other) (hclosing : closing.kind = .closing bracket)
    (hpartner : partner.kind = .closing kind)
    (h : inner ++ closing :: rest = other ++ partner :: behind) : inner = other := by
  induction hinner generalizing other rest behind closing partner bracket kind with
  | nil =>
    cases hother with
    | nil => rfl
    | token hbracket =>
      obtain ⟨rfl, -⟩ := List.cons.inj h
      simp [hclosing, TokenKind.isBracket] at hbracket
    | group _ hopening =>
      obtain ⟨rfl, -⟩ := List.cons.inj h
      simp [hclosing] at hopening
  | token hbracket _ ih =>
    cases hother with
    | nil =>
      obtain ⟨rfl, -⟩ := List.cons.inj h
      simp [hpartner, TokenKind.isBracket] at hbracket
    | token _ hother =>
      obtain ⟨rfl, hmore⟩ := List.cons.inj h
      rw [ih hother hclosing hpartner hmore]
    | group _ hopening =>
      obtain ⟨rfl, -⟩ := List.cons.inj h
      simp [hopening, TokenKind.isBracket] at hbracket
  | group _ hopening hend _ _ ihinner ihrest =>
    cases hother with
    | nil =>
      obtain ⟨rfl, -⟩ := List.cons.inj h
      simp [hpartner] at hopening
    | token hbracket =>
      obtain ⟨rfl, -⟩ := List.cons.inj h
      simp [hopening, TokenKind.isBracket] at hbracket
    | group _ _ hotherEnd hwithin hbehind =>
      simp only [List.append_assoc, List.cons_append] at h
      obtain ⟨rfl, hmore⟩ := List.cons.inj h
      obtain rfl := ihinner hwithin hend hotherEnd hmore
      obtain ⟨rfl, hbeyond⟩ := List.cons.inj (List.append_cancel_left hmore)
      rw [ihrest hbehind hclosing hpartner hbeyond]

/-- The walk has the node of a group where the content tokens of `front` are
passed, and below it as many nodes as `inner` has content tokens. -/
def HasGroup (walk : List Node) (front : List Token) (bracket : Bracket) (inner : List Token) :
    Prop :=
  ∃ before body after,
    walk = before ++ .group (.bracketed bracket) body :: (Node.preorderAll body ++ after) ∧
      before.length = contentCount front ∧
      (Node.preorderAll body).length = contentCount inner

namespace HasGroup

variable {walk : List Node} {front inner : List Token} {bracket : Bracket}

theorem prepend (h : HasGroup walk front bracket inner) (more : List Node) (others : List Token)
    (hlength : more.length = contentCount others) :
    HasGroup (more ++ walk) (others ++ front) bracket inner := by
  obtain ⟨before, body, after, rfl, hbefore, hbody⟩ := h
  refine ⟨more ++ before, body, after, by rw [List.append_assoc], ?_, hbody⟩
  rw [List.length_append, contentCount_append, hlength, hbefore]

theorem append (h : HasGroup walk front bracket inner) (more : List Node) :
    HasGroup (walk ++ more) front bracket inner := by
  obtain ⟨before, body, after, rfl, hbefore, hbody⟩ := h
  exact ⟨before, body, after ++ more, by simp, hbefore, hbody⟩

end HasGroup

section Groups

variable {taken kept front behind : List Token} {walk : List Node} {opening : Token}
  {bracket : Bracket}

/-- If nothing of a group and of what follows it is left out, then nothing
of the group is. -/
theorem Covers.eq_of_append {inner keptInner rest keptRest : List Token} {first last : Token}
    {below more : List Node} (hinner : Covers inner keptInner below)
    (hrest : Covers rest keptRest more)
    (h : first :: (keptInner ++ last :: keptRest) = first :: (inner ++ last :: rest)) :
    keptInner = inner ∧ keptRest = rest := by
  have hleInner := hinner.sublist.length_le
  have hleRest := hrest.sublist.length_le
  have hlength := congrArg List.length h
  simp only [List.length_cons, List.length_append] at hlength
  obtain ⟨heq, hmore⟩ := List.append_inj (List.cons.inj h).2 (by omega)
  exact ⟨heq, (List.cons.inj hmore).2⟩

/-- An opening bracket is not the first token if that is another one. -/
theorem exists_front_of_ne {token : Token} (hopening : opening.kind = .opening bracket)
    (htoken : token.kind ≠ .opening bracket)
    (h : token :: taken = front ++ opening :: behind) :
    ∃ more, front = token :: more ∧ taken = more ++ opening :: behind := by
  cases front with
  | nil =>
    obtain ⟨rfl, -⟩ := List.cons.inj h
    exact absurd hopening htoken
  | cons first more =>
    obtain ⟨rfl, rfl⟩ := List.cons.inj h
    exact ⟨more, rfl, rfl⟩

/-- An opening bracket among tokens without stray brackets has a partner,
and the nodes of the tokens between the two are below the node of the
group. -/
theorem Covers.exists_group (h : Covers taken kept walk) (hkept : kept = taken)
    (htaken : taken = front ++ opening :: behind) (hopening : opening.kind = .opening bracket) :
    ∃ inner closing rest, behind = inner ++ closing :: rest ∧
      closing.kind = .closing bracket ∧ Balanced inner ∧ HasGroup walk front bracket inner := by
  induction h generalizing front behind with
  | nil => simp at htaken
  | plain hcontent hbracket _ ih =>
    obtain ⟨more, rfl, rfl⟩ :=
      exists_front_of_ne hopening (ne_opening_of_not_isBracket hbracket bracket) htaken
    obtain ⟨inner, closing, rest, rfl, hclosing, hinner, hgroup⟩ := ih (List.cons.inj hkept).2 rfl
    refine ⟨inner, closing, rest, rfl, hclosing, hinner, ?_⟩
    exact hgroup.prepend [] [_] (contentCount_cons_of_not_content hcontent []).symm
  | stray _ _ h =>
    have hlength := h.sublist.length_le
    rw [hkept, List.length_cons] at hlength
    omega
  | node hcontent hbracket _ ih =>
    obtain ⟨more, rfl, rfl⟩ :=
      exists_front_of_ne hopening (ne_opening_of_not_isBracket hbracket bracket) htaken
    obtain ⟨inner, closing, rest, rfl, hclosing, hinner, hgroup⟩ := ih (List.cons.inj hkept).2 rfl
    refine ⟨inner, closing, rest, rfl, hclosing, hinner, ?_⟩
    exact hgroup.prepend [_] [_] (contentCount_cons_of_content hcontent []).symm
  | @group first last inner keptInner rest keptRest body walk other hfirst hlast hinner hrest
      ihinner ihrest =>
    obtain ⟨rfl, rfl⟩ := hinner.eq_of_append hrest hkept
    cases front with
    | nil =>
      obtain ⟨rfl, rfl⟩ := List.cons.inj htaken
      obtain rfl : other = bracket := by simpa [hfirst] using hopening
      exact ⟨keptInner, last, keptRest, rfl, hlast, hinner.balanced, [], body, walk, rfl, rfl,
        hinner.length_eq⟩
    | cons token front =>
      obtain ⟨rfl, hmore⟩ := List.cons.inj htaken
      rcases List.append_eq_append_iff.mp hmore with
        ⟨middle, rfl, hbeyond⟩ | ⟨middle, rfl, hbeyond⟩
      · -- The bracket stands behind the group.
        obtain ⟨more, rfl, rfl⟩ := exists_front_of_ne hopening (by simp [hlast]) hbeyond
        obtain ⟨inner, closing, rest, rfl, hclosing, hbalanced, hgroup⟩ := ihrest rfl rfl
        refine ⟨inner, closing, rest, rfl, hclosing, hbalanced, ?_⟩
        have hlength := (Covers.group other hfirst hlast hinner .nil).length_eq
        rw [List.append_nil] at hlength
        simpa using hgroup.prepend _ _ hlength
      · -- The bracket stands in the group, and so does its partner.
        have hne : middle ≠ [] := by
          rintro rfl
          obtain ⟨rfl, -⟩ := List.cons.inj hbeyond
          simp [hlast] at hopening
        obtain ⟨more, rfl, rfl⟩ := exists_cons_of_append hne hbeyond
        obtain ⟨inner, closing, rest, rfl, hclosing, hbalanced, hgroup⟩ := ihinner rfl rfl
        refine ⟨inner, closing, rest ++ last :: keptRest, by simp, hclosing, hbalanced, ?_⟩
        have hcontent : first.kind.isContent = true := by rw [hfirst]; rfl
        exact (hgroup.append walk).prepend [_] [first]
          (contentCount_cons_of_content hcontent []).symm

end Groups

/-! ## Places -/

/-- The nodes that come from the tokens at the places from `start` to before
`stop`.  A walk meets one node for each content token, in the order of the
tokens. -/
def Program.nodesFrom (program : Program) (tokens : List Token) (start stop : Nat) : List Node :=
  (program.preorder.take (contentCount (tokens.take stop))).drop
    (contentCount (tokens.take start))

/-- The tokens at the two places are partners: an opening bracket and the
closing one of its kind that ends its group. -/
structure Partners (tokens : List Token) (bracket : Bracket) (i j : Nat) : Prop where
  opening : tokens[i]?.map Token.kind = some (.opening bracket)
  closing : tokens[j]?.map Token.kind = some (.closing bracket)
  lt : i < j
  inside : Balanced ((tokens.take j).drop (i + 1))

section Places

variable {tokens : List Token} {program : Program} {token : Token} {i j : Nat}
  {bracket : Bracket}

theorem take_append_cons_of_getElem? (h : tokens[i]? = some token) :
    tokens = tokens.take i ++ token :: tokens.drop (i + 1) := by
  obtain ⟨hlt, rfl⟩ := List.getElem?_eq_some_iff.mp h
  rw [← List.drop_eq_getElem_cons hlt, List.take_append_drop]

theorem Partners.exists_split (h : Partners tokens bracket i j) :
    ∃ opening closing, opening.kind = .opening bracket ∧ closing.kind = .closing bracket ∧
      tokens = tokens.take i ++
        opening :: ((tokens.take j).drop (i + 1) ++ closing :: tokens.drop (j + 1)) := by
  obtain ⟨opening, hi, hopening⟩ := Option.map_eq_some_iff.mp h.opening
  obtain ⟨closing, hj, hclosing⟩ := Option.map_eq_some_iff.mp h.closing
  refine ⟨opening, closing, hopening, hclosing, ?_⟩
  have hfront : tokens.take j = tokens.take i ++ opening :: (tokens.take j).drop (i + 1) := by
    have hinside : (tokens.take j)[i]? = some opening := by
      rw [List.getElem?_take_of_lt h.lt, hi]
    have hsplit := take_append_cons_of_getElem? hinside
    rwa [List.take_take, Nat.min_eq_left (Nat.le_of_lt h.lt)] at hsplit
  calc tokens
      = tokens.take j ++ closing :: tokens.drop (j + 1) := take_append_cons_of_getElem? hj
    _ = (tokens.take i ++ opening :: (tokens.take j).drop (i + 1)) ++
          closing :: tokens.drop (j + 1) := by rw [← hfront]
    _ = tokens.take i ++
          opening :: ((tokens.take j).drop (i + 1) ++ closing :: tokens.drop (j + 1)) := by
        rw [List.append_assoc, List.cons_append]

theorem contentCount_take_succ (h : tokens[i]? = some token)
    (hcontent : token.kind.isContent = true) :
    contentCount (tokens.take (i + 1)) = contentCount (tokens.take i) + 1 := by
  obtain ⟨hlt, rfl⟩ := List.getElem?_eq_some_iff.mp h
  rw [List.take_succ_eq_append_getElem hlt, contentCount_append,
    contentCount_cons_of_content hcontent]
  rfl

/-- The content tokens in front come first. -/
theorem exists_contentSites_append (front rest : List Token) :
    ∃ sites, contentSites (front ++ rest) = sites ++ contentSites rest ∧
      sites.length = contentCount front := by
  induction front with
  | nil => exact ⟨[], rfl, rfl⟩
  | cons token front ih =>
    obtain ⟨sites, hsites, hlength⟩ := ih
    cases hcontent : token.kind.isContent with
    | true =>
      refine ⟨(token, front ++ rest) :: sites, ?_, ?_⟩
      · rw [List.cons_append, contentSites_cons hcontent, hsites, List.cons_append]
      · rw [contentCount_cons_of_content hcontent, List.length_cons, hlength]
    | false =>
      refine ⟨sites, ?_, ?_⟩
      · rw [List.cons_append, contentSites_skip hcontent, hsites]
      · rw [contentCount_cons_of_not_content hcontent, hlength]

/-- The node at a place is what the content token there makes. -/
theorem exists_nodesFrom_origin (h : parse tokens = .ok program) (htoken : tokens[i]? = some token)
    (hcontent : token.kind.isContent = true) :
    ∃ node, program.nodesFrom tokens i (i + 1) = [node] ∧
      Origin token (tokens.drop (i + 1)) node := by
  obtain ⟨sites, hsites, horigins⟩ := (parse_eq_ok_iff.mp h).accounts
  rw [contentSites, List.append_nil] at hsites
  obtain ⟨before, hbefore, hlength⟩ :=
    exists_contentSites_append (tokens.take i) (token :: tokens.drop (i + 1))
  rw [← take_append_cons_of_getElem? htoken, hsites, contentSites_cons hcontent] at hbefore
  -- Between the two counts there is one site, that of the token.
  have hplace := List.forall₂_drop before.length
    (List.forall₂_take (before.length + 1) horigins)
  rw [hbefore, List.take_length_add_append, List.take_succ_cons, List.take_zero, List.drop_left,
    hlength, ← contentCount_take_succ htoken hcontent, List.forall₂_cons_left_iff] at hplace
  obtain ⟨node, more, horigin, hmore, hnode⟩ := hplace
  rw [List.forall₂_nil_left_iff.mp hmore] at hnode
  exact ⟨node, hnode, horigin⟩

/-- The nodes of a group and of what is in it, by their places. -/
theorem Partners.nodesFrom_eq (h : Partners tokens bracket i j)
    (hgroup : HasGroup program.preorder (tokens.take i) bracket ((tokens.take j).drop (i + 1))) :
    ∃ body, program.nodesFrom tokens i (i + 1) = [.group (.bracketed bracket) body] ∧
      program.nodesFrom tokens (i + 1) j = Node.preorderAll body := by
  obtain ⟨before, body, after, hwalk, hbefore, hbody⟩ := hgroup
  obtain ⟨opening, hi, hopening⟩ := Option.map_eq_some_iff.mp h.opening
  have hnext : contentCount (tokens.take (i + 1)) = before.length + 1 := by
    rw [contentCount_take_succ hi (by rw [hopening]; rfl), hbefore]
  refine ⟨body, ?_, ?_⟩
  · rw [Program.nodesFrom, hnext, ← hbefore, hwalk, List.take_length_add_append, List.drop_left]
    rfl
  · have hinside : contentCount (tokens.take j) =
        before.length + 1 + (Node.preorderAll body).length := by
      rw [← List.take_append_drop (i + 1) (tokens.take j), contentCount_append, List.take_take,
        Nat.min_eq_left h.lt, hnext, hbody]
    have hfront :
        (before ++ [Node.group (.bracketed bracket) body]).length = before.length + 1 := by
      rw [List.length_append, List.length_singleton]
    rw [Program.nodesFrom, hinside, hnext, hwalk, List.append_cons, ← hfront,
      List.take_length_add_append, List.take_left, List.drop_left]

end Places

/-- The brackets of tokens that parse are properly nested once some closing
ones are left out.  If there are as many closing brackets of each kind as
opening ones, then none need be left out, and the nodes below that of an
opening bracket are those that come from the tokens between it and its
partner. -/
theorem parse_scopes {tokens : List Token} {program : Program}
    (h : parse tokens = .ok program) :
    (∃ kept, kept.Sublist tokens ∧
      kept.filter (!·.kind.isClosing) = tokens.filter (!·.kind.isClosing) ∧ Balanced kept) ∧
    (∀ i token, tokens[i]? = some token → token.kind.isContent = true →
      ∃ node, program.nodesFrom tokens i (i + 1) = [node] ∧
        Origin token (tokens.drop (i + 1)) node) ∧
    ((∀ bracket, countKind (.closing bracket) tokens = countKind (.opening bracket) tokens) →
      Balanced tokens ∧
      ∀ bracket i j, Partners tokens bracket i j →
        ∃ body, program.nodesFrom tokens i (i + 1) = [.group (.bracketed bracket) body] ∧
          program.nodesFrom tokens (i + 1) j = Node.preorderAll body) := by
  obtain ⟨taken, kept, htaken, hcovers⟩ := (parse_eq_ok_iff.mp h).takes
  obtain rfl : tokens = taken := by rw [htaken, List.append_nil]
  refine ⟨⟨kept, hcovers.sublist, hcovers.filter_eq, hcovers.balanced⟩,
    fun i token => exists_nodesFrom_origin h, fun hcount => ?_⟩
  have hkept : kept = tokens :=
    hcovers.eq_of_countKind_le fun bracket => Nat.le_of_eq (hcount bracket)
  refine ⟨hkept ▸ hcovers.balanced, fun bracket i j hpartners => ?_⟩
  obtain ⟨opening, closing, hopening, hclosing, hsplit⟩ := hpartners.exists_split
  obtain ⟨inner, partner, rest, hbehind, hpartner, hbalanced, hgroup⟩ :=
    hcovers.exists_group hkept hsplit hopening
  rw [← hpartners.inside.eq_of_append_closing hbalanced hclosing hpartner hbehind] at hgroup
  exact hpartners.nodesFrom_eq hgroup

/-- Two closing brackets that close nothing, and then brackets in brackets,
with a return that runs to the end of its group. -/
theorem parse_scopes_of_stray_and_nested :
    let last : Token := ⟨.endOfInput, ""⟩
    let stray : List Token := [⟨.opening .round, "("⟩, ⟨.ident, "x"⟩, ⟨.closing .curly, "\x7d"⟩,
      ⟨.closing .round, ")"⟩, ⟨.closing .round, ")"⟩, last]
    let nested : List Token := [⟨.opening .round, "("⟩, ⟨.opening .square, "["⟩, ⟨.ident, "x"⟩,
      ⟨.closing .square, "]"⟩, ⟨.returnMark, "^"⟩, ⟨.opening .round, "("⟩, ⟨.number, "1"⟩,
      ⟨.closing .round, ")"⟩, ⟨.closing .round, ")"⟩, ⟨.ident, "y"⟩, last]
    let program : Program := ⟨[.group (.bracketed .round)
      [.group (.bracketed .square) [.leaf .ident "x"],
        .group .returnExpression [.group (.bracketed .round) [.leaf .number "1"]]],
      .leaf .ident "y"]⟩
    (parse stray = .ok ⟨[.group (.bracketed .round) [.leaf .ident "x"]]⟩ ∧
      ∃ kept, kept.Sublist stray ∧
        kept.filter (!·.kind.isClosing) = stray.filter (!·.kind.isClosing) ∧ Balanced kept) ∧
    parse nested = .ok program ∧
      (∀ bracket, countKind (.closing bracket) nested = countKind (.opening bracket) nested) ∧
      Balanced nested ∧ Partners nested .round 0 8 ∧
      ∃ body, program.nodesFrom nested 0 1 = [.group (.bracketed .round) body] ∧
        program.nodesFrom nested 1 8 = Node.preorderAll body := by
  intro last stray nested program
  have hstray : parse stray = .ok ⟨[.group (.bracketed .round) [.leaf .ident "x"]]⟩ := rfl
  have hnested : parse nested = .ok program := by decide +kernel
  have hcount (bracket : Bracket) :
      countKind (.closing bracket) nested = countKind (.opening bracket) nested := by
    cases bracket <;> rfl
  have hpartners : Partners nested .round 0 8 := by
    refine ⟨rfl, rfl, by decide, @Balanced.group _ _ [_] _ .square rfl rfl (.token rfl .nil) ?_⟩
    exact .token rfl (@Balanced.group _ _ [_] _ .round rfl rfl (.token rfl .nil) .nil)
  obtain ⟨hbalanced, hscopes⟩ := (parse_scopes hnested).2.2 hcount
  exact ⟨⟨hstray, (parse_scopes hstray).1⟩, hnested, hcount, hbalanced, hpartners,
    hscopes .round 0 8 hpartners⟩

end Flick
