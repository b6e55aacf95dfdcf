import Flick.Proofs.Locality

/-!
# Statements one after the other

A token list may be cut in front of a line at column zero, if that line is
a statement of its own.  The statements in front of the cut are read as
they were, whatever stands behind it, and what stands behind it is read as
a token list of its own.  Nothing that is opened in front of the cut
reaches across, and nothing of the parser is left changed there.

`Begins` is a reading of the first statements, with what is left of the
tokens.  It can be finished by a reading of the rest, or by a failure in
the rest.  To find out whether a line is a statement of its own, it is
enough to put a single word there: if the word is the last node of the
program, then no construct took it, and `Reads.begins_or_not_leaf` cuts the
reading in front of it.  Behind the line end the word is then exchanged for
any other tokens, with the line end as a pivot.
-/

namespace Flick

open Layout

/-- The tokens begin with the statements of these nodes, and `after` is
left. -/
inductive Begins (limit : Nat) (context : Context) :
    List Token → List Node → List Token → Prop where
  | nil {tokens : List Token} : Begins limit context tokens [] tokens
  | cons {token : Token} {rest middle after : List Token} {nodes more : List Node}
      (hitem : Reads limit .item context (token :: rest) nodes middle)
      (hmore : Begins limit context middle more after) :
      Begins limit context (token :: rest) (nodes ++ more) after

namespace Begins

variable {limit : Nat} {context : Context} {tokens middle after : List Token}
  {nodes more : List Node}

theorem append (h : Begins limit context tokens nodes middle)
    (hmore : Begins limit context middle more after) :
    Begins limit context tokens (nodes ++ more) after := by
  induction h with
  | nil => exact hmore
  | cons hitem _ ih =>
    rw [List.append_assoc]
    exact .cons hitem (ih hmore)

/-- The rest is read in front of nothing that was there before. -/
theorem finish (h : Begins limit context tokens nodes middle)
    (hmore : Reads limit .program context middle more after) :
    Reads limit .program context tokens (nodes ++ more) after := by
  induction h with
  | nil => exact hmore
  | cons hitem _ ih =>
    rw [List.append_assoc]
    exact .statement hitem (ih hmore)

theorem fails {fault : Fault} (h : Begins limit context tokens nodes middle)
    (hfails : Fails limit ⟨.program, context, middle⟩ fault) :
    Fails limit ⟨.program, context, tokens⟩ fault := by
  induction h with
  | nil => exact hfails
  | cons hitem _ ih => exact fails_program_cons.mpr (.inr ⟨_, _, hitem, ih hfails⟩)

theorem suffix (h : Begins limit context tokens nodes after) : after <:+ tokens := by
  induction h with
  | nil => exact List.suffix_refl _
  | cons hitem _ ih => exact ih.trans hitem.suffix

theorem regrow {pivot : Token} {old new : List Token} (hpivot : Pivot pivot old new)
    (h : Begins limit context tokens nodes after) (hafter : pivot :: old <:+ after) :
    Begins limit context (Flick.regrow old new tokens) nodes (Flick.regrow old new after) := by
  induction h with
  | nil => exact .nil
  | cons hitem hmore ih =>
    have hmiddle := hafter.trans hmore.suffix
    have hread := hitem.regrow hpivot hmiddle
    rw [regrow_cons (hmiddle.trans hitem.suffix)] at hread ⊢
    exact .cons hread (ih hafter)

end Begins

/-! ## Where constructs end -/

section Endings

variable {limit : Nat} {context : Context} {tokens after rest : List Token} {nodes : List Node}

/-- The lines of a block end where a line ends. -/
theorem Reads.lines_after {width : Nat}
    (h : Reads limit (.lines width) context tokens nodes after) :
    ∃ token rest, after = token :: rest ∧ context.stopsLine [] token.kind = true := by
  generalize hmode : Mode.lines width = mode at h
  induction h with
  | lastLine hline => exact hline.upTo_after
  | moreLines _ _ _ _ ih => exact ih hmode
  | _ => cases hmode

theorem Reads.block_after (h : Reads limit .block context tokens nodes after) :
    ∃ token rest, after = token :: rest ∧ context.stopsLine [] token.kind = true :=
  (block_iff.mp h).lines_after

theorem Context.stopsLine_ident (context : Context) {stops : List TokenKind}
    (hstops : stops.contains .ident = false) : context.stopsLine stops .ident = false := by
  cases hcloser : context.closer <;> simp_all [stopsLine, closes, TokenKind.endsLine]

theorem eq_of_cons_suffix {first second : Token} (hfirst : first :: rest <:+ tokens)
    (hsecond : second :: rest <:+ tokens) : first = second := by
  have hsuffix := List.suffix_of_suffix_length_le hfirst hsecond (by simp)
  exact (List.cons.inj (hsuffix.eq_of_length (by simp))).1

/-- An item that ends behind a line end and in front of a name is nothing
but line ends.  A construct that runs to a line end stops in front of it,
and the others end with a token of their own. -/
theorem Reads.newline_of_ident {lineEnd word : Token}
    (h : Reads limit .item context tokens nodes (word :: rest)) (hword : word.kind = .ident)
    (hlineEnd : lineEnd.kind = .newline) (htaken : lineEnd :: word :: rest <:+ tokens) :
    nodes = [] ∧ ∃ token behind, tokens = token :: behind ∧ token.kind = .newline := by
  have hnot {stops : List TokenKind} {context : Context} (hstops : stops.contains .ident = false)
      (hafter : ∃ token behind, word :: rest = token :: behind ∧
        context.stopsLine stops token.kind = true) : False := by
    obtain ⟨token, behind, heq, hstop⟩ := hafter
    obtain ⟨rfl, -⟩ := List.cons.inj heq
    rw [hword, context.stopsLine_ident hstops] at hstop
    cases hstop
  generalize hmode : Mode.item = mode at h
  generalize hafter : word :: rest = after at h htaken hnot
  induction h with
  | leaf kind hkind =>
    obtain rfl := eq_of_cons_suffix htaken (List.suffix_refl _)
    cases kind <;> simp [hlineEnd, Leaf.tokenKind] at hkind
  | newline hkind => exact ⟨rfl, _, _, rfl, hkind⟩
  | skip _ hnewline =>
    obtain rfl := eq_of_cons_suffix htaken (List.suffix_refl _)
    exact absurd hlineEnd hnewline
  | lineFunction _ _ _ hbody | returnExpression _ _ hbody | assignment _ _ _ hbody
  | lineElse _ _ _ _ hbody | lineIf _ _ _ _ hbody => exact (hnot rfl hbody.upTo_after).elim
  | blockFunction _ _ _ hbody | blockIf _ _ _ _ hbody | blockElse _ _ _ hbody =>
    exact (hnot rfl hbody.block_after).elim
  | @operator _ token _ rest _ _ _ _ _ _ _ hnext _ _ hoperand ih =>
    have hmore := (hnext ▸ afterTrivia_suffix rest).trans (List.suffix_cons token rest)
    have hinside := List.suffix_of_suffix_length_le htaken hmore hoperand.length_lt
    exact absurd (ih rfl hafter hinside hnot).1 (by simp)
  | bracketed bracket _ _ hbody =>
    obtain ⟨closing, behind, rfl, hclosing⟩ := hbody.upTo_after
    obtain rfl := eq_of_cons_suffix htaken (hbody.suffix.trans (List.suffix_cons _ _))
    simp [hlineEnd] at hclosing
  | stop | step | lastLine | moreLines | block | done | statement => cases hmode

end Endings

/-! ## The cut -/

section Cut

variable {limit : Nat} {context : Context} {tokens : List Token} {nodes : List Node}
  {lineEnd word last : Token}

theorem reads_last (hlast : last.kind = .endOfInput) (htokens : tokens <:+ [last])
    (h : Reads limit .program context tokens nodes []) : nodes = [] := by
  have hcontent : last.kind.isContent = false := by
    rw [hlast]
    rfl
  rcases List.suffix_cons_iff.mp htokens with rfl | htokens
  · cases h with
    | statement hitem hmore =>
      obtain ⟨rfl, rfl⟩ := (Reads.skip_iff hcontent (by simp [hlast])).mp hitem
      exact (Reads.program_nil_iff.mp hmore).1
  · obtain rfl := List.suffix_nil.mp htokens
    exact (Reads.program_nil_iff.mp h).1

theorem reads_word (hword : word.kind = .ident) (hplain : word.text ∉ prefixOperators)
    (hlast : last.kind = .endOfInput)
    (h : Reads limit .program context [word, last] nodes []) :
    nodes = [.leaf .ident word.text] := by
  have hassigns : Parser.assigns [last] = false := by
    simp [Parser.assigns, afterTabs, startsWith, hlast]
  cases h with
  | statement hitem hmore =>
    obtain ⟨rfl, rfl⟩ := (Reads.leaf_iff .ident hword fun _ => ⟨hassigns, hplain⟩).mp hitem
    rw [reads_last hlast (List.suffix_refl _) hmore, List.append_nil]

/-- An item that takes the line end and the word is a construct. -/
theorem Reads.not_leaf_of_length {rest after : List Token}
    (h : Reads limit .item context tokens nodes after) (hword : word.kind = .ident)
    (htokens : lineEnd :: word :: rest <:+ tokens) (hafter : after.length ≤ rest.length) :
    ∃ node, nodes = [node] ∧ ∀ kind text, node ≠ .leaf kind text := by
  have hsuffix {token : Token} {behind : List Token}
      (h : lineEnd :: word :: rest <:+ token :: behind) : word :: rest <:+ behind := by
    rcases List.suffix_cons_iff.mp h with heq | hbehind
    · exact (List.cons.inj heq).2 ▸ List.suffix_refl _
    · exact (List.suffix_cons _ _).trans hbehind
  cases h with
  | leaf | skip =>
    have hlength := (hsuffix htokens).length_le
    rw [List.length_cons] at hlength
    omega
  | newline =>
    have hword : word :: rest <:+ afterNewlines _ :=
      suffix_dropWhile (by simp [hword]) (hsuffix htokens)
    have hlength := hword.length_le
    rw [List.length_cons] at hlength
    omega
  | _ => exact ⟨_, rfl, by simp⟩

/-- If a word is put on a line of its own behind the tokens, then either
the program is read in front of the line end as far as it goes, and the
word is its last node, or the last node is a construct. -/
theorem Reads.begins_or_not_leaf (hlineEnd : lineEnd.kind = .newline)
    (hword : word.kind = .ident) (hplain : word.text ∉ prefixOperators)
    (hlast : last.kind = .endOfInput) (htokens : [lineEnd, word, last] <:+ tokens)
    (h : Reads limit .program context tokens nodes []) :
    (∃ before token behind, nodes = before ++ [.leaf .ident word.text] ∧
        Begins limit context tokens before (token :: behind) ∧ token.kind = .newline ∧
        [lineEnd, word, last] <:+ token :: behind ∧ afterNewlines behind = [word, last]) ∨
      ∃ before node, nodes = before ++ [node] ∧ ∀ kind text, node ≠ .leaf kind text := by
  generalize hmode : Mode.program = mode at h
  generalize hafter : ([] : List Token) = after at h
  induction h with
  | done => exact absurd htokens (by simp)
  | @statement context token rest middle after nodes more hitem hmore _ ih =>
    subst hafter
    have hcut : [lineEnd, word, last] <:+ middle ∨ middle <:+ [word, last] := by
      rcases List.suffix_or_suffix_of_suffix htokens hitem.suffix with hmiddle | hmiddle
      · exact .inl hmiddle
      · refine (List.suffix_cons_iff.mp hmiddle).imp_left ?_
        rintro rfl
        exact List.suffix_rfl
    rcases hcut with hmiddle | hmiddle
    · rcases ih hmiddle rfl rfl with
        ⟨before, next, behind, rfl, hbegins, hnewline⟩ | ⟨before, node, rfl, hnode⟩
      · refine .inl ⟨nodes ++ before, next, behind, ?_, .cons hitem hbegins, hnewline⟩
        exact (List.append_assoc ..).symm
      · exact .inr ⟨nodes ++ before, node, (List.append_assoc ..).symm, hnode⟩
    · rcases List.suffix_cons_iff.mp hmiddle with rfl | hmiddle
      · -- The item ends in front of the word.
        obtain ⟨rfl, _, _, heq, hkind⟩ := hitem.newline_of_ident hword hlineEnd htokens
        obtain ⟨rfl, rfl⟩ := List.cons.inj heq
        obtain ⟨-, hbehind⟩ := (Reads.newline_iff hkind).mp hitem
        exact .inl ⟨[], token, _, reads_word hword hplain hlast hmore, .nil, hkind, htokens,
          hbehind.symm⟩
      · obtain ⟨node, rfl, hnode⟩ :=
          hitem.not_leaf_of_length hword htokens hmiddle.length_le
        exact .inr ⟨[], node, by rw [reads_last hlast hmiddle hmore]; rfl, hnode⟩
  | _ => cases hmode

end Cut

/-! ## Token lists one after the other -/

section Joined

variable {front following : List Token} {lineEnd word last first : Token}

theorem exists_newlines (tokens : List Token) :
    ∃ run, tokens = run ++ afterNewlines tokens ∧
      ∀ token ∈ run, (token.kind == .newline) = true :=
  ⟨tokens.takeWhile (·.kind == .newline), List.takeWhile_append_dropWhile.symm,
    List.all_eq_true.mp List.all_takeWhile⟩

/-- A line end is a pivot if a word of column zero is exchanged for other
tokens of column zero. -/
theorem Pivot.ofColumnZero (hlineEnd : lineEnd.kind = .newline) (hword : word.kind = .ident)
    (hfirst : first.kind ≠ .tab ∧ first.kind ≠ .newline) :
    Pivot lineEnd [word, last] (first :: following) where
  not_trivia := by simp [hlineEnd, TokenKind.isTrivia]
  not_continued width hnone := by
    have hwidth : 0 ≠ width := by
      rintro rfl
      simp [continuation?, startsWith, hlineEnd, nextLine, hword, atEnd] at hnone
    simp [continuation?, startsWith, hlineEnd, nextLine, hfirst, hwidth]

/-- If a word on the next line is a statement of its own behind the tokens,
then they begin, in front of any line at column zero, with the statements
that they had then. -/
theorem begins_of_word {limit : Nat} {context : Context} {before : List Node}
    (hlineEnd : lineEnd.kind = .newline) (hword : word.kind = .ident)
    (hplain : word.text ∉ prefixOperators) (hlast : last.kind = .endOfInput)
    (hfirst : first.kind ≠ .tab ∧ first.kind ≠ .newline)
    (h : Reads limit .program context (front ++ [lineEnd, word, last])
      (before ++ [.leaf .ident word.text]) []) :
    Begins limit context (front ++ lineEnd :: first :: following) before
      (first :: following) := by
  rcases h.begins_or_not_leaf hlineEnd hword hplain hlast (List.suffix_append _ _) with
    ⟨_, token, behind, hnodes, hbegins, hkind, hbehind, hnewlines⟩ | ⟨_, node, hnodes, hnode⟩
  · obtain ⟨rfl, -⟩ := List.append_inj' hnodes rfl
    have hpivot : Pivot lineEnd [word, last] (first :: following) :=
      .ofColumnZero hlineEnd hword hfirst
    have hread := hbegins.regrow hpivot hbehind
    rw [regrow_append_cons, regrow_cons hbehind] at hread
    -- What is left in front of the cut are line ends.
    obtain ⟨run, hrun, hlineEnds⟩ := exists_newlines behind
    rw [hnewlines] at hrun
    rw [hrun, regrow_append] at hread
    have hskip : Reads limit .item context (token :: (run ++ first :: following)) []
        (afterNewlines (run ++ first :: following)) := .newline hkind
    rw [afterNewlines, List.dropWhile_append_of_pos hlineEnds,
      List.dropWhile_cons_of_neg (by simp [hfirst])] at hskip
    have hjoined := hread.append (.cons hskip .nil)
    rwa [List.nil_append, List.append_nil] at hjoined
  · obtain ⟨-, heq⟩ := List.append_inj' hnodes rfl
    exact absurd (List.cons.inj heq).1.symm (hnode _ _)

/-- If a word on the next line is a statement of its own behind some
tokens, then so is whatever else is put there at column zero: its
statements follow theirs, and its error is the error of both. -/
theorem parse_append_statements {before : List Node} (hlineEnd : lineEnd.kind = .newline)
    (hword : word.kind = .ident) (hplain : word.text ∉ prefixOperators)
    (hlast : last.kind = .endOfInput) (hfirst : first.kind ≠ .tab ∧ first.kind ≠ .newline)
    (h : parse (front ++ [lineEnd, word, last]) = .ok ⟨before ++ [.leaf .ident word.text]⟩) :
    (∀ after, parse (first :: following) = .ok ⟨after⟩ →
      parse (front ++ [lineEnd] ++ first :: following) = .ok ⟨before ++ after⟩) ∧
    ∀ error, parse (first :: following) = .error error →
      parse (front ++ [lineEnd] ++ first :: following) = .error error := by
  have hbegins : Begins maxNesting .fresh (front ++ [lineEnd] ++ first :: following) before
      (first :: following) := by
    rw [List.append_assoc]
    exact begins_of_word hlineEnd hword hplain hlast hfirst (parse_eq_ok_iff.mp h)
  constructor
  · intro after hafter
    exact parse_eq_ok_iff.mpr (hbegins.finish (parse_eq_ok_iff.mp hafter))
  · intro error herror
    obtain ⟨fault, hfault, hfails⟩ := parse_eq_error_iff.mp herror
    exact parse_eq_error_iff.mpr ⟨fault, hfault, hbegins.fails hfails⟩

/-- Behind a block and a line of nothing but a tab, once with an `if` that
is complete and once with a group that is not. -/
theorem parse_append_statements_of_block :
    let lineEnd : Token := ⟨.newline, "\n"⟩
    let last : Token := ⟨.endOfInput, ""⟩
    let front : List Token :=
      [⟨.ident, "f"⟩, ⟨.assign, "="⟩, ⟨.arrow, "->"⟩, lineEnd, ⟨.tab, "\t"⟩, ⟨.ident, "x"⟩,
        lineEnd, ⟨.tab, "\t"⟩]
    let conditional : List Token := [⟨.ident, "y"⟩, ⟨.thenWord, "then"⟩, ⟨.number, "1"⟩, last]
    let before : List Node := [.assignment "f" [.group .topLevelFunction [.leaf .ident "x"]]]
    parse (front ++ [lineEnd, ⟨.ident, "z"⟩, last]) = .ok ⟨before ++ [.leaf .ident "z"]⟩ ∧
      parse (front ++ [lineEnd] ++ ⟨.ifWord, "if"⟩ :: conditional) =
        .ok ⟨before ++ [.conditional [.leaf .ident "y"] [.leaf .number "1"]]⟩ ∧
      parse (front ++ [lineEnd] ++ ⟨.opening .round, "("⟩ :: conditional) =
        .error (.unexpectedEnd (.bracketed .round)) := by
  intro lineEnd last front conditional before
  have h : parse (front ++ [lineEnd, ⟨.ident, "z"⟩, last]) =
      .ok ⟨before ++ [.leaf .ident "z"]⟩ := rfl
  have hok : parse (⟨.ifWord, "if"⟩ :: conditional) =
      .ok ⟨[.conditional [.leaf .ident "y"] [.leaf .number "1"]]⟩ := rfl
  have herror : parse (⟨.opening .round, "("⟩ :: conditional) =
      .error (.unexpectedEnd (.bracketed .round)) := rfl
  obtain ⟨hjoined, -⟩ := parse_append_statements rfl rfl (by decide) rfl
    (by decide : (⟨.ifWord, "if"⟩ : Token).kind ≠ .tab ∧
      (⟨.ifWord, "if"⟩ : Token).kind ≠ .newline) h
  obtain ⟨-, hfailed⟩ := parse_append_statements rfl rfl (by decide) rfl
    (by decide : (⟨.opening .round, "("⟩ : Token).kind ≠ .tab ∧
      (⟨.opening .round, "("⟩ : Token).kind ≠ .newline) h
  exact ⟨h, hjoined _ hok, hfailed _ herror⟩

end Joined

end Flick
