import Flick.Proofs.Nesting
import Flick.Proofs.Reading.Adequacy

/-!
# Block structure from indentation

A document is a list of clauses.  A clause is a line of words, or a header
with clauses below it.  `Rendered` says which tokens write clauses down:
one line for each line and header, the clauses below a header all of one
width that is greater than the header's, and blank lines anywhere between
two lines.  Nothing marks the end of a block.

The parser finds the clauses again.  `Clause.nodes` is the tree that a
clause stands for, and `parse_document` says that every rendering of a
document parses to the trees of its clauses, if they nest no deeper than
the limit.

The proof follows the rendering.  What stands behind a block `Closes` its
width: there a line ends, and the next line that is not blank is narrower
than the block, or there is none.  So each open block sees its own end in
the same place, however many of them end there, and the block that the
next line belongs to goes on.
-/

namespace Flick

open Layout

/-! ## Documents -/

/-- A word of a line: a literal, or a name that is no operator. -/
structure Word where
  kind : Leaf
  text : String
  plain : kind = .ident → text ∉ prefixOperators

namespace Word

def token (word : Word) : Token := ⟨word.kind.tokenKind, word.text⟩

def node (word : Word) : Node := .leaf word.kind word.text

end Word

/-- A line that opens a block. -/
inductive Header where
  /-- `name = ->` -/
  | function (name : String)
  /-- `if` and the words of the condition -/
  | conditional (first : Word) (more : List Word)
  /-- `else` -/
  | otherwise

/-- A line of words, or a header and the clauses of its block.  Neither is
ever empty. -/
inductive Clause where
  | line (first : Word) (more : List Word)
  | block (header : Header) (first : Clause) (more : List Clause)

/-- The node of a header with this body.  The form is that of a function. -/
def Header.node (form : Form) (body : List Node) : Header → Node
  | .function name => .assignment name [.group form body]
  | .conditional first more => .conditional ((first :: more).map Word.node) body
  | .otherwise => .group .elseStatement body

mutual

/-- The trees of a clause.  The form is that of a function right in it; a
function in a block is never a top-level one. -/
def Clause.nodes (form : Form) : Clause → List Node
  | .line first more => (first :: more).map Word.node
  | .block header first more =>
    [header.node form (first.nodes .function ++ nodesAll .function more)]

/-- The trees of several clauses. -/
def Clause.nodesAll (form : Form) : List Clause → List Node
  | [] => []
  | clause :: clauses => clause.nodes form ++ nodesAll form clauses

end

/-! ## Renderings

Only the texts of words and of assigned names matter, so every other token
may have any text. -/

/-- Tokens that are all tabs. -/
def AllTabs (tokens : List Token) : Prop := ∀ token ∈ tokens, token.kind = .tab

/-- The tokens with any number of tabs behind each. -/
inductive Spaced : List Token → List Token → Prop where
  | nil : Spaced [] []
  | cons {token : Token} {tokens gap line : List Token} (hgap : AllTabs gap)
      (hline : Spaced tokens line) : Spaced (token :: tokens) (token :: (gap ++ line))

/-- There may be no tabs at all. -/
theorem Spaced.refl (tokens : List Token) : Spaced tokens tokens := by
  induction tokens with
  | nil => exact .nil
  | cons token tokens ih =>
    have hgap : AllTabs [] := fun _ hmem => absurd hmem (by simp)
    exact .cons hgap ih

/-- The end of a line, blank lines, and the tabs at the start of a line of
this width.  A line of nothing but tabs is blank. -/
inductive Margin : Nat → List Token → Prop where
  | tabs {lineEnd : Token} {tabs : List Token} (hend : lineEnd.kind = .newline)
      (htabs : AllTabs tabs) : Margin tabs.length (lineEnd :: tabs)
  | blank {width : Nat} {lineEnd : Token} {tabs margin : List Token}
      (hend : lineEnd.kind = .newline) (htabs : AllTabs tabs) (hmargin : Margin width margin) :
      Margin width (lineEnd :: (tabs ++ margin))

/-- The tokens of a header. -/
inductive Header.Written : Header → List Token → Prop where
  | function {name sign arrow : Token} (hname : name.kind = .ident) (hsign : sign.kind = .assign)
      (harrow : arrow.kind = .arrow) : Written (.function name.text) [name, sign, arrow]
  | conditional {keyword : Token} {first : Word} {more : List Word}
      (hkeyword : keyword.kind = .ifWord) :
      Written (.conditional first more) (keyword :: (first :: more).map Word.token)
  | otherwise {keyword : Token} (hkeyword : keyword.kind = .elseWord) : Written .otherwise [keyword]

/-- The tokens write down the clauses at this width, a margin before each. -/
inductive Rendered : Nat → List Clause → List Token → Prop where
  | nil {width : Nat} : Rendered width [] []
  | line {width : Nat} {margin line rest : List Token} {first : Word} {more : List Word}
      {clauses : List Clause} (hmargin : Margin width margin)
      (hline : Spaced ((first :: more).map Word.token) line)
      (hrest : Rendered width clauses rest) :
      Rendered width (.line first more :: clauses) (margin ++ (line ++ rest))
  | block {width inner : Nat} {margin tokens line body rest : List Token} {header : Header}
      {first : Clause} {more clauses : List Clause} (hmargin : Margin width margin)
      (hheader : header.Written tokens) (hline : Spaced tokens line) (hdeeper : width < inner)
      (hbody : Rendered inner (first :: more) body) (hrest : Rendered width clauses rest) :
      Rendered width (.block header first more :: clauses) (margin ++ (line ++ (body ++ rest)))

/-- The tokens are a document of these clauses.  The first line has no line
end before it, and the last one may have one behind it. -/
inductive Document (clauses : List Clause) : List Token → Prop where
  | unended {lines : List Token} {last : Token} (hlines : Rendered 0 clauses lines)
      (hlast : last.kind = .endOfInput) : Document clauses (lines.tail ++ [last])
  | ended {width : Nat} {lines margin : List Token} {last : Token}
      (hlines : Rendered 0 clauses lines) (hmargin : Margin width margin)
      (hlast : last.kind = .endOfInput) : Document clauses (lines.tail ++ (margin ++ [last]))

/-! ## Measuring a rendering -/

/-- The first token makes a node. -/
def AtContent (tokens : List Token) : Prop :=
  ∃ token rest, tokens = token :: rest ∧ token.kind.isContent = true

/-- The first token ends a line. -/
def AtLineEnd (tokens : List Token) : Prop :=
  ∃ token rest, tokens = token :: rest ∧ token.kind.endsLine = true

theorem afterTabs_gap {gap : List Token} (hgap : AllTabs gap) (tokens : List Token) :
    afterTabs (gap ++ tokens) = afterTabs tokens := by
  induction gap with
  | nil => rfl
  | cons tab gap ih =>
    obtain ⟨htab, hgap⟩ := List.forall_mem_cons.mp hgap
    rw [List.cons_append, afterTabs, List.dropWhile_cons_of_pos (by simp [htab])]
    exact ih hgap

theorem nextLine_gap {gap : List Token} (hgap : AllTabs gap) (width : Nat)
    (tokens : List Token) :
    nextLine width (gap ++ tokens) = nextLine (width + gap.length) tokens := by
  induction gap generalizing width with
  | nil => rfl
  | cons tab gap ih =>
    obtain ⟨htab, hgap⟩ := List.forall_mem_cons.mp hgap
    rw [List.cons_append, nextLine, if_pos htab, List.length_cons, ih hgap]
    congr 1
    omega

namespace Margin

variable {width : Nat} {margin : List Token}

theorem exists_newline (h : Margin width margin) :
    ∃ lineEnd rest, margin = lineEnd :: rest ∧ lineEnd.kind = .newline := by
  cases h with
  | tabs hend => exact ⟨_, _, rfl, hend⟩
  | blank hend => exact ⟨_, _, rfl, hend⟩

theorem startsWith_newline (h : Margin width margin) (tokens : List Token) :
    startsWith .newline (margin ++ tokens) = true := by
  obtain ⟨lineEnd, rest, rfl, hend⟩ := h.exists_newline
  simp [startsWith, hend]

theorem atLineEnd (h : Margin width margin) (tokens : List Token) :
    AtLineEnd (margin ++ tokens) := by
  obtain ⟨lineEnd, rest, rfl, hend⟩ := h.exists_newline
  exact ⟨lineEnd, rest ++ tokens, rfl, by rw [hend]; rfl⟩

/-- A margin holds nothing but layout. -/
theorem layout (h : Margin width margin) :
    ∀ token ∈ margin, token.kind = .newline ∨ token.kind = .tab := by
  induction h with
  | tabs hend htabs =>
    intro token hmem
    rcases List.mem_cons.mp hmem with rfl | hmem
    · exact .inl hend
    · exact .inr (htabs token hmem)
  | blank hend htabs _ ih =>
    intro token hmem
    rcases List.mem_cons.mp hmem with rfl | hmem
    · exact .inl hend
    rcases List.mem_append.mp hmem with hmem | hmem
    · exact .inr (htabs token hmem)
    · exact ih token hmem

/-- A margin leads to its line, whatever tabs stand before it. -/
theorem nextLine_eq (h : Margin width margin) {token : Token} (htab : token.kind ≠ .tab)
    (hnewline : token.kind ≠ .newline) (before : Nat) (rest : List Token) :
    nextLine before (margin ++ token :: rest) = (width, token :: rest) := by
  induction h generalizing before with
  | tabs hend htabs =>
    rw [List.cons_append, nextLine_newline hend, nextLine_gap htabs, Nat.zero_add, nextLine,
      if_neg htab, if_neg hnewline]
  | blank hend htabs _ ih =>
    rw [List.cons_append, nextLine_newline hend, List.append_assoc, nextLine_gap htabs, ih]

/-- Behind a margin a block of this width goes on, and no other one. -/
theorem continuation?_eq (h : Margin width margin) {line : List Token} (hcontent : AtContent line)
    (other : Nat) :
    continuation? other (margin ++ line) = if width = other then some line else none := by
  obtain ⟨token, rest, rfl, hcontent⟩ := hcontent
  have hline : nextLine 0 (margin ++ token :: rest) = (width, token :: rest) :=
    h.nextLine_eq (by intro hkind; simp [hkind, TokenKind.isContent] at hcontent)
      (by intro hkind; simp [hkind, TokenKind.isContent] at hcontent) 0 rest
  have hend : atEnd (token :: rest) = false := by
    rw [atEnd, beq_eq_false_iff_ne]
    intro hkind
    simp [hkind, TokenKind.isContent] at hcontent
  simp [continuation?, h.startsWith_newline, hline, hend]

/-- Behind the last margin no block goes on. -/
theorem continuation?_endOfInput (h : Margin width margin) {last : Token}
    (hlast : last.kind = .endOfInput) (other : Nat) :
    continuation? other (margin ++ [last]) = none := by
  have hline : nextLine 0 (margin ++ [last]) = (width, [last]) :=
    h.nextLine_eq (by simp [hlast]) (by simp [hlast]) 0 []
  simp [continuation?, hline, atEnd, hlast]

end Margin

theorem AtContent.append {tokens : List Token} (h : AtContent tokens) (more : List Token) :
    AtContent (tokens ++ more) := by
  obtain ⟨token, rest, rfl, hcontent⟩ := h
  exact ⟨token, rest ++ more, rfl, hcontent⟩

/-- A line begins with its first token. -/
theorem Spaced.exists_cons {token : Token} {tokens line : List Token}
    (h : Spaced (token :: tokens) line) :
    ∃ gap rest, line = token :: (gap ++ rest) ∧ AllTabs gap ∧ Spaced tokens rest := by
  cases h with
  | cons hgap hline => exact ⟨_, _, rfl, hgap, hline⟩

theorem Spaced.atContent {tokens line : List Token} (h : Spaced tokens line)
    (hcontent : AtContent tokens) : AtContent line := by
  obtain ⟨token, more, rfl, hkind⟩ := hcontent
  obtain ⟨gap, rest, rfl, -, -⟩ := h.exists_cons
  exact ⟨token, gap ++ rest, rfl, hkind⟩

theorem Word.atContent (first : Word) (more : List Word) :
    AtContent ((first :: more).map Word.token) := by
  refine ⟨first.token, more.map Word.token, rfl, ?_⟩
  obtain ⟨kind, text, plain⟩ := first
  cases kind <;> rfl

theorem Header.Written.atContent {header : Header} {tokens : List Token}
    (h : header.Written tokens) : AtContent tokens := by
  cases h with
  | function hname => exact ⟨_, _, rfl, by rw [hname]; rfl⟩
  | conditional hkeyword => exact ⟨_, _, rfl, by rw [hkeyword]; rfl⟩
  | otherwise hkeyword => exact ⟨_, _, rfl, by rw [hkeyword]; rfl⟩

/-- A rendering of at least one clause is a margin and then a line. -/
theorem Rendered.exists_line {width : Nat} {clause : Clause} {clauses : List Clause}
    {tokens : List Token} (h : Rendered width (clause :: clauses) tokens) :
    ∃ margin line, tokens = margin ++ line ∧ Margin width margin ∧ AtContent line := by
  cases h with
  | line hmargin hline =>
    exact ⟨_, _, rfl, hmargin, (hline.atContent (Word.atContent _ _)).append _⟩
  | block hmargin hheader hline =>
    exact ⟨_, _, rfl, hmargin, (hline.atContent hheader.atContent).append _⟩

/-! ## Where blocks end -/

/-- In front of these tokens a line ends, and every block of at least this
width ends with it. -/
structure Closes (width : Nat) (following : List Token) : Prop where
  lineEnd : AtLineEnd following
  ends : ∀ other, width ≤ other → continuation? other following = none

namespace Closes

/-- The end of the input closes every block. -/
theorem endOfInput {last : Token} (hlast : last.kind = .endOfInput) (width : Nat) :
    Closes width [last] where
  lineEnd := ⟨last, [], rfl, by rw [hlast]; rfl⟩
  ends := by
    intro other _
    simp [continuation?, startsWith, hlast]

/-- So does the end of the input behind a last margin. -/
theorem margin {last : Token} {before : Nat} {margin : List Token}
    (hmargin : Margin before margin) (hlast : last.kind = .endOfInput) (width : Nat) :
    Closes width (margin ++ [last]) where
  lineEnd := hmargin.atLineEnd [last]
  ends := by
    intro other _
    exact hmargin.continuation?_endOfInput hlast other

/-- What stands behind a block closes it: either more clauses of a smaller
width follow, or what follows these. -/
theorem behind {width inner : Nat} {clauses : List Clause} {rest following : List Token}
    (h : Closes width following) (hrest : Rendered width clauses rest) (hdeeper : width < inner) :
    Closes inner (rest ++ following) := by
  cases clauses with
  | nil =>
    cases hrest
    refine ⟨h.lineEnd, fun other hother => h.ends other ?_⟩
    omega
  | cons clause clauses =>
    obtain ⟨margin, line, rfl, hmargin, hcontent⟩ := hrest.exists_line
    rw [List.append_assoc]
    refine ⟨hmargin.atLineEnd _, fun other hother => ?_⟩
    rw [hmargin.continuation?_eq (hcontent.append following), if_neg]
    omega

end Closes

/-! ## Reading a line -/

section Lines

variable {limit : Nat} {context : Context} {stops : TokenKind → Bool}

/-- Tabs between the items of a line make no node. -/
theorem Reads.gap {gap tokens after : List Token} {nodes : List Node} (hgap : AllTabs gap)
    (hstops : stops .tab = false) (h : Reads limit (.upTo stops) context tokens nodes after) :
    Reads limit (.upTo stops) context (gap ++ tokens) nodes after := by
  induction gap with
  | nil => exact h
  | cons tab gap ih =>
    obtain ⟨htab, hgap⟩ := List.forall_mem_cons.mp hgap
    have hskip : Reads limit .item context (tab :: (gap ++ tokens)) [] (gap ++ tokens) :=
      .skip (by rw [htab]; rfl) (by simp [htab])
    exact .step (by rw [htab, hstops]) (by simp [htab]) hskip (ih hgap)

theorem Word.kind_ne (word : Word) : word.token.kind ≠ .tab ∧ word.token.kind ≠ .assign ∧
    word.token.kind ≠ .endOfInput := by
  obtain ⟨kind, text, plain⟩ := word
  cases kind <;> simp [token, Leaf.tokenKind]

/-- No sign of an assignment follows the words of a line. -/
theorem assigns_words {gap line rest : List Token} {last : Token} {words : List Word}
    (hgap : AllTabs gap) (hline : Spaced (words.map Word.token) line)
    (hlast : last.kind.endsLine = true) :
    Parser.assigns (gap ++ (line ++ last :: rest)) = false := by
  -- The first token past the gap is the next word, or the end of the line.
  have next {token : Token} (htab : token.kind ≠ .tab) (hassign : token.kind ≠ .assign)
      (more : List Token) : startsWith .assign (afterTabs (token :: more)) = false := by
    simp [afterTabs, startsWith, htab, hassign]
  rw [Parser.assigns, afterTabs_gap hgap]
  cases words with
  | nil =>
    cases hline
    refine next ?_ ?_ rest
    · intro hkind
      simp [hkind, TokenKind.endsLine] at hlast
    · intro hkind
      simp [hkind, TokenKind.endsLine] at hlast
  | cons word words =>
    obtain ⟨gap', line', rfl, -, -⟩ := hline.exists_cons
    exact next word.kind_ne.1 word.kind_ne.2.1 _

/-- Words are read one leaf each, up to the end of the line. -/
theorem reads_words {line rest : List Token} {last : Token} {words : List Word}
    (hline : Spaced (words.map Word.token) line) (hlast : last.kind.endsLine = true)
    (hstops : stops last.kind = true) (htab : stops .tab = false)
    (hword : ∀ kind : Leaf, stops kind.tokenKind = false) :
    Reads limit (.upTo stops) context (line ++ last :: rest) (words.map Word.node)
      (last :: rest) := by
  induction words generalizing line with
  | nil =>
    cases hline
    exact .stop hstops
  | cons word words ih =>
    obtain ⟨gap, line', rfl, hgap, hline'⟩ := hline.exists_cons
    have hleaf : Reads limit .item context (word.token :: (gap ++ (line' ++ last :: rest)))
        [word.node] (gap ++ (line' ++ last :: rest)) :=
      .leaf word.kind rfl fun hident => ⟨assigns_words hgap hline' hlast, word.plain hident⟩
    have hmore := (ih hline').gap hgap htab
    rw [List.cons_append, List.append_assoc]
    exact .step (hword word.kind) word.kind_ne.2.2 hleaf hmore

/-- Outside of brackets a line goes to its end. -/
theorem Context.stopsLine_eq_endsLine (hcloser : context.closer = none) :
    context.stopsLine [] = TokenKind.endsLine := by
  funext kind
  simp [stopsLine, closes, hcloser]

/-- A reading of one item up to the end of its line. -/
theorem Reads.lineOfItem {tokens following : List Token} {nodes : List Node}
    (hcloser : context.closer = none) (hcontent : AtContent tokens)
    (hitem : Reads limit .item context tokens nodes following) (hend : AtLineEnd following) :
    Reads limit (.upTo (context.stopsLine [])) context tokens nodes following := by
  obtain ⟨token, rest, rfl, hcontent⟩ := hcontent
  obtain ⟨last, behind, rfl, hlast⟩ := hend
  rw [Context.stopsLine_eq_endsLine hcloser]
  have hstop : Reads limit (.upTo TokenKind.endsLine) context (last :: behind) []
      (last :: behind) := .stop hlast
  have hends : token.kind.endsLine = false := by
    cases hkind : token.kind <;> simp_all [TokenKind.endsLine, TokenKind.isContent]
  have hne : token.kind ≠ .endOfInput := by
    intro hkind
    simp [hkind, TokenKind.isContent] at hcontent
  have h := Reads.step hends hne hitem hstop
  rwa [List.append_nil] at h

end Lines

/-! ## Reading a header -/

/-- The context of the block below a header. -/
def Header.inside (context : Context) : Header → Context
  | .function _ => context.nest.nest
  | .conditional .. | .otherwise => context.nest

theorem Header.closer_inside (header : Header) (context : Context) :
    (header.inside context).closer = context.closer := by
  cases header <;> rfl

theorem depthAll_words (words : List Word) : Node.depthAll (words.map Word.node) = 0 := by
  induction words with
  | nil => rfl
  | cons word words ih => simp [Node.depthAll, Word.node, Node.depth, ih]

/-- A header counts the containers that it opens. -/
theorem Header.nesting_inside (header : Header) (context : Context) (form : Form)
    (body : List Node) :
    (header.inside context).nesting + Node.depthAll body =
      context.nesting + (header.node form body).depth := by
  cases header with
  | function name =>
    simp only [inside, node, Context.nest, Node.depth, Node.depthAll]
    omega
  | conditional first more =>
    simp only [inside, node, Context.nest, Node.depth, depthAll_words]
    omega
  | otherwise =>
    simp only [inside, node, Context.nest, Node.depth]
    omega

section Headers

variable {limit : Nat} {context : Context} {line body following : List Token}
  {nodes : List Node}

/-- Tabs behind a header are not part of its block. -/
theorem Reads.blockOfGap {gap : List Token} (hgap : AllTabs gap)
    (hbody : startsWith .newline body = true)
    (h : Reads limit .block context body nodes following) :
    Reads limit .block context (gap ++ body) nodes following := by
  obtain ⟨lineEnd, body, rfl, hend⟩ := exists_of_startsWith hbody
  rw [Reads.block_iff] at h ⊢
  rw [nextLine_gap hgap, nextLine_newline hend]
  rwa [nextLine_newline hend] at h

theorem afterTabs_newline (hbody : startsWith .newline body = true) : afterTabs body = body := by
  obtain ⟨lineEnd, body, rfl, hend⟩ := exists_of_startsWith hbody
  simp [afterTabs, hend]

/-- `name = ->` with a block below is an assignment of a function. -/
theorem reads_functionHeader {name sign arrow : Token} (hname : name.kind = .ident)
    (hsign : sign.kind = .assign) (harrow : arrow.kind = .arrow)
    (hline : Spaced [name, sign, arrow] line) (hcloser : context.closer = none)
    (hnesting : context.nest.nesting < limit) (hbody : startsWith .newline body = true)
    (hblock : Reads limit .block context.nest.nest body nodes following)
    (hend : AtLineEnd following) :
    Reads limit .item context (line ++ body)
      [.assignment name.text [.group context.functionForm nodes]] following := by
  obtain ⟨gap, line, rfl, hgap, hline⟩ := hline.exists_cons
  obtain ⟨gap', line, rfl, hgap', hline⟩ := hline.exists_cons
  obtain ⟨gap'', line, rfl, hgap'', hline⟩ := hline.exists_cons
  cases hline
  simp only [List.append_nil, List.cons_append, List.append_assoc]
  have hnested : context.nest.closer = none := hcloser
  have hfunction : Reads limit .item context.nest (arrow :: (gap'' ++ body))
      [.group context.functionForm nodes] following := by
    refine .blockFunction harrow hnesting ?_ (hblock.blockOfGap hgap'' hbody)
    rw [afterTabs_gap hgap'', afterTabs_newline hbody, hbody]
  have hassigned : Reads limit (.upTo (context.nest.stopsLine [])) context.nest
      (gap' ++ arrow :: (gap'' ++ body)) [.group context.functionForm nodes] following := by
    have hcontent : AtContent (arrow :: (gap'' ++ body)) := ⟨arrow, _, rfl, by rw [harrow]; rfl⟩
    refine Reads.gap hgap' ?_ (hfunction.lineOfItem hnested hcontent hend)
    rw [Context.stopsLine_eq_endsLine hnested]
    rfl
  have hsigns : afterTabs (gap ++ sign :: (gap' ++ arrow :: (gap'' ++ body))) =
      sign :: (gap' ++ arrow :: (gap'' ++ body)) := by
    rw [afterTabs_gap hgap]
    simp [afterTabs, hsign]
  refine .assignment hname (Nat.lt_of_succ_lt hnesting) ?_ ?_
  · rw [Parser.assigns, hsigns, startsWith, hsign]
    rfl
  · rw [hsigns]
    exact hassigned

/-- `if` and words with a block below are a conditional. -/
theorem reads_ifHeader {keyword : Token} {words : List Word} (hkeyword : keyword.kind = .ifWord)
    (hline : Spaced (keyword :: words.map Word.token) line) (hnesting : context.nesting < limit)
    (hbody : startsWith .newline body = true)
    (hblock : Reads limit .block context.nest body nodes following) :
    Reads limit .item context (line ++ body) [.conditional (words.map Word.node) nodes]
      following := by
  obtain ⟨gap, line, rfl, hgap, hline⟩ := hline.exists_cons
  obtain ⟨lineEnd, body, rfl, hend⟩ := exists_of_startsWith hbody
  rw [List.cons_append, List.append_assoc]
  have hcondition : Reads limit (.upTo endsCondition) context.nest
      (gap ++ (line ++ lineEnd :: body)) (words.map Word.node) (lineEnd :: body) := by
    refine Reads.gap hgap rfl (reads_words hline (by rw [hend]; rfl) (by rw [hend]; rfl) rfl ?_)
    intro kind
    cases kind <;> rfl
  refine .blockIf hkeyword hnesting hcondition ?_ hblock
  rw [startsWith, hend]
  rfl

/-- `else` with a block below is an else statement. -/
theorem reads_elseHeader {keyword : Token} (hkeyword : keyword.kind = .elseWord)
    (hline : Spaced [keyword] line) (hnesting : context.nesting < limit)
    (hbody : startsWith .newline body = true)
    (hblock : Reads limit .block context.nest body nodes following) :
    Reads limit .item context (line ++ body) [.group .elseStatement nodes] following := by
  obtain ⟨gap, line, rfl, hgap, hline⟩ := hline.exists_cons
  cases hline
  rw [List.append_nil, List.cons_append]
  have htabs : afterTabs (gap ++ body) = body := by
    rw [afterTabs_gap hgap, afterTabs_newline hbody]
  refine .blockElse hkeyword hnesting ?_ ?_
  · rw [htabs, hbody]
  · rw [htabs]
    exact hblock

/-- A header and the block below it are one item. -/
theorem Header.Written.reads_item {header : Header} {tokens : List Token}
    (h : header.Written tokens) (hline : Spaced tokens line) (hcloser : context.closer = none)
    (hnesting : (header.inside context).nesting ≤ limit)
    (hbody : startsWith .newline body = true)
    (hblock : Reads limit .block (header.inside context) body nodes following)
    (hend : AtLineEnd following) :
    Reads limit .item context (line ++ body) [header.node context.functionForm nodes]
      following := by
  cases h with
  | function hname hsign harrow =>
    exact reads_functionHeader hname hsign harrow hline hcloser hnesting hbody hblock hend
  | conditional hkeyword => exact reads_ifHeader hkeyword hline hnesting hbody hblock
  | otherwise hkeyword => exact reads_elseHeader hkeyword hline hnesting hbody hblock

end Headers

/-! ## Reading a block -/

theorem Clause.nodes_block (form : Form) (header : Header) (first : Clause)
    (more : List Clause) :
    (Clause.block header first more).nodes form =
      [header.node form (nodesAll .function (first :: more))] := by
  rw [nodes, nodesAll]

section Blocks

variable {limit width : Nat} {context : Context} {clauses : List Clause}
  {tokens rest line following start : List Token} {nodes : List Node}

/-- In front of further clauses a block of their width goes on. -/
theorem Rendered.exists_continuation {clause : Clause}
    (h : Rendered width (clause :: clauses) tokens) (following : List Token) :
    ∃ line, continuation? width (tokens ++ following) = some line := by
  obtain ⟨margin, line, rfl, hmargin, hcontent⟩ := h.exists_line
  refine ⟨line ++ following, ?_⟩
  rw [List.append_assoc, hmargin.continuation?_eq (hcontent.append following), if_pos rfl]

/-- The first line of a block and the clauses behind it. -/
theorem Rendered.reads_first (hrest : Rendered width clauses rest)
    (hclose : Closes width following)
    (hfirst : Reads limit (.upTo (context.stopsLine [])) context start nodes (rest ++ following))
    (hmore : ∀ next, continuation? width (rest ++ following) = some next →
      Reads limit (.lines width) context next (Clause.nodesAll context.functionForm clauses)
        following) :
    Reads limit (.lines width) context start
      (nodes ++ Clause.nodesAll context.functionForm clauses) following := by
  cases clauses with
  | nil =>
    cases hrest
    rw [Clause.nodesAll, List.append_nil]
    exact .lastLine hfirst (hclose.ends width (Nat.le_refl _))
  | cons clause clauses =>
    obtain ⟨next, hnext⟩ := hrest.exists_continuation following
    exact .moreLines hfirst hnext (hmore next hnext)

/-- A line of words is read to its end. -/
theorem reads_wordLine {words : List Word} (hline : Spaced (words.map Word.token) line)
    (hcloser : context.closer = none) (hend : AtLineEnd following) :
    Reads limit (.upTo (context.stopsLine [])) context (line ++ following)
      (words.map Word.node) following := by
  obtain ⟨last, rest, rfl, hlast⟩ := hend
  rw [Context.stopsLine_eq_endsLine hcloser]
  refine reads_words hline hlast hlast rfl fun kind => ?_
  cases kind <;> rfl

/-- The tokens are read as the clauses of a block of this width, wherever
the block closes behind them and their nodes fit in. -/
def ReadsClauses (limit width : Nat) (clauses : List Clause) (tokens : List Token) : Prop :=
  ∀ context following start, context.closer = none → Closes width following →
    context.nesting + Node.depthAll (Clause.nodesAll context.functionForm clauses) ≤ limit →
    continuation? width (tokens ++ following) = some start →
    Reads limit (.lines width) context start (Clause.nodesAll context.functionForm clauses)
      following

/-- A header is read with its block, if the clauses of the block are.
Inside of the block no function is a top-level one. -/
theorem Header.Written.reads_line {header : Header} {inner : Nat} {first : Clause}
    {more : List Clause} {body : List Token} (h : header.Written tokens)
    (hline : Spaced tokens line) (hbody : Rendered inner (first :: more) body)
    (hclauses : ReadsClauses limit inner (first :: more) body)
    (hcloser : context.closer = none) (hclose : Closes inner following)
    (hdepth : context.nesting + Node.depthAll
      ((Clause.block header first more).nodes context.functionForm) ≤ limit) :
    Reads limit (.upTo (context.stopsLine [])) context (line ++ (body ++ following))
      ((Clause.block header first more).nodes context.functionForm) following := by
  rw [Clause.nodes_block] at hdepth ⊢
  rw [Node.depthAll_singleton, ← header.nesting_inside] at hdepth
  have hcloser' : (header.inside context).closer = none :=
    (header.closer_inside context).trans hcloser
  obtain ⟨start, hstart⟩ := hbody.exists_continuation following
  obtain ⟨hnewline, hnext⟩ := nextLine_of_continuation? hstart
  have hlines := hclauses ((header.inside context).inBlock (.indented inner)) following start
    hcloser' hclose hdepth hstart
  have hitem := h.reads_item hline hcloser (by omega) hnewline (.block hnext hlines)
    hclose.lineEnd
  exact hitem.lineOfItem hcloser ((hline.atContent h.atContent).append _) hclose.lineEnd

/-- What follows a clause is a line end. -/
theorem Closes.lineEnd_behind (hclose : Closes width following)
    (hrest : Rendered width clauses rest) : AtLineEnd (rest ++ following) :=
  (hclose.behind hrest (Nat.lt_succ_self width)).lineEnd

/-- The lines of a block are read as the clauses that they render.  The
induction is on the rendering; a block below a header is one line here. -/
theorem Rendered.readsClauses (h : Rendered width clauses tokens) :
    ReadsClauses limit width clauses tokens := by
  induction h with
  | nil =>
    intro context following start hcloser hclose hdepth hstart
    rw [List.nil_append, hclose.ends _ (Nat.le_refl _)] at hstart
    cases hstart
  | @line width margin line rest first more clauses hmargin hline hrest ih =>
    intro context following start hcloser hclose hdepth hstart
    rw [Clause.nodesAll] at hdepth ⊢
    rw [Node.depthAll_append] at hdepth
    have hcontent := hline.atContent (Word.atContent first more)
    rw [List.append_assoc, List.append_assoc, hmargin.continuation?_eq (hcontent.append _),
      if_pos rfl] at hstart
    cases hstart
    have hwords : Reads limit (.upTo (context.stopsLine [])) context
        (line ++ (rest ++ following)) ((first :: more).map Word.node) (rest ++ following) :=
      reads_wordLine hline hcloser (hclose.lineEnd_behind hrest)
    rw [Clause.nodes]
    refine hrest.reads_first hclose hwords fun next hnext => ?_
    exact ih context following next hcloser hclose (by omega) hnext
  | @block width inner margin tokens line body rest header first more clauses hmargin hheader hline
      hdeeper hbody hrest ihbody ihrest =>
    intro context following start hcloser hclose hdepth hstart
    rw [Clause.nodesAll] at hdepth ⊢
    rw [Node.depthAll_append] at hdepth
    have hcontent := hline.atContent hheader.atContent
    rw [List.append_assoc, List.append_assoc, List.append_assoc,
      hmargin.continuation?_eq (hcontent.append _), if_pos rfl] at hstart
    cases hstart
    have hheaderLine := hheader.reads_line hline hbody ihbody hcloser
      (hclose.behind hrest hdeeper) (by omega)
    refine hrest.reads_first hclose hheaderLine fun next hnext => ?_
    exact ihrest context following next hcloser hclose (by omega) hnext

end Blocks

/-! ## Reading a document -/

namespace Reads

variable {limit : Nat} {context : Context} {tokens middle after : List Token}
  {nodes more : List Node}

/-- At top level a line end is passed with all that follow it, which are
passed anyway. -/
theorem program_afterNewlines_iff :
    Reads limit .program context (afterNewlines tokens) nodes after ↔
      Reads limit .program context tokens nodes after := by
  cases tokens with
  | nil => exact Iff.rfl
  | cons token rest =>
    by_cases hkind : token.kind = .newline
    · have hrest : afterNewlines (token :: rest) = afterNewlines rest := by
        simp [afterNewlines, hkind]
      rw [hrest]
      constructor
      · intro h
        exact .statement (.newline hkind) h
      · intro h
        cases h with
        | statement hitem hmore =>
          obtain ⟨rfl, rfl⟩ := (newline_iff hkind).mp hitem
          exact hmore
    · have hrest : afterNewlines (token :: rest) = token :: rest := by
        simp [afterNewlines, hkind]
      rw [hrest]

theorem program_newline_iff {token : Token} {rest : List Token} (hkind : token.kind = .newline) :
    Reads limit .program context (token :: rest) nodes after ↔
      Reads limit .program context rest nodes after := by
  have hrest : afterNewlines (token :: rest) = afterNewlines rest := by
    simp [afterNewlines, hkind]
  rw [← program_afterNewlines_iff, hrest, program_afterNewlines_iff]

/-- Layout makes no node at top level. -/
theorem program_layout {layout : List Token}
    (hlayout : ∀ token ∈ layout, token.kind = .newline ∨ token.kind = .tab)
    (h : Reads limit .program context tokens nodes after) :
    Reads limit .program context (layout ++ tokens) nodes after := by
  induction layout with
  | nil => exact h
  | cons token layout ih =>
    have hmore := ih fun other hmem => hlayout other (List.mem_cons_of_mem _ hmem)
    rw [List.cons_append]
    rcases hlayout token (by simp) with hkind | hkind
    · exact (program_newline_iff hkind).mpr hmore
    · exact .statement (.skip (by rw [hkind]; rfl) (by simp [hkind])) hmore

/-- The items of a line are items of the program. -/
theorem programOfLine {stops : TokenKind → Bool}
    (hline : Reads limit (.upTo stops) context tokens nodes middle)
    (hmore : Reads limit .program context middle more after) :
    Reads limit .program context tokens (nodes ++ more) after := by
  generalize hmode : Mode.upTo stops = mode at hline
  induction hline with
  | stop => exact hmore
  | step _ _ hitem _ _ ih =>
    rw [List.append_assoc]
    exact .statement hitem (ih hmore hmode)
  | _ => cases hmode

end Reads

section Documents

variable {limit width : Nat} {context : Context} {clauses : List Clause}
  {tokens following : List Token}

/-- At top level clauses are read as in a block. -/
theorem Rendered.reads_program (h : Rendered width clauses tokens)
    (hcloser : context.closer = none) (hclose : Closes width following)
    (hdepth : context.nesting +
      Node.depthAll (Clause.nodesAll context.functionForm clauses) ≤ limit)
    (hfollowing : Reads limit .program context following [] []) :
    Reads limit .program context (tokens ++ following)
      (Clause.nodesAll context.functionForm clauses) [] := by
  induction h with
  | nil => exact hfollowing
  | @line width margin line rest first more clauses hmargin hline hrest ih =>
    rw [Clause.nodesAll] at hdepth ⊢
    rw [Node.depthAll_append] at hdepth
    have hwords : Reads limit (.upTo (context.stopsLine [])) context
        (line ++ (rest ++ following)) ((first :: more).map Word.node) (rest ++ following) :=
      reads_wordLine hline hcloser (hclose.lineEnd_behind hrest)
    have hmore := ih hclose (by omega)
    rw [Clause.nodes, List.append_assoc, List.append_assoc]
    exact (hwords.programOfLine hmore).program_layout hmargin.layout
  | @block width inner margin tokens line body rest header first more clauses hmargin hheader hline
      hdeeper hbody hrest _ ihrest =>
    rw [Clause.nodesAll] at hdepth ⊢
    rw [Node.depthAll_append] at hdepth
    have hblock : context.nesting + Node.depthAll
        ((Clause.block header first more).nodes context.functionForm) ≤ limit := by omega
    have hheaderLine := hheader.reads_line hline hbody hbody.readsClauses hcloser
      (hclose.behind hrest hdeeper) hblock
    have hmore := ihrest hclose (by omega)
    rw [List.append_assoc, List.append_assoc, List.append_assoc]
    exact (hheaderLine.programOfLine hmore).program_layout hmargin.layout

/-- The line end before the first line does not matter. -/
theorem Rendered.program_tail {nodes : List Node} (h : Rendered width clauses tokens)
    (hreads : Reads limit .program context (tokens ++ following) nodes []) :
    Reads limit .program context (tokens.tail ++ following) nodes [] := by
  cases clauses with
  | nil =>
    cases h
    exact hreads
  | cons clause clauses =>
    obtain ⟨margin, line, rfl, hmargin, -⟩ := h.exists_line
    obtain ⟨lineEnd, rest, rfl, hend⟩ := hmargin.exists_newline
    exact (Reads.program_newline_iff hend).mp hreads

/-- The end of the input makes no node. -/
theorem reads_endOfInput {last : Token} (hlast : last.kind = .endOfInput) :
    Reads limit .program context [last] [] [] :=
  .statement (.skip (by rw [hlast]; rfl) (by simp [hlast])) .done

end Documents

/-- A document parses to the trees of its clauses, if they nest no more
containers than the limit allows. -/
theorem parse_document {clauses : List Clause} {tokens : List Token}
    (h : Document clauses tokens)
    (hdepth : Node.depthAll (Clause.nodesAll .topLevelFunction clauses) ≤ maxNesting) :
    parse tokens = .ok ⟨Clause.nodesAll .topLevelFunction clauses⟩ := by
  rw [parse_eq_ok_iff]
  have hfresh : Context.fresh.nesting +
      Node.depthAll (Clause.nodesAll Context.fresh.functionForm clauses) ≤ maxNesting := by
    show 0 + _ ≤ maxNesting
    rw [Nat.zero_add]
    exact hdepth
  cases h with
  | unended hlines hlast =>
    exact hlines.program_tail
      (hlines.reads_program rfl (.endOfInput hlast 0) hfresh (reads_endOfInput hlast))
  | ended hlines hmargin hlast =>
    exact hlines.program_tail (hlines.reads_program rfl (.margin hmargin hlast 0) hfresh
      ((reads_endOfInput hlast).program_layout hmargin.layout))

/-- A dedent to a middle width over a line of tabs, a dedent that closes
two blocks at once, and no line end at the end. -/
theorem parse_document_of_dedents :
    let lineEnd : Token := ⟨.newline, "\n"⟩
    let tab : Token := ⟨.tab, " "⟩
    let a : Word := ⟨.ident, "a", by decide⟩
    let two : Word := ⟨.number, "2", nofun⟩
    let clauses : List Clause :=
      [.block (.function "f")
        (.block (.conditional a [two]) (.line a []) [])
        [.line two [], .block .otherwise (.line two [a]) []],
        .line a []]
    let tokens : List Token :=
      [⟨.ident, "f"⟩, tab, ⟨.assign, "="⟩, ⟨.arrow, "->"⟩,
        lineEnd, tab, ⟨.ifWord, "if"⟩, a.token, two.token,
        lineEnd, tab, tab, tab, a.token,
        lineEnd, tab, tab, lineEnd, tab, two.token,
        lineEnd, tab, ⟨.elseWord, "else"⟩,
        lineEnd, tab, tab, two.token, a.token,
        lineEnd, a.token, ⟨.endOfInput, ""⟩]
    Document clauses tokens ∧
      Node.depthAll (Clause.nodesAll .topLevelFunction clauses) ≤ maxNesting ∧
      parse tokens = .ok ⟨[.assignment "f" [.group .topLevelFunction
        [.conditional [.leaf .ident "a", .leaf .number "2"] [.leaf .ident "a"], .leaf .number "2",
          .group .elseStatement [.leaf .number "2", .leaf .ident "a"]]],
        .leaf .ident "a"]⟩ := by
  intro lineEnd tab a two clauses tokens
  have htabs (count : Nat) : AllTabs (List.replicate count tab) := by
    intro token hmem
    rw [List.eq_of_mem_replicate hmem]
  have hmargin (width : Nat) : Margin width (lineEnd :: List.replicate width tab) := by
    have h : Margin (List.replicate width tab).length (lineEnd :: List.replicate width tab) :=
      .tabs rfl (htabs width)
    rwa [List.length_replicate] at h
  have hblank : Margin 1 [lineEnd, tab, tab, lineEnd, tab] :=
    .blank rfl (htabs 2) (hmargin 1)
  have helse : Rendered 1 [.block .otherwise (.line two [a]) []]
      ([lineEnd, tab] ++ ([⟨.elseWord, "else"⟩] ++
        ([lineEnd, tab, tab] ++ ([two.token, a.token] ++ []) ++ []))) :=
    .block (hmargin 1) (.otherwise rfl) (.refl _) (by decide : 1 < 2)
      (.line (hmargin 2) (.refl _) .nil) .nil
  have hif : Rendered 1 [.block (.conditional a [two]) (.line a []) [], .line two [],
      .block .otherwise (.line two [a]) []] _ :=
    .block (hmargin 1) (.conditional rfl) (.refl [⟨.ifWord, "if"⟩, a.token, two.token])
      (by decide : 1 < 3) (.line (hmargin 3) (.refl _) .nil) (.line hblank (.refl _) helse)
  have hfunction : (Header.function "f").Written [⟨.ident, "f"⟩, ⟨.assign, "="⟩, ⟨.arrow, "->"⟩] :=
    @Header.Written.function ⟨.ident, "f"⟩ _ _ rfl rfl rfl
  have hlines : Rendered 0 clauses _ :=
    .block (hmargin 0) hfunction (.cons (htabs 1) (.refl _)) (by decide : 0 < 1) hif
      (.line (hmargin 0) (.refl _) .nil)
  have hdocument : Document clauses tokens := .unended hlines rfl
  have hdepth : Node.depthAll (Clause.nodesAll .topLevelFunction clauses) ≤ maxNesting := by
    decide
  exact ⟨hdocument, hdepth, parse_document hdocument hdepth⟩
end Flick
