import Flick.Proofs.Locality

/-!
# Completing an input

An error about the end of the input means that the input is unfinished:
there are tokens that complete it.  Any other error is final.

One completion fits all inputs.  It is a *ladder*: a number, which serves
as an operand or a body that is missing, and then one line for each depth
that a construct may have, the deepest first.  Such a line, a *rung*, has a
number and one closing bracket of each kind.

A construct with `level` others around it is over before the rung of
`level`.  Its line ends in front of the rung of `level + 1`, and its group
is closed by the bracket in that rung.  Its block ends in front of the rung
of `level`, because the lines of the block have another width: the rungs
are wider than all that stands in front of the ladder, and no two of them
have the same width.

`Reads.mark_suffix` says this of readings: one that begins in front of the
place that is marked for it does not pass that place.  It follows that a
run over the tokens and the ladder never meets the end inside of a
construct (`Completion.isFinal_of_fails`).
-/

namespace Flick

open Layout

/-- An input that is to be completed: its tokens, the token that ends it,
and the most constructs that may be open. -/
structure Completion where
  front : List Token
  last : Token
  limit : Nat
  front_kind : ∀ token ∈ front, token.kind ≠ .endOfInput
  last_kind : last.kind = .endOfInput

namespace Completion

/-! ## The ladder -/

/-- The number that the ladder and each of its rungs begins with. -/
def zero : Token := ⟨.number, "0"⟩

/-- The closing brackets of a rung, from the given one on. -/
def closers : Bracket → List Token
  | .round =>
    [.ofSymbol (.closing .round), .ofSymbol (.closing .square), .ofSymbol (.closing .curly)]
  | .square => [.ofSymbol (.closing .square), .ofSymbol (.closing .curly)]
  | .curly => [.ofSymbol (.closing .curly)]

section Ladder

variable (completion : Completion)

/-- The width of a rung, which is more than that of any line in front. -/
def width (level : Nat) : Nat := completion.front.length + 1 + level

/-- The rung of a level. -/
def rung (level : Nat) : List Token :=
  List.replicate (completion.width level) (.ofSymbol .tab) ++ zero :: closers .round

/-- The rungs below a level, each on its line, and the end. -/
def rungs : Nat → List Token
  | 0 => [completion.last]
  | level + 1 => .ofSymbol .newline :: (completion.rung level ++ rungs level)

/-- All that comes after the tokens. -/
def ladder : List Token := zero :: completion.rungs (completion.limit + 1)

/-- The tokens with the ladder behind them. -/
def stream : List Token := completion.front ++ completion.ladder

end Ladder

variable {completion : Completion} {level other : Nat} {token : Token} {rest tokens : List Token}

/-- What stands in front of a closing bracket of a rung is no line end. -/
theorem exists_cons_closers_suffix (bracket : Bracket) :
    ∃ token, token.kind ≠ .newline ∧ token :: closers bracket <:+ zero :: closers .round := by
  cases bracket with
  | round => exact ⟨zero, by decide, List.suffix_refl _⟩
  | square => exact ⟨.ofSymbol (.closing .round), by decide, List.suffix_cons _ _⟩
  | curly =>
    exact ⟨.ofSymbol (.closing .square), by decide,
      (List.suffix_cons _ _).trans (List.suffix_cons _ _)⟩

theorem closers_eq_cons (bracket : Bracket) :
    ∃ rest, closers bracket = .ofSymbol (.closing bracket) :: rest := by
  cases bracket <;> exact ⟨_, rfl⟩

theorem suffix_tail (h : token :: rest <:+ tokens) : rest <:+ tokens.tail := by
  obtain ⟨front, rfl⟩ := h
  cases front with
  | nil => exact List.suffix_refl _
  | cons next front => exact (List.suffix_cons token rest).trans (List.suffix_append front _)

theorem rungs_suffix_tail {bracket : Bracket}
    (h : closers bracket ++ completion.rungs level <:+ tokens) :
    completion.rungs level <:+ tokens.tail := by
  obtain ⟨rest, hclosers⟩ := closers_eq_cons bracket
  rw [hclosers] at h
  exact (List.suffix_append rest _).trans (suffix_tail h)

theorem rungs_suffix_succ : completion.rungs level <:+ completion.rungs (level + 1) := by
  rw [rungs, ← List.cons_append]
  exact List.suffix_append _ _

theorem rungs_suffix (h : level ≤ other) : completion.rungs level <:+ completion.rungs other := by
  induction h with
  | refl => exact List.suffix_refl _
  | step _ ih => exact ih.trans rungs_suffix_succ

theorem rungs_suffix_ladder (h : level ≤ completion.limit + 1) :
    completion.rungs level <:+ completion.ladder :=
  (rungs_suffix h).trans (List.suffix_cons _ _)

/-- A rung is above the rungs that it has behind it. -/
theorem le_of_rungs_suffix (h : completion.rungs level <:+ completion.rungs other) :
    level ≤ other := by
  apply Nat.le_of_not_lt
  intro hlt
  have hlength := ((rungs_suffix hlt).trans h).length_le
  simp only [rungs, List.length_cons, List.length_append] at hlength
  omega

theorem kind_of_mem_rung (h : token ∈ completion.rung level) :
    token.kind = .tab ∨ token.kind = .number ∨ ∃ bracket, token.kind = .closing bracket := by
  simp only [rung, closers, List.mem_append, List.mem_cons, List.not_mem_nil, or_false] at h
  rcases h with htab | rfl | rfl | rfl | rfl
  · rw [(List.mem_replicate.mp htab).2]
    exact .inl rfl
  · exact .inr (.inl rfl)
  · exact .inr (.inr ⟨.round, rfl⟩)
  · exact .inr (.inr ⟨.square, rfl⟩)
  · exact .inr (.inr ⟨.curly, rfl⟩)

/-- The end is the last token of the rungs and only there, and no token of
them opens anything. -/
theorem rungs_eq_append_last (completion : Completion) (level : Nat) :
    ∃ more, completion.rungs level = more ++ [completion.last] ∧
      ∀ token ∈ more, token.kind ≠ .endOfInput ∧ ∀ rest, opened? token rest = none := by
  induction level with
  | zero => exact ⟨[], rfl, by simp⟩
  | succ level ih =>
    obtain ⟨more, hrungs, hmore⟩ := ih
    refine ⟨.ofSymbol .newline :: (completion.rung level ++ more), by simp [rungs, hrungs], ?_⟩
    intro token hmem
    rcases List.mem_cons.mp hmem with rfl | hmem
    · exact ⟨by decide, fun rest => rfl⟩
    rcases List.mem_append.mp hmem with hrung | hmem
    · rcases kind_of_mem_rung hrung with hkind | hkind | ⟨bracket, hkind⟩ <;>
        simp [hkind, opened?]
    · exact hmore token hmem

/-- The line ends of the rungs are where they begin. -/
theorem exists_rungs_of_newline (h : token :: rest <:+ completion.rungs level)
    (hkind : token.kind = .newline) :
    ∃ other < level, token :: rest = completion.rungs (other + 1) := by
  induction level with
  | zero =>
    obtain rfl : token = completion.last := by simpa [rungs] using h.subset List.mem_cons_self
    simp [completion.last_kind] at hkind
  | succ level ih =>
    rcases List.suffix_cons_iff.mp h with heq | hsuffix
    · exact ⟨level, Nat.lt_succ_self level, heq⟩
    rcases cons_suffix_append hsuffix with hbelow | ⟨mid, -, hmid⟩
    · obtain ⟨other, hother, heq⟩ := ih hbelow
      exact ⟨other, by omega, heq⟩
    · rcases kind_of_mem_rung (hmid.subset List.mem_cons_self) with hrung | hrung | ⟨_, hrung⟩ <;>
        simp [hrung] at hkind

/-- The line of a rung. -/
theorem nextLine_rungs (completion : Completion) (level : Nat) :
    nextLine 0 (completion.rungs (level + 1)) =
      (completion.width level, zero :: (closers .round ++ completion.rungs level)) := by
  have htabs (count start : Nat) (line : List Token) :
      nextLine start (List.replicate count (.ofSymbol .tab) ++ zero :: line) =
        (start + count, zero :: line) := by
    induction count generalizing start with
    | zero => simp [nextLine, zero]
    | succ count ih =>
      rw [List.replicate_succ, List.cons_append, nextLine, if_pos (by rfl), ih, Nat.add_assoc,
        Nat.add_comm 1]
  rw [rungs, nextLine_newline rfl, rung, List.append_assoc, List.cons_append, htabs, Nat.zero_add]

/-! ## The whole stream -/

theorem ladder_eq_append_last (completion : Completion) :
    ∃ more, completion.ladder = more ++ [completion.last] ∧
      ∀ token ∈ more, token.kind ≠ .endOfInput ∧ ∀ rest, opened? token rest = none := by
  obtain ⟨more, hrungs, hmore⟩ := completion.rungs_eq_append_last (completion.limit + 1)
  refine ⟨zero :: more, by rw [ladder, hrungs, List.cons_append], ?_⟩
  intro token hmem
  rcases List.mem_cons.mp hmem with rfl | hmem
  · exact ⟨by decide, fun rest => rfl⟩
  · exact hmore token hmem

theorem inert_ladder (completion : Completion) : Inert completion.ladder := by
  obtain ⟨more, hladder, hmore⟩ := completion.ladder_eq_append_last
  intro token hmem rest
  rw [hladder, List.mem_append, List.mem_singleton] at hmem
  rcases hmem with hmem | rfl
  · exact (hmore token hmem).2 rest
  · simp [opened?, completion.last_kind]

/-- A construct is opened in front of the ladder. -/
theorem ladder_suffix_of_opened (h : token :: rest <:+ completion.stream)
    (hopened : opened? token rest ≠ none) : completion.ladder <:+ rest := by
  rcases cons_suffix_append h with hladder | ⟨mid, rfl, -⟩
  · exact absurd (completion.inert_ladder token (hladder.subset List.mem_cons_self) rest) hopened
  · exact List.suffix_append mid _

/-- Nothing follows the end. -/
theorem eq_nil_of_endOfInput (h : token :: rest <:+ completion.stream)
    (hkind : token.kind = .endOfInput) : rest = [] := by
  obtain ⟨more, hladder, hmore⟩ := completion.ladder_eq_append_last
  rw [stream, hladder, ← List.append_assoc] at h
  rcases cons_suffix_append h with hlast | ⟨mid, -, hmid⟩
  · exact List.eq_nil_of_length_eq_zero (by simpa using hlast.length_le)
  · rcases List.mem_append.mp (hmid.subset List.mem_cons_self) with hfront | hmem
    · exact absurd hkind (completion.front_kind token hfront)
    · exact absurd hkind (hmore token hmem).1

/-- What is assigned begins in front of the ladder. -/
theorem ladder_suffix_of_assigns (h : completion.ladder <:+ tokens)
    (hassigns : Parser.assigns tokens = true) :
    completion.ladder <:+ (afterTabs tokens).tail :=
  suffix_tail_of_startsWith (suffix_afterTabs (by rfl) h) hassigns (by decide)

/-- In front of the ladder the input does not end. -/
theorem atEnd_eq_false (h : tokens <:+ completion.stream) (hladder : completion.ladder <:+ tokens) :
    atEnd tokens = false := by
  cases tokens with
  | nil => exact absurd hladder (by simp [ladder])
  | cons token rest =>
    apply beq_false_of_ne
    intro hkind
    obtain rfl := eq_nil_of_endOfInput h hkind
    exact absurd hladder.length_le (by simp [ladder, rungs])

/-- A line that begins in front of the ladder is less wide than each rung. -/
theorem nextLine_lt_width (h : tokens <:+ completion.stream)
    (hladder : completion.ladder <:+ tokens) (level : Nat) :
    (nextLine 0 tokens).1 < completion.width level := by
  have hwidth (start : Nat) (front line : List Token) :
      (nextLine start (front ++ zero :: line)).1 ≤ start + front.length := by
    induction front generalizing start with
    | nil => simp [nextLine, zero]
    | cons token front ih =>
      have hmore := ih (start + 1)
      have hnew := ih 0
      rw [List.cons_append, nextLine, List.length_cons]
      split
      · omega
      split
      · omega
      · omega
  obtain ⟨front, rfl⟩ := hladder
  have hline := hwidth 0 front (completion.rungs (completion.limit + 1))
  have hlength := (List.suffix_append_self_iff.mp h).length_le
  rw [ladder, width]
  omega

/-- The line after a line end begins in front of the ladder, or it is a
rung. -/
theorem nextLine_cases (h : tokens <:+ completion.stream)
    (hstart : completion.ladder <:+ tokens ∨ startsWith .newline tokens = true) :
    (completion.ladder <:+ (nextLine 0 tokens).2 ∧
        ∀ level, (nextLine 0 tokens).1 < completion.width level) ∨
      ∃ level, tokens = completion.rungs (level + 1) := by
  by_cases hladder : completion.ladder <:+ tokens
  · exact .inl ⟨suffix_nextLine (by rfl) hladder 0, nextLine_lt_width h hladder⟩
  · obtain ⟨token, rest, rfl, hkind⟩ := exists_of_startsWith (hstart.resolve_left hladder)
    have hinside : token :: rest <:+ completion.ladder :=
      (List.suffix_or_suffix_of_suffix h (List.suffix_append _ _)).resolve_right hladder
    rcases List.suffix_cons_iff.mp hinside with heq | hrungs
    · exact absurd (heq ▸ List.suffix_refl _) hladder
    · obtain ⟨level, -, heq⟩ := exists_rungs_of_newline hrungs hkind
      exact .inr ⟨level, heq⟩

/-- The next line is not the rung of a level if a rung above it is still to
come. -/
theorem nextLine_ne_width (h : tokens <:+ completion.stream)
    (hstart : completion.ladder <:+ tokens ∨ startsWith .newline tokens = true)
    (htokens : completion.rungs (level + 2) <:+ tokens) :
    (nextLine 0 tokens).1 ≠ completion.width level := by
  rcases nextLine_cases h hstart with ⟨-, hwidth⟩ | ⟨other, rfl⟩
  · exact Nat.ne_of_lt (hwidth level)
  · have hle := le_of_rungs_suffix htokens
    rw [nextLine_rungs, width, width]
    omega

/-- A rung is behind the next line if that line is not the rung. -/
theorem rungs_suffix_nextLine (h : tokens <:+ completion.stream)
    (hstart : completion.ladder <:+ tokens ∨ startsWith .newline tokens = true)
    (htokens : completion.rungs (level + 1) <:+ tokens) (hlevel : level ≤ completion.limit)
    (hwidth : (nextLine 0 tokens).1 ≠ completion.width level) :
    completion.rungs (level + 1) <:+ (nextLine 0 tokens).2 := by
  rcases nextLine_cases h hstart with ⟨hladder, -⟩ | ⟨other, rfl⟩
  · exact (rungs_suffix_ladder (by omega)).trans hladder
  · have hle := le_of_rungs_suffix htokens
    rw [nextLine_rungs] at hwidth ⊢
    have hne : other ≠ level := by
      rintro rfl
      exact hwidth rfl
    exact (rungs_suffix (by omega)).trans (List.suffix_append (zero :: closers .round) _)

/-! ## Marks

The mark of a reading is a place of the ladder that it does not pass. -/

/-- A place of the ladder that constructs with `nesting` others around them
do not pass.  There is no line end in front of it, so no run of line ends
goes over it. -/
structure IsMark (completion : Completion) (nesting : Nat) (mark : List Token) : Prop where
  below : mark <:+ completion.rungs (nesting + 1)
  behind : ∃ token, token.kind ≠ .newline ∧ token :: mark <:+ completion.ladder

/-- The reading begins in front of the mark, and the mark stops it. -/
inductive Guarded (completion : Completion) :
    Mode → Context → List Token → List Token → Prop where
  | item {context : Context} {tokens mark : List Token}
      (hmark : completion.IsMark context.nesting mark) (htokens : mark <:+ tokens.tail) :
      Guarded completion .item context tokens mark
  | upTo {stops : TokenKind → Bool} {context : Context} {tokens rest : List Token} {token : Token}
      (hmark : completion.IsMark context.nesting (token :: rest))
      (hstops : stops token.kind = true) (htokens : token :: rest <:+ tokens) :
      Guarded completion (.upTo stops) context tokens (token :: rest)
  /-- The lines have another width than the rung that is marked. -/
  | lines {width level : Nat} {context : Context} {tokens : List Token}
      (hlevel : level ≤ context.nesting) (hwidth : width ≠ completion.width level)
      (htokens : completion.rungs (level + 1) <:+ tokens) :
      Guarded completion (.lines width) context tokens (completion.rungs (level + 1))
  /-- If the first line of the block is a rung, it is one above the mark. -/
  | block {level : Nat} {context : Context} {tokens : List Token}
      (hlevel : level + 1 = context.nesting)
      (hstart : completion.ladder <:+ tokens ∨ startsWith .newline tokens = true)
      (htokens : completion.rungs (level + 2) <:+ tokens) :
      Guarded completion .block context tokens (completion.rungs (level + 1))

theorem exists_cons_suffix_rungs (bracket : Bracket) (level : Nat) :
    ∃ token, token.kind ≠ .newline ∧
      token :: (closers bracket ++ completion.rungs level) <:+ completion.rungs (level + 1) := by
  obtain ⟨token, hkind, hsuffix⟩ := exists_cons_closers_suffix bracket
  have hrung : token :: closers bracket <:+ completion.rung level :=
    hsuffix.trans (List.suffix_append _ _)
  exact ⟨token, hkind, (List.suffix_append_self_iff.mpr hrung).trans (List.suffix_cons _ _)⟩

/-- Line ends in front of a mark do not reach it. -/
theorem IsMark.suffix_afterNewlines {nesting : Nat} {mark : List Token}
    (hmark : completion.IsMark nesting mark) (hstream : token :: rest <:+ completion.stream)
    (hkind : token.kind = .newline) (h : mark <:+ rest) : mark <:+ afterNewlines rest := by
  obtain ⟨first, hfirst, hladder⟩ := hmark.behind
  have hsuffix : first :: mark <:+ token :: rest :=
    List.suffix_of_suffix_length_le (hladder.trans (List.suffix_append _ _)) hstream
      (Nat.succ_le_succ h.length_le)
  have hrest : first :: mark <:+ rest := by
    rcases List.suffix_cons_iff.mp hsuffix with heq | hrest
    · obtain ⟨rfl, -⟩ := List.cons.inj heq
      exact absurd hkind hfirst
    · exact hrest
  exact (List.suffix_cons _ _).trans (suffix_dropWhile (by simpa using hfirst) hrest)

theorem isMark_rungs {nesting : Nat} (hnesting : nesting ≤ completion.limit)
    (hlevel : level ≤ nesting + 1) : completion.IsMark nesting (completion.rungs level) where
  below := rungs_suffix hlevel
  behind := by
    rcases Nat.lt_or_ge level (completion.limit + 1) with hlt | hge
    · obtain ⟨token, hkind, hsuffix⟩ := @exists_cons_suffix_rungs completion .curly level
      exact ⟨.ofSymbol (.closing .curly), by decide,
        ((List.suffix_cons _ _).trans hsuffix).trans (rungs_suffix_ladder hlt)⟩
    · obtain rfl : level = completion.limit + 1 := by omega
      exact ⟨zero, by decide, List.suffix_refl _⟩

theorem isMark_closers {nesting : Nat} (hnesting : nesting ≤ completion.limit) (bracket : Bracket) :
    completion.IsMark nesting (closers bracket ++ completion.rungs nesting) := by
  obtain ⟨token, hkind, hsuffix⟩ := @exists_cons_suffix_rungs completion bracket nesting
  exact ⟨(List.suffix_cons _ _).trans hsuffix, token, hkind,
    hsuffix.trans (rungs_suffix_ladder (by omega))⟩

namespace Guarded

variable {context : Context} {stops : TokenKind → Bool} {mark middle : List Token} {width : Nat}

theorem below (h : completion.Guarded .item context tokens mark) :
    mark <:+ completion.rungs (context.nesting + 1) := by
  cases h with
  | item hmark => exact hmark.below

/-- The rest of a line ends at a rung. -/
theorem line (hnesting : context.nesting ≤ completion.limit) (hlevel : level ≤ context.nesting)
    (hstops : stops .newline = true) (h : completion.rungs (level + 1) <:+ tokens) :
    completion.Guarded (.upTo stops) context tokens (completion.rungs (level + 1)) :=
  .upTo (isMark_rungs hnesting (Nat.succ_le_succ hlevel)) hstops h

theorem lineOfLadder (hnesting : context.nesting ≤ completion.limit)
    (hstops : stops .newline = true) (h : completion.ladder <:+ tokens) :
    completion.Guarded (.upTo stops) context tokens (completion.rungs (context.nesting + 1)) :=
  line hnesting (Nat.le_refl _) hstops ((rungs_suffix_ladder (by omega)).trans h)

theorem itemOfLadder (hnesting : context.nesting ≤ completion.limit)
    (h : completion.ladder <:+ tokens) :
    completion.Guarded .item context tokens (completion.rungs (context.nesting + 1)) :=
  .item (isMark_rungs hnesting (Nat.le_refl _))
    ((rungs_suffix (Nat.succ_le_succ hnesting)).trans (suffix_tail h))

theorem blockOfLadder (hlevel : level + 1 = context.nesting)
    (hnesting : context.nesting ≤ completion.limit) (h : completion.ladder <:+ tokens) :
    completion.Guarded .block context tokens (completion.rungs (level + 1)) :=
  .block hlevel (.inl h) ((rungs_suffix_ladder (by omega)).trans h)

/-- A group ends at its bracket in the rung of its depth. -/
theorem group (context : Context) (bracket : Bracket)
    (hnesting : context.nesting ≤ completion.limit) (h : completion.ladder <:+ tokens) :
    completion.Guarded (.upTo (· == .closing bracket)) context tokens
      (closers bracket ++ completion.rungs context.nesting) := by
  have hmark := isMark_closers hnesting bracket
  obtain ⟨rest, hclosers⟩ := closers_eq_cons bracket
  have htokens := (hmark.below.trans (rungs_suffix_ladder (by omega))).trans h
  rw [hclosers, List.cons_append] at hmark htokens ⊢
  exact .upTo hmark (by simp [Token.ofSymbol, TokenKind.ofSymbol]) htokens

/-- A turn of a loop begins in front of the mark, which would have stopped
it. -/
theorem turn (h : completion.Guarded (.upTo stops) context (token :: rest) mark)
    (hstops : stops token.kind = false) :
    completion.Guarded .item context (token :: rest) mark := by
  cases h with
  | upTo hmark hstop htokens =>
    rcases List.suffix_cons_iff.mp htokens with heq | hrest
    · obtain ⟨rfl, rfl⟩ := List.cons.inj heq
      simp [hstops] at hstop
    · exact .item hmark hrest

theorem furtherTurn (h : completion.Guarded (.upTo stops) context tokens mark)
    (hmiddle : mark <:+ middle) : completion.Guarded (.upTo stops) context middle mark := by
  cases h with
  | upTo hmark hstops => exact .upTo hmark hstops hmiddle

theorem lineOfBlock (h : completion.Guarded (.lines width) context tokens mark)
    (hnesting : context.nesting ≤ completion.limit) :
    completion.Guarded (.upTo (context.stopsLine [])) context tokens mark := by
  cases h with
  | lines hlevel _ htokens => exact line hnesting hlevel rfl htokens

/-- A further line of a block has the width of the block, so it is not the
rung that is marked. -/
theorem furtherLine {next : List Token}
    (h : completion.Guarded (.lines width) context tokens mark)
    (hnesting : context.nesting ≤ completion.limit) (hstream : middle <:+ completion.stream)
    (hmiddle : mark <:+ middle) (hnext : continuation? width middle = some next) :
    completion.Guarded (.lines width) context next mark := by
  obtain ⟨hnewline, hline⟩ := nextLine_of_continuation? hnext
  cases h with
  | lines hlevel hwidth =>
    have hsuffix := rungs_suffix_nextLine hstream (.inr hnewline) hmiddle (by omega)
    rw [hline] at hsuffix
    exact .lines hlevel hwidth (hsuffix hwidth)

/-- The lines of a block stop at the rung below its own. -/
theorem linesOfBlock (h : completion.Guarded .block context tokens mark)
    (hnesting : context.nesting ≤ completion.limit) (hstream : tokens <:+ completion.stream) :
    completion.Guarded (.lines (nextLine 0 tokens).1)
      (context.inBlock (.indented (nextLine 0 tokens).1)) (nextLine 0 tokens).2 mark := by
  cases h with
  | block hlevel hstart htokens =>
    have hwidth := nextLine_ne_width hstream hstart htokens
    exact .lines (Nat.le_of_succ_le (Nat.le_of_eq hlevel)) hwidth
      (rungs_suffix_nextLine hstream hstart (rungs_suffix_succ.trans htokens) (by omega) hwidth)

end Guarded

end Completion

/-! ## Readings do not pass their marks -/

section Readings

open Completion

variable {completion : Completion}

/-- A reading that begins in front of its mark does not pass it.

A construct is opened in front of the ladder, so the rungs for what is
inside of it are all to come, and they are above its own mark. -/
theorem Reads.mark_suffix {mode : Mode} {context : Context} {tokens after mark : List Token}
    {nodes : List Node} (h : Reads completion.limit mode context tokens nodes after)
    (hnesting : context.nesting ≤ completion.limit) (hstream : tokens <:+ completion.stream)
    (hguard : completion.Guarded mode context tokens mark) : mark <:+ after := by
  induction h generalizing mark with
  | leaf | skip =>
    cases hguard with
    | item _ htokens => exact htokens
  | newline hkind =>
    cases hguard with
    | item hmark htokens => exact hmark.suffix_afterNewlines hstream hkind htokens
  | lineFunction hkind hlimit _ _ ih =>
    have hladder := ladder_suffix_of_opened hstream (by simp [opened?, hkind])
    have hrest := (List.suffix_cons _ _).trans hstream
    have hbody := ih hlimit hrest (.lineOfLadder hlimit rfl hladder)
    exact hguard.below.trans (rungs_suffix_succ.trans hbody)
  | blockFunction hkind hlimit _ _ ih =>
    have hladder := ladder_suffix_of_opened hstream (by simp [opened?, hkind])
    have hrest := (List.suffix_cons _ _).trans hstream
    have hbody := ih hlimit hrest (.blockOfLadder rfl hlimit hladder)
    exact hguard.below.trans hbody
  | returnExpression hkind hlimit _ ih =>
    have hladder := ladder_suffix_of_opened hstream (by simp [opened?, hkind])
    have hrest := (List.suffix_cons _ _).trans hstream
    have hbody := ih hlimit hrest (.lineOfLadder hlimit rfl hladder)
    exact hguard.below.trans (rungs_suffix_succ.trans hbody)
  | @assignment _ _ rest _ _ hkind hlimit hassigns _ ih =>
    have hladder := ladder_suffix_of_opened hstream (by simp [opened?, hkind, hassigns])
    have hsuffix := (List.tail_suffix _).trans (afterTabs_suffix rest)
    have hbody := ih hlimit (hsuffix.trans ((List.suffix_cons _ _).trans hstream))
      (.lineOfLadder hlimit rfl (ladder_suffix_of_assigns hladder hassigns))
    exact hguard.below.trans (rungs_suffix_succ.trans hbody)
  | @operator _ _ _ rest _ _ _ hkind hlimit hassigns hsymbol hnext _ _ _ ih =>
    have hladder := ladder_suffix_of_opened hstream (by simp [opened?, hkind, hassigns, hsymbol])
    have hoperand := suffix_afterTrivia (by rfl) hladder
    have hsuffix := (afterTrivia_suffix rest).trans ((List.suffix_cons _ _).trans hstream)
    rw [hnext] at hoperand hsuffix
    have hbody := ih hlimit hsuffix (.itemOfLadder hlimit hoperand)
    exact hguard.below.trans (rungs_suffix_succ.trans hbody)
  | @bracketed context _ _ _ _ bracket hkind hlimit _ ih =>
    have hladder := ladder_suffix_of_opened hstream (by simp [opened?, hkind])
    have hbody := ih hlimit ((List.suffix_cons _ _).trans hstream)
      (.group (context.nest.inGroup bracket) bracket hlimit hladder)
    exact hguard.below.trans (rungs_suffix_tail hbody)
  | lineIf hkind hlimit hcondition hthen _ ihcondition ihbody =>
    have hladder := ladder_suffix_of_opened hstream (by simp [opened?, hkind])
    have hrest := (List.suffix_cons _ _).trans hstream
    have hmiddle := ihcondition hlimit hrest (.lineOfLadder hlimit rfl hladder)
    have htail := suffix_tail_of_startsWith hmiddle hthen (by decide)
    have hsuffix := (List.tail_suffix _).trans (hcondition.suffix.trans hrest)
    have hbody := ihbody hlimit hsuffix (.line hlimit (Nat.le_refl _) rfl htail)
    exact hguard.below.trans (rungs_suffix_succ.trans hbody)
  | blockIf hkind hlimit hcondition hthen _ ihcondition ihbody =>
    have hladder := ladder_suffix_of_opened hstream (by simp [opened?, hkind])
    have hrest := (List.suffix_cons _ _).trans hstream
    have hmiddle := ihcondition hlimit hrest (.lineOfLadder hlimit rfl hladder)
    have hbody := ihbody hlimit (hcondition.suffix.trans hrest)
      (.block rfl (.inr (hcondition.startsWith_newline hthen)) hmiddle)
    exact hguard.below.trans hbody
  | @lineElse _ _ _ rest _ _ _ hkind hlimit hnext _ _ ih =>
    have hladder := ladder_suffix_of_opened hstream (by simp [opened?, hkind])
    have hline := suffix_afterTabs (by rfl) hladder
    have hsuffix := (afterTabs_suffix rest).trans ((List.suffix_cons _ _).trans hstream)
    rw [hnext] at hline hsuffix
    have hbody := ih hlimit hsuffix (.lineOfLadder hlimit rfl hline)
    exact hguard.below.trans (rungs_suffix_succ.trans hbody)
  | @blockElse _ _ rest _ _ hkind hlimit _ _ ih =>
    have hladder := ladder_suffix_of_opened hstream (by simp [opened?, hkind])
    have hsuffix := (afterTabs_suffix rest).trans ((List.suffix_cons _ _).trans hstream)
    have hbody := ih hlimit hsuffix (.blockOfLadder rfl hlimit (suffix_afterTabs (by rfl) hladder))
    exact hguard.below.trans hbody
  | stop =>
    cases hguard with
    | upTo _ _ htokens => exact htokens
  | step hstops _ hitem _ ihitem ihmore =>
    have hmiddle := ihitem hnesting hstream (hguard.turn hstops)
    exact ihmore hnesting (hitem.suffix.trans hstream) (hguard.furtherTurn hmiddle)
  | lastLine _ _ ih => exact ih hnesting hstream (hguard.lineOfBlock hnesting)
  | moreLines hline hnext _ ihline ihmore =>
    have hmiddle := ihline hnesting hstream (hguard.lineOfBlock hnesting)
    have hline := hline.suffix.trans hstream
    have hsuffix := (continuation?_suffix hnext).1.trans (List.tail_suffix _)
    exact ihmore hnesting (hsuffix.trans hline) (hguard.furtherLine hnesting hline hmiddle hnext)
  | @block _ tokens _ _ _ _ hline _ ih =>
    have hlines := hguard.linesOfBlock hnesting hstream
    have hsuffix := (nextLine_suffix 0 tokens).trans hstream
    rw [hline] at hlines hsuffix
    exact ih hnesting hsuffix hlines
  | done => cases hguard
  | statement => cases hguard

end Readings

/-! ## Runs do not meet the end -/

section Runs

open Completion

variable {completion : Completion} {moment next : Moment} {fault : Fault}

/-- The work of the moment is over before the end: there is something to
read, and where the work goes on until it is stopped, a mark stops it. -/
def Completion.Stops (completion : Completion) (moment : Moment) : Prop :=
  match moment.task with
  | .item => moment.tokens ≠ []
  | .inside => 0 < moment.context.nesting ∧ completion.ladder <:+ moment.tokens.tail
  | .upTo _ stops => ∃ mark, completion.Guarded (.upTo stops) moment.context moment.tokens mark
  | .lines _ width => ∃ mark, completion.Guarded (.lines width) moment.context moment.tokens mark
  | .block _ => ∃ mark, completion.Guarded .block moment.context moment.tokens mark
  | .program => True

/-- A call keeps the end out of reach.  What is read between two calls does
not pass the mark of the work it is part of. -/
theorem Calls.stops (h : Calls completion.limit moment next)
    (hnesting : moment.context.nesting ≤ completion.limit)
    (hstream : moment.tokens <:+ completion.stream) (hstops : completion.Stops moment) :
    completion.Stops next := by
  cases h with
  | enter hopened =>
    exact ⟨Nat.succ_pos _, ladder_suffix_of_opened hstream (by simp [hopened])⟩
  | lineFunction | returnExpression | condition =>
    exact ⟨_, .lineOfLadder hnesting rfl hstops.2⟩
  | blockFunction => exact ⟨_, .blockOfLadder (Nat.sub_add_cancel hstops.1) hnesting hstops.2⟩
  | assignment _ hassigns =>
    exact ⟨_, .lineOfLadder hnesting rfl (ladder_suffix_of_assigns hstops.2 hassigns)⟩
  | operand | turn | statement => exact List.cons_ne_nil _ _
  | @bracketed context _ _ bracket =>
    exact ⟨_, .group (context.inGroup bracket) bracket hnesting hstops.2⟩
  | lineIf _ hcondition hthen =>
    have hrest := (List.suffix_cons _ _).trans hstream
    have hmiddle := hcondition.mark_suffix hnesting hrest (.lineOfLadder hnesting rfl hstops.2)
    have htail := suffix_tail_of_startsWith hmiddle hthen (by decide)
    exact ⟨_, .line hnesting (Nat.le_refl _) rfl htail⟩
  | blockIf _ hcondition hthen =>
    have hrest := (List.suffix_cons _ _).trans hstream
    have hmiddle := hcondition.mark_suffix hnesting hrest (.lineOfLadder hnesting rfl hstops.2)
    have hlevel := Nat.sub_add_cancel hstops.1
    rw [← hlevel] at hmiddle
    exact ⟨_, .block hlevel (.inr (hcondition.startsWith_newline hthen)) hmiddle⟩
  | @lineElse _ _ _ _ _ _ hnext =>
    exact ⟨_, .lineOfLadder hnesting rfl (hnext ▸ suffix_afterTabs (by rfl) hstops.2)⟩
  | blockElse =>
    exact ⟨_, .blockOfLadder (Nat.sub_add_cancel hstops.1) hnesting
      (suffix_afterTabs (by rfl) hstops.2)⟩
  | furtherTurn hstop _ hitem =>
    obtain ⟨mark, hguard⟩ := hstops
    exact ⟨mark, hguard.furtherTurn (hitem.mark_suffix hnesting hstream (hguard.turn hstop))⟩
  | line =>
    obtain ⟨mark, hguard⟩ := hstops
    exact ⟨mark, hguard.lineOfBlock hnesting⟩
  | furtherLine hline hnext =>
    obtain ⟨mark, hguard⟩ := hstops
    have hmiddle := hline.mark_suffix hnesting hstream (hguard.lineOfBlock hnesting)
    exact ⟨mark, hguard.furtherLine hnesting (hline.suffix.trans hstream) hmiddle hnext⟩
  | block =>
    obtain ⟨mark, hguard⟩ := hstops
    exact ⟨mark, hguard.linesOfBlock hnesting hstream⟩
  | furtherStatement => trivial

theorem Stuck.isFinal_of_stops (h : Stuck completion.limit moment fault)
    (hstream : moment.tokens <:+ completion.stream) (hstops : completion.Stops moment) :
    fault.error.isFinal = true := by
  cases h with
  | noItem => exact absurd rfl hstops
  | tooDeep | noOperand | emptyOperand => rfl
  | noTurn =>
    obtain ⟨mark, hguard⟩ := hstops
    cases hguard with
    | upTo _ _ htokens => simp at htokens
  | ended hstop hend =>
    -- A mark is behind the end, where nothing is.
    obtain ⟨mark, hguard⟩ := hstops
    obtain rfl := eq_nil_of_endOfInput hstream hend
    cases hguard.turn hstop with
    | item _ htokens =>
      cases hguard with
      | upTo => simp at htokens
  | @endedOperand _ _ rest _ _ _ hend =>
    have hsuffix := (afterTrivia_suffix rest).trans ((List.suffix_cons _ _).trans hstream)
    have hladder := suffix_afterTrivia (by rfl) hstops.2
    exact absurd hend (by simp [atEnd_eq_false hsuffix hladder])
  | @endedElse _ _ rest _ hend =>
    have hsuffix := (afterTabs_suffix rest).trans ((List.suffix_cons _ _).trans hstream)
    have hladder := suffix_afterTabs (by rfl) hstops.2
    exact absurd hend (by simp [atEnd_eq_false hsuffix hladder])

/-- With the ladder behind the tokens, no error is about their end. -/
theorem Completion.isFinal_of_fails
    (h : Fails completion.limit (.ofTokens completion.stream) fault) :
    fault.error.isFinal = true := by
  obtain ⟨last, hreaches, hstuck⟩ := h
  have hlast := hreaches.invariant
    (fun moment => moment.context.nesting ≤ completion.limit ∧
      moment.tokens <:+ completion.stream ∧ completion.Stops moment)
    (fun moment next hcall hmoment => ⟨hcall.nesting_le hmoment.1,
      hcall.suffix.trans hmoment.2.1, hcall.stops hmoment.1 hmoment.2.1 hmoment.2.2⟩)
    ⟨Nat.zero_le _, List.suffix_refl _, trivial⟩
  exact hstuck.isFinal_of_stops hlast.2.1 hlast.2.2

end Runs

/-! ## Errors of unfinished and of wrong input -/

section Errors

variable {tokens : List Token} {last : Token}

theorem exists_completion {construct : Construct}
    (hopen : ∀ token ∈ tokens, token.kind ≠ .endOfInput) (hlast : last.kind = .endOfInput)
    (h : parse (tokens ++ [last]) = .error (.unexpectedEnd construct)) :
    ∃ more, (∀ token ∈ more, token.kind ≠ .endOfInput) ∧
      ∃ program, parse (tokens ++ more ++ [last]) = .ok program := by
  let completion : Completion := ⟨tokens, last, maxNesting, hopen, hlast⟩
  obtain ⟨more, hladder, hmore⟩ := completion.ladder_eq_append_last
  refine ⟨more, fun token hmem => (hmore token hmem).1, ?_⟩
  rw [List.append_assoc, ← hladder]
  cases hparse : parse (tokens ++ completion.ladder) with
  | ok program => exact ⟨program, rfl⟩
  | error error =>
    -- The error is final, so it would be that of the tokens alone.
    obtain ⟨fault, rfl, hfails⟩ := parse_eq_error_iff.mp hparse
    have hfinal := completion.isFinal_of_fails hfails
    have hother : last.kind ≠ .tab ∧ last.kind ≠ .assign := by simp [hlast]
    have hsame : parse (tokens ++ [last]) = .error fault.error :=
      parse_changeEnding completion.inert_ladder (.inl rfl) hother hfinal hparse
    rw [Except.error.inj (hsame.symm.trans h)] at hfinal
    cases hfinal

theorem parse_error_of_isFinal {error : ParseError} (hlast : last.kind = .endOfInput)
    (hfinal : error.isFinal = true) (h : parse (tokens ++ [last]) = .error error)
    {lineEnd : Token} (hlineEnd : lineEnd.kind = .newline) (following : List Token) :
    parse (tokens ++ [lineEnd] ++ following) = .error error := by
  have hinert : Inert [last] := by
    intro token hmem rest
    obtain rfl := List.mem_singleton.mp hmem
    simp [opened?, hlast]
  rw [List.append_assoc]
  exact parse_changeEnding hinert (.inr hlast) (by simp [hlineEnd]) hfinal h

/-- An input that fails at its end can be completed.  An input that fails in
another way fails the same way whatever is added from the next line on. -/
theorem parse_error_completable_or_final (hopen : ∀ token ∈ tokens, token.kind ≠ .endOfInput)
    (hlast : last.kind = .endOfInput) :
    (∀ construct, parse (tokens ++ [last]) = .error (.unexpectedEnd construct) →
      ∃ more, (∀ token ∈ more, token.kind ≠ .endOfInput) ∧
        ∃ program, parse (tokens ++ more ++ [last]) = .ok program) ∧
    ∀ error, error.isFinal = true → parse (tokens ++ [last]) = .error error →
      ∀ lineEnd following, lineEnd.kind = .newline →
        parse (tokens ++ [lineEnd] ++ following) = .error error := by
  constructor
  · intro construct h
    exact exists_completion hopen hlast h
  · intro error hfinal h lineEnd following hlineEnd
    exact parse_error_of_isFinal hlast hfinal h hlineEnd following

/-- An `else` in a group that is not closed is unfinished.  An operator in
front of the bracket that closes its group is wrong. -/
theorem parse_error_completable_or_final_of_group :
    let opening : Token := ⟨.opening .round, "("⟩
    let last : Token := ⟨.endOfInput, ""⟩
    let unfinished : List Token := [opening, ⟨.elseWord, "else"⟩]
    let wrong : List Token := [opening, ⟨.ident, "+"⟩, ⟨.closing .round, ")"⟩]
    (parse (unfinished ++ [last]) = .error (.unexpectedEnd .elseBody) ∧
      ∃ more, (∀ token ∈ more, token.kind ≠ .endOfInput) ∧
        ∃ program, parse (unfinished ++ more ++ [last]) = .ok program) ∧
    parse (wrong ++ [last]) = .error (.missingOperand "+") ∧
      ∀ following,
        parse (wrong ++ [⟨.newline, "\n"⟩] ++ following) = .error (.missingOperand "+") := by
  intro opening last unfinished wrong
  have hunfinished : parse (unfinished ++ [last]) = .error (.unexpectedEnd .elseBody) := rfl
  have hwrong : parse (wrong ++ [last]) = .error (.missingOperand "+") := rfl
  obtain ⟨hcompletion, -⟩ :=
    parse_error_completable_or_final (by decide : ∀ token ∈ unfinished, token.kind ≠ .endOfInput)
      (rfl : last.kind = .endOfInput)
  obtain ⟨-, hsame⟩ :=
    parse_error_completable_or_final (by decide : ∀ token ∈ wrong, token.kind ≠ .endOfInput)
      (rfl : last.kind = .endOfInput)
  exact ⟨⟨hunfinished, hcompletion _ hunfinished⟩, hwrong,
    fun following => hsame _ rfl hwrong _ following rfl⟩

end Errors

end Flick
