import Flick.Proofs.Statements

/-!
# The end of the input as a barrier

A token list may have the token that ends the input anywhere, and more than
once.  Nothing gets past it but the loop over the statements of a program.
Every loop of a construct stops at it or fails at it, and every lookahead
ends at it, since it is solid.

So at each moment of a run the barrier is still to come, with whatever is
behind it, or the run has passed it and is the run that a fresh parser makes
over what is behind (`Reaches.faces_or_behind`).  In front of the barrier,
what is behind can be exchanged for something else, or for nothing
(`Begins.ofBarrier`, `Fails.ofBarrier`).  A token list is then parsed as its
two sides are, one after the other.
-/

namespace Flick

open Layout

/-- The ending is still to come.  A construct that is open has its first
token, and the ending comes after that. -/
def Moment.Faces (ending : List Token) (moment : Moment) : Prop :=
  match moment.task with
  | .inside => ending <:+ moment.tokens.tail
  | .item | .upTo .. | .lines .. | .block _ | .program => ending <:+ moment.tokens

theorem Moment.Faces.suffix {ending : List Token} {moment : Moment} (h : moment.Faces ending) :
    ending <:+ moment.tokens := by
  obtain ⟨task, context, tokens⟩ := moment
  cases task with
  | inside => exact h.trans (List.tail_suffix tokens)
  | _ => exact h

section Barrier

variable {limit : Nat} {context : Context} {moment next : Moment} {fault : Fault} {last : Token}
  {behind : List Token}

/-! ## One call -/

theorem suffix_of_ne_endOfInput {token : Token} {rest : List Token}
    (hlast : last.kind = .endOfInput) (hkind : token.kind ≠ .endOfInput)
    (h : last :: behind <:+ token :: rest) : last :: behind <:+ rest := by
  rcases List.suffix_cons_iff.mp h with heq | hrest
  · obtain ⟨rfl, -⟩ := List.cons.inj heq
    exact absurd hlast hkind
  · exact hrest

theorem ne_endOfInput_of_opened? {token : Token} {rest : List Token} {construct : Construct}
    (h : opened? token rest = some construct) : token.kind ≠ .endOfInput := by
  intro hkind
  simp [opened?, hkind] at h

/-- The end of the input is an item of its own. -/
theorem Reads.endOfInput_iff {rest after : List Token} {nodes : List Node}
    (hlast : last.kind = .endOfInput) :
    Reads limit .item context (last :: rest) nodes after ↔ nodes = [] ∧ after = rest :=
  skip_iff (by simp [hlast, TokenKind.isContent]) (by simp [hlast])

/-- An item in front of the barrier leaves it, unless it is the barrier. -/
theorem Reads.faces_or_passes {token : Token} {rest after : List Token} {nodes : List Node}
    (h : Reads limit .item context (token :: rest) nodes after) (hlast : last.kind = .endOfInput)
    (htokens : last :: behind <:+ token :: rest) :
    last :: behind <:+ after ∨ token :: rest = last :: behind ∧ nodes = [] ∧ after = behind := by
  rcases List.suffix_cons_iff.mp htokens with heq | hrest
  · obtain ⟨rfl, rfl⟩ := List.cons.inj heq
    exact .inr ⟨rfl, (endOfInput_iff hlast).mp h⟩
  · exact .inl (h.last_suffix hlast (by simp) htokens fun _ => hrest)

/-- A call keeps the barrier ahead, but for the turn in which a program takes
it.  What is read between two calls leaves it, by `Reads.last_suffix`. -/
theorem Calls.faces_or_passes (h : Calls limit moment next) (hlast : last.kind = .endOfInput)
    (hfaces : moment.Faces (last :: behind)) :
    next.Faces (last :: behind) ∨
      ∃ context, moment = ⟨.program, context, last :: behind⟩ ∧
        next = ⟨.program, context, behind⟩ := by
  have hsolid : last.kind.isSolid = true := by rw [hlast]; rfl
  have htrivia := TokenKind.isTrivia_of_isSolid hsolid
  cases h with
  | enter hopened =>
    exact .inl (suffix_of_ne_endOfInput hlast (ne_endOfInput_of_opened? hopened) hfaces)
  | lineFunction | blockFunction | returnExpression | bracketed | condition | line | turn
  | statement => exact .inl hfaces
  | assignment _ hassigns =>
    have htabs := suffix_afterTabs htrivia hfaces
    exact .inl (suffix_tail_of_startsWith htabs hassigns (by simp [hlast]))
  | operand _ _ _ hnext =>
    have hoperand := suffix_afterTrivia htrivia hfaces
    exact .inl (hnext ▸ hoperand)
  | lineIf _ hcondition hthen =>
    have hmiddle := hcondition.last_suffix hlast (by simp) hfaces (by simp)
    exact .inl (suffix_tail_of_startsWith hmiddle hthen (by simp [hlast]))
  | blockIf _ hcondition => exact .inl (hcondition.last_suffix hlast (by simp) hfaces (by simp))
  | lineElse _ hnext =>
    have hline := suffix_afterTabs htrivia hfaces
    exact .inl (hnext ▸ hline)
  | blockElse => exact .inl (suffix_afterTabs htrivia hfaces)
  | furtherTurn _ hkind hitem =>
    have hrest := suffix_of_ne_endOfInput hlast hkind hfaces
    exact .inl (hitem.last_suffix hlast (by simp) hfaces fun _ => hrest)
  | furtherLine hline hnext =>
    have hmiddle := hline.last_suffix hlast (by simp) hfaces (by simp)
    have hnextLine := suffix_nextLine hsolid hmiddle 0
    rw [(nextLine_of_continuation? hnext).2] at hnextLine
    exact .inl hnextLine
  | block => exact .inl (suffix_nextLine hsolid hfaces 0)
  | @furtherStatement context token rest middle _ hitem =>
    rcases hitem.faces_or_passes hlast hfaces with hmiddle | ⟨htokens, -, rfl⟩
    · exact .inl hmiddle
    · exact .inr ⟨context, by rw [htokens], rfl⟩

/-- The loop over the statements is begun by itself only. -/
theorem Calls.context_of_program (h : Calls limit moment next) (htask : next.task = .program) :
    moment.task = .program ∧ next.context = moment.context := by
  cases h with
  | furtherStatement => exact ⟨rfl, rfl⟩
  | _ => cases htask

/-! ## Runs -/

/-- At each moment of a run the barrier is still to come, or the moment is
one of a run over what is behind it. -/
theorem Reaches.faces_or_behind {tokens : List Token} (hlast : last.kind = .endOfInput)
    (htokens : last :: behind <:+ tokens) (h : Reaches limit (.ofTokens tokens) moment) :
    moment.Faces (last :: behind) ∨ Reaches limit (.ofTokens behind) moment := by
  -- The loop over the statements is in a fresh context when it passes the barrier.
  have hinvariant := h.invariant
    (fun moment =>
      moment.Faces (last :: behind) ∧ (moment.task = .program → moment.context = .fresh) ∨
        Reaches limit (.ofTokens behind) moment)
    (fun moment next hcall hmoment => by
      rcases hmoment with ⟨hfaces, hfresh⟩ | hbehind
      · rcases hcall.faces_or_passes hlast hfaces with hnext | ⟨context, rfl, rfl⟩
        · refine .inl ⟨hnext, fun htask => ?_⟩
          obtain ⟨hprogram, hcontext⟩ := hcall.context_of_program htask
          exact hcontext.trans (hfresh hprogram)
        · obtain rfl : context = .fresh := hfresh rfl
          exact .inr .refl
      · exact .inr (hbehind.tail hcall))
    (.inl ⟨htokens, fun _ => rfl⟩)
  exact hinvariant.imp_left And.left

/-- In front of the barrier, what is behind it does not matter. -/
theorem Reaches.changeBehind {front mid others : List Token} {task : Task}
    (hlast : last.kind = .endOfInput)
    (h : Reaches limit (.ofTokens (front ++ last :: behind))
      ⟨task, context, mid ++ last :: behind⟩) :
    Reaches limit (.ofTokens (front ++ last :: others)) ⟨task, context, mid ++ last :: others⟩ := by
  have hsolid : last.kind.isSolid = true := by rw [hlast]; rfl
  have hopened : opened? last others = opened? last behind := by simp [opened?, hlast]
  have hmoments := h.regrow (.ofSolid hsolid) hopened (List.suffix_append mid _)
  simp only [Moment.regrow, Moment.ofTokens, regrow_append_cons] at hmoments
  exact hmoments

/-! ## The two sides -/

theorem regrow_nil (new tokens : List Token) : regrow [] new tokens = tokens ++ new := by
  simp [regrow]

/-- A token list that is read to its end, which is the barrier, is read up to
the barrier in front of anything. -/
theorem Begins.ofBarrier {tokens : List Token} {nodes : List Node}
    (hlast : last.kind = .endOfInput) (htokens : [last] <:+ tokens)
    (h : Reads limit .program context tokens nodes []) :
    Begins limit context (tokens ++ behind) nodes behind := by
  have hsolid : last.kind.isSolid = true := by rw [hlast]; rfl
  generalize hmode : Mode.program = mode at h
  generalize hafter : ([] : List Token) = after at h
  induction h with
  | done => exact absurd htokens (by simp)
  | @statement context token rest middle after nodes more hitem hmore _ ih =>
    subst hafter
    rcases hitem.faces_or_passes hlast htokens with hmiddle | ⟨heq, rfl, rfl⟩
    · have hread := hitem.regrow (.ofSolid hsolid : Pivot last [] behind) hmiddle
      rw [regrow_nil, regrow_nil] at hread
      exact .cons hread (ih hmiddle rfl rfl)
    · -- The item is the barrier, so nothing else was read behind it.
      obtain ⟨rfl, rfl⟩ := List.cons.inj heq
      obtain ⟨rfl, -⟩ := Reads.program_nil_iff.mp hmore
      exact .cons ((Reads.endOfInput_iff hlast).mpr ⟨rfl, rfl⟩) .nil
  | _ => cases hmode

/-- The fault with other tokens behind the pivot. -/
def Fault.regrow (old new : List Token) (fault : Fault) : Fault :=
  { fault with rest := Flick.regrow old new fault.rest }

/-- Work that is stuck in front of the barrier, or at it, is stuck there
whatever is behind. -/
theorem Stuck.regrow {old new : List Token} (hlast : last.kind = .endOfInput)
    (h : Stuck limit moment fault) (hfaces : moment.Faces (last :: old)) :
    Stuck limit (moment.regrow old new) (fault.regrow old new) := by
  have hsolid : last.kind.isSolid = true := by rw [hlast]; rfl
  have htrivia := TokenKind.isTrivia_of_isSolid hsolid
  have hpivot : Pivot last old new := .ofSolid hsolid
  have hopens : opened? last new = opened? last old := by simp [opened?, hlast]
  have htokens := hfaces.suffix
  unfold Moment.regrow Fault.regrow
  cases h with
  | noItem | noTurn => exact absurd htokens (by simp)
  | tooDeep hopened hnesting =>
    simp only [regrow_cons htokens]
    exact .tooDeep ((opened?_regrow hpivot hopens htokens).trans hopened) hnesting
  | ended hstops hend =>
    simp only [regrow_cons htokens]
    exact .ended hstops hend
  | @endedOperand _ _ rest hkind hassigns hsymbol hend =>
    have hrest : last :: old <:+ rest := hfaces
    simp only [regrow_cons htokens, ← afterTrivia_regrow htrivia hrest]
    refine .endedOperand hkind ((assigns_regrow htrivia hrest).trans hassigns) hsymbol ?_
    rw [afterTrivia_regrow htrivia hrest, atEnd_regrow (suffix_afterTrivia htrivia hrest), hend]
  | @noOperand _ _ _ rest _ hkind hassigns hsymbol hnext hstop =>
    have hrest : last :: old <:+ rest := hfaces
    have hmore := hnext ▸ suffix_afterTrivia htrivia hrest
    simp only [regrow_cons htokens, regrow_cons hmore]
    refine .noOperand hkind ((assigns_regrow htrivia hrest).trans hassigns) hsymbol ?_ hstop
    rw [afterTrivia_regrow htrivia hrest, hnext, regrow_cons hmore]
  | @emptyOperand _ _ next rest more middle hkind hassigns hsymbol hnext hend hcloser hitem =>
    have hrest : last :: old <:+ rest := hfaces
    have hmore := hnext ▸ suffix_afterTrivia htrivia hrest
    have hne : next.kind ≠ .endOfInput := by
      intro heq
      simp [heq, TokenKind.endsLine] at hend
    have hmiddle : last :: old <:+ middle :=
      hitem.last_suffix hlast (by simp) hmore fun _ => suffix_of_ne_endOfInput hlast hne hmore
    have hread : Reads limit .item _ (Flick.regrow old new _) _ _ := hitem.regrow hpivot hmiddle
    simp only [regrow_cons htokens, regrow_cons hmore] at hread ⊢
    refine .emptyOperand hkind ((assigns_regrow htrivia hrest).trans hassigns) hsymbol ?_ hend
      hcloser hread
    rw [afterTrivia_regrow htrivia hrest, hnext, regrow_cons hmore]
  | @endedElse _ _ rest hkind hend =>
    have hrest : last :: old <:+ rest := hfaces
    simp only [regrow_cons htokens, ← afterTabs_regrow htrivia hrest]
    refine .endedElse hkind ?_
    rw [afterTabs_regrow htrivia hrest, atEnd_regrow (suffix_afterTabs htrivia hrest), hend]

/-- A token list that fails in front of the barrier at its end, or at it,
fails in front of anything, with the same error. -/
theorem Fails.ofBarrier {tokens : List Token} (hlast : last.kind = .endOfInput)
    (htokens : [last] <:+ tokens) (h : Fails limit (.ofTokens tokens) fault) :
    Fails limit (.ofTokens (tokens ++ behind)) (fault.regrow [] behind) := by
  have hsolid : last.kind.isSolid = true := by rw [hlast]; rfl
  have hopened : opened? last behind = opened? last [] := by simp [opened?, hlast]
  obtain ⟨stuck, hreaches, hstuck⟩ := h
  rcases hreaches.faces_or_behind hlast htokens with hfaces | hbehind
  · have hmoments := hreaches.regrow (.ofSolid hsolid) hopened hfaces.suffix
    rw [Moment.regrow, Moment.ofTokens, regrow_nil] at hmoments
    exact ⟨_, hmoments, hstuck.regrow hlast hfaces⟩
  · exact absurd ⟨stuck, hbehind, hstuck⟩ not_fails_program_nil

end Barrier

/-! ## The parser -/

/-- The end of the input divides a token list.  An error in front of it is
the error of the whole; else the program of what is behind follows the
program of what is in front, or the error of what is behind is the error of
the whole.  The moments of the run in front of it do not depend on what is
behind, and the moments behind it are those of a fresh parser over what is
behind, so that no construct, block or lookahead is on both sides. -/
theorem parse_append_endOfInput {last : Token} (hlast : last.kind = .endOfInput)
    (front behind : List Token) :
    (parse (front ++ [last] ++ behind) = do
      let first ← parse (front ++ [last])
      let second ← parse behind
      return ⟨first.body ++ second.body⟩) ∧
    (∀ (task : Task) (context : Context) (mid : List Token),
      Reaches maxNesting (.ofTokens (front ++ last :: behind))
          ⟨task, context, mid ++ last :: behind⟩ ↔
        Reaches maxNesting (.ofTokens (front ++ [last])) ⟨task, context, mid ++ [last]⟩) ∧
    ∀ moment, Reaches maxNesting (.ofTokens (front ++ last :: behind)) moment →
      moment.tokens <:+ behind → Reaches maxNesting (.ofTokens behind) moment := by
  refine ⟨?_, ?_, ?_⟩
  · have hfront : [last] <:+ front ++ [last] := List.suffix_append front [last]
    cases hfirst : parse (front ++ [last]) with
    | error error =>
      obtain ⟨fault, rfl, hfails⟩ := parse_eq_error_iff.mp hfirst
      exact parse_eq_error_iff.mpr ⟨fault.regrow [] behind, rfl, hfails.ofBarrier hlast hfront⟩
    | ok first =>
      have hbegins : Begins maxNesting .fresh (front ++ [last] ++ behind) first.body behind :=
        .ofBarrier hlast hfront (parse_eq_ok_iff.mp hfirst)
      cases hsecond : parse behind with
      | error error =>
        obtain ⟨fault, rfl, hfails⟩ := parse_eq_error_iff.mp hsecond
        exact parse_eq_error_iff.mpr ⟨fault, rfl, hbegins.fails hfails⟩
      | ok second =>
        exact parse_eq_ok_iff.mpr (hbegins.finish (parse_eq_ok_iff.mp hsecond))
  · intro task context mid
    exact ⟨fun h => h.changeBehind hlast, fun h => h.changeBehind hlast⟩
  · intro moment hreaches hbehind
    refine (hreaches.faces_or_behind hlast (List.suffix_append front _)).resolve_left ?_
    intro hfaces
    have hlength := (hfaces.suffix.trans hbehind).length_le
    rw [List.length_cons] at hlength
    omega

/-- The block of a function does not go on behind the end of the input, an
open group is not closed there, and a name behind it is read afresh. -/
theorem parse_append_endOfInput_of_block_and_group :
    let last : Token := ⟨.endOfInput, ""⟩
    let lineEnd : Token := ⟨.newline, "\n"⟩
    let y : List Token := [⟨.ident, "y"⟩, last]
    let block : List Token :=
      [⟨.arrow, "->"⟩, lineEnd, ⟨.tab, "\t"⟩, ⟨.ident, "x"⟩, lineEnd, ⟨.tab, "\t"⟩]
    let start : Moment := ⟨.program, .fresh, y⟩
    parse (block ++ [last] ++ y) =
        .ok ⟨[.group .topLevelFunction [.leaf .ident "x"], .leaf .ident "y"]⟩ ∧
      parse ([⟨.opening .round, "("⟩] ++ [last] ++ [⟨.closing .round, ")"⟩]) =
        .error (.unexpectedEnd (.bracketed .round)) ∧
      Reaches maxNesting (.ofTokens ([] ++ last :: y)) start ∧
      Reaches maxNesting (.ofTokens y) start := by
  intro last lineEnd y block start
  have hreaches : Reaches maxNesting (.ofTokens ([] ++ last :: y)) start :=
    .head (.furtherStatement ((Reads.endOfInput_iff rfl).mpr ⟨rfl, rfl⟩)) .refl
  refine ⟨?_, ?_, hreaches, ?_⟩
  · exact (parse_append_endOfInput rfl block y).1.trans rfl
  · exact (parse_append_endOfInput rfl _ _).1.trans rfl
  · exact (parse_append_endOfInput rfl [] y).2.2 start hreaches List.suffix_rfl

end Flick
