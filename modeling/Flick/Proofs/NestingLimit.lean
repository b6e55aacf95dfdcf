import Flick.Proofs.Calls.Adequacy
import Flick.Proofs.Nesting

/-!
# The nesting limit

The limit does nothing but to refuse trees that are too deep.  A parser
with a smaller limit and one with a larger limit go through the same
moments, until the smaller limit refuses a construct that the larger one
lets in.

* `Reads.renest` and `Reads.relimit`: a reading is one at every nesting, and
  under every limit, that has room for its nodes.
* `Calls.raise` and `Stuck.raise`: under a larger limit the same calls are
  made, and a moment that is stuck stays so, unless it is the limit that it
  is stuck at.

So `parseWithin_limit` compares the answers under two limits: the programs
of the smaller one are those of the larger one that fit, a program that
does not fit is refused for its depth, and all other errors are the same.
-/

namespace Flick

open Node

/-- The largest number of containers on a path from the root. -/
def Program.depth (program : Program) : Nat := depthAll program.body

/-! ## Room for nodes -/

/-- The limit has room for the nodes in this context.  Nodes without
containers need none. -/
def Room (limit : Nat) (context : Context) (nodes : List Node) : Prop :=
  0 < depthAll nodes → context.nesting + depthAll nodes ≤ limit

namespace Room

variable {limit : Nat} {context : Context}

/-- A container may be opened, and has room for what it holds. -/
theorem inside {node : Node} {held : List Node} (h : Room limit context [node])
    (hheld : depthAll held < node.depth) :
    context.nesting < limit ∧ Room limit context.nest held := by
  rw [Room, depthAll_singleton] at h
  have hroom := h (by omega)
  refine ⟨by omega, fun _ => ?_⟩
  show context.nesting + 1 + depthAll held ≤ limit
  omega

theorem append {first second : List Node} (h : Room limit context (first ++ second)) :
    Room limit context first ∧ Room limit context second := by
  rw [Room, depthAll_append] at h
  unfold Room
  constructor
  · intro hpos
    have hroom := h (by omega)
    omega
  · intro hpos
    have hroom := h (by omega)
    omega

end Room

section TwoLimits

variable {limit other : Nat} {mode : Mode} {context : Context} {tokens after : List Token}
  {nodes : List Node}

/-- A reading is one under every limit, and inside of any number of
constructs, if there is room for its nodes. -/
theorem Reads.renest (h : Reads limit mode context tokens nodes after) {nesting : Nat}
    (hroom : Room other { context with nesting := nesting } nodes) :
    Reads other mode { context with nesting := nesting } tokens nodes after := by
  induction h generalizing nesting with
  | leaf kind hkind hident => exact .leaf kind hkind hident
  | newline hkind => exact .newline hkind
  | skip hkind hnewline => exact .skip hkind hnewline
  | lineFunction hkind _ hline _ ih =>
    obtain ⟨hlt, hbody⟩ := hroom.inside (Nat.lt_succ_self _)
    exact .lineFunction hkind hlt hline (ih hbody)
  | blockFunction hkind _ hline _ ih =>
    obtain ⟨hlt, hbody⟩ := hroom.inside (Nat.lt_succ_self _)
    exact .blockFunction hkind hlt hline (ih hbody)
  | returnExpression hkind _ _ ih =>
    obtain ⟨hlt, hbody⟩ := hroom.inside (Nat.lt_succ_self _)
    exact .returnExpression hkind hlt (ih hbody)
  | assignment hkind _ hassigns _ ih =>
    obtain ⟨hlt, hbody⟩ := hroom.inside (Nat.lt_succ_self _)
    exact .assignment hkind hlt hassigns (ih hbody)
  | operator hkind _ hassigns hsymbol hnext hend hcloser _ ih =>
    obtain ⟨hlt, hoperand⟩ := hroom.inside (Nat.lt_succ_of_le (Nat.le_of_eq (depthAll_singleton _)))
    exact .operator hkind hlt hassigns hsymbol hnext hend hcloser (ih hoperand)
  | bracketed bracket hkind _ _ ih =>
    obtain ⟨hlt, hbody⟩ := hroom.inside (Nat.lt_succ_self _)
    exact .bracketed bracket hkind hlt (ih hbody)
  | lineIf hkind _ _ hthen _ ihcondition ihbody =>
    obtain ⟨hlt, hcondition⟩ := hroom.inside (Nat.lt_succ_of_le (Nat.le_max_left _ _))
    obtain ⟨-, hbody⟩ := hroom.inside (Nat.lt_succ_of_le (Nat.le_max_right _ _))
    exact .lineIf hkind hlt (ihcondition hcondition) hthen (ihbody hbody)
  | blockIf hkind _ _ hthen _ ihcondition ihbody =>
    obtain ⟨hlt, hcondition⟩ := hroom.inside (Nat.lt_succ_of_le (Nat.le_max_left _ _))
    obtain ⟨-, hbody⟩ := hroom.inside (Nat.lt_succ_of_le (Nat.le_max_right _ _))
    exact .blockIf hkind hlt (ihcondition hcondition) hthen (ihbody hbody)
  | lineElse hkind _ hnext hend _ ih =>
    obtain ⟨hlt, hbody⟩ := hroom.inside (Nat.lt_succ_self _)
    exact .lineElse hkind hlt hnext hend (ih hbody)
  | blockElse hkind _ hline _ ih =>
    obtain ⟨hlt, hbody⟩ := hroom.inside (Nat.lt_succ_self _)
    exact .blockElse hkind hlt hline (ih hbody)
  | stop hstops => exact .stop hstops
  | step hstops hend _ _ ihitem ihmore =>
    obtain ⟨hitem, hmore⟩ := hroom.append
    exact .step hstops hend (ihitem hitem) (ihmore hmore)
  | lastLine _ hlast ih => exact .lastLine (ih hroom) hlast
  | moreLines _ hnext _ ihline ihmore =>
    obtain ⟨hline, hmore⟩ := hroom.append
    exact .moreLines (ihline hline) hnext (ihmore hmore)
  | block hline _ ih => exact .block hline (ih hroom)
  | done => exact .done
  | statement _ _ ihitem ihmore =>
    obtain ⟨hitem, hmore⟩ := hroom.append
    exact .statement (ihitem hitem) (ihmore hmore)

/-- A reading is one under every limit that has room for its nodes. -/
theorem Reads.relimit (h : Reads limit mode context tokens nodes after)
    (hroom : Room other context nodes) : Reads other mode context tokens nodes after :=
  h.renest hroom

/-! ## A larger limit -/

theorem Reads.raise (h : Reads limit mode context tokens nodes after)
    (hnesting : context.nesting ≤ limit) (hle : limit ≤ other) :
    Reads other mode context tokens nodes after :=
  h.relimit fun _ => Nat.le_trans (h.depth_le hnesting) hle

/-- Under a larger limit the same calls are made. -/
theorem Calls.raise {moment next : Moment} (h : Calls limit moment next)
    (hnesting : moment.context.nesting ≤ limit) (hle : limit ≤ other) :
    Calls other moment next := by
  cases h with
  | enter hopened hlt => exact .enter hopened (Nat.lt_of_lt_of_le hlt hle)
  | lineFunction hkind hline => exact .lineFunction hkind hline
  | blockFunction hkind hline => exact .blockFunction hkind hline
  | returnExpression hkind => exact .returnExpression hkind
  | assignment hkind hassigns => exact .assignment hkind hassigns
  | operand hkind hassigns hsymbol hnext hend hcloser =>
    exact .operand hkind hassigns hsymbol hnext hend hcloser
  | bracketed bracket hkind => exact .bracketed bracket hkind
  | condition hkind => exact .condition hkind
  | lineIf hkind hcondition hthen => exact .lineIf hkind (hcondition.raise hnesting hle) hthen
  | blockIf hkind hcondition hthen => exact .blockIf hkind (hcondition.raise hnesting hle) hthen
  | lineElse hkind hnext hend => exact .lineElse hkind hnext hend
  | blockElse hkind hline => exact .blockElse hkind hline
  | turn hstops hend => exact .turn hstops hend
  | furtherTurn hstops hend hitem => exact .furtherTurn hstops hend (hitem.raise hnesting hle)
  | line => exact .line
  | furtherLine hline hnext => exact .furtherLine (hline.raise hnesting hle) hnext
  | block => exact .block
  | statement => exact .statement
  | furtherStatement hitem => exact .furtherStatement (hitem.raise hnesting hle)

/-- A moment that is stuck stays so, unless it is stuck at the limit. -/
theorem Stuck.raise {moment : Moment} {fault : Fault} (h : Stuck limit moment fault)
    (hnesting : moment.context.nesting ≤ limit) (hle : limit ≤ other)
    (herror : ∀ construct, fault.error ≠ .nestingTooDeep construct) :
    Stuck other moment fault := by
  cases h with
  | noItem => exact .noItem
  | @tooDeep _ _ _ construct => exact absurd rfl (herror construct)
  | noTurn => exact .noTurn
  | ended hstops hend => exact .ended hstops hend
  | endedOperand hkind hassigns hsymbol hend => exact .endedOperand hkind hassigns hsymbol hend
  | noOperand hkind hassigns hsymbol hnext hstop =>
    exact .noOperand hkind hassigns hsymbol hnext hstop
  | emptyOperand hkind hassigns hsymbol hnext hend hcloser hitem =>
    exact .emptyOperand hkind hassigns hsymbol hnext hend hcloser (hitem.raise hnesting hle)
  | endedElse hkind hend => exact .endedElse hkind hend

/-- A run that does not fail at its limit fails alike under a larger one. -/
theorem Fails.raise {moment : Moment} {fault : Fault} (h : Fails limit moment fault)
    (hnesting : moment.context.nesting ≤ limit) (hle : limit ≤ other)
    (herror : ∀ construct, fault.error ≠ .nestingTooDeep construct) :
    Fails other moment fault := by
  obtain ⟨last, hreaches, hstuck⟩ := h
  have hraised : Reaches other moment last ∧ last.context.nesting ≤ limit := by
    refine hreaches.invariant
      (fun reached => Reaches other moment reached ∧ reached.context.nesting ≤ limit)
      (fun reached next hcall hreached => ?_) ⟨.refl, hnesting⟩
    exact ⟨.tail hreached.1 (hcall.raise hreached.2 hle), hcall.nesting_le hreached.2⟩
  exact ⟨last, hraised.1, hstuck.raise hraised.2 hle herror⟩

end TwoLimits

/-! ## Two limits -/

/-- The programs of a token list within a limit are those within a larger
limit that are no deeper.  A deeper one is refused for its depth, and an
error of another kind is the answer under both limits. -/
theorem parseWithin_limit {limit larger : Nat} (hle : limit ≤ larger) (tokens : List Token) :
    (∀ program, ((Parser.ofTokens tokens).parseWithin limit).1 = .ok program ↔
      ((Parser.ofTokens tokens).parseWithin larger).1 = .ok program ∧ program.depth ≤ limit) ∧
    (∀ program, ((Parser.ofTokens tokens).parseWithin larger).1 = .ok program →
      limit < program.depth →
      ∃ construct,
        ((Parser.ofTokens tokens).parseWithin limit).1 = .error (.nestingTooDeep construct)) ∧
    (∀ error, ((Parser.ofTokens tokens).parseWithin limit).1 = .error error →
      (∀ construct, error ≠ .nestingTooDeep construct) →
      ((Parser.ofTokens tokens).parseWithin larger).1 = .error error) ∧
    (∀ program, parse tokens = .ok program → program.depth ≤ 128) := by
  have hdepth {limit : Nat} {program : Program}
      (h : Reads limit .program .fresh tokens program.body []) : program.depth ≤ limit := by
    have hroom := h.depth_le (Nat.zero_le _)
    rwa [show Context.fresh.nesting = 0 from rfl, Nat.zero_add] at hroom
  have hsame : ∀ error, ((Parser.ofTokens tokens).parseWithin limit).1 = .error error →
      (∀ construct, error ≠ .nestingTooDeep construct) →
      ((Parser.ofTokens tokens).parseWithin larger).1 = .error error := by
    intro error herror hnot
    obtain ⟨fault, rfl, hfails⟩ := fst_parseWithin_eq_error_iff.mp herror
    exact fst_parseWithin_eq_error_iff.mpr ⟨fault, rfl, hfails.raise (Nat.zero_le _) hle hnot⟩
  refine ⟨fun program => ?_, fun program hok hdeep => ?_, hsame, fun program hok => ?_⟩
  · rw [fst_parseWithin_eq_ok_iff, fst_parseWithin_eq_ok_iff]
    constructor
    · intro h
      exact ⟨h.raise (Nat.zero_le _) hle, hdepth h⟩
    · intro h
      refine h.1.relimit fun _ => ?_
      rw [show Context.fresh.nesting = 0 from rfl, Nat.zero_add]
      exact h.2
  · cases hresult : ((Parser.ofTokens tokens).parseWithin limit).1 with
    | ok other =>
      have hother := fst_parseWithin_eq_ok_iff.mp hresult
      have hlarger := fst_parseWithin_eq_ok_iff.mpr (hother.raise (Nat.zero_le _) hle)
      obtain rfl : other = program := Except.ok.inj (hlarger.symm.trans hok)
      exact absurd (hdepth hother) (Nat.not_le_of_lt hdeep)
    | error error =>
      cases error with
      | nestingTooDeep construct => exact ⟨construct, rfl⟩
      | unexpectedEnd construct =>
        have hlarger := hsame _ hresult (by simp)
        exact absurd (hlarger.symm.trans hok) (by simp)
      | missingOperand operator =>
        have hlarger := hsame _ hresult (by simp)
        exact absurd (hlarger.symm.trans hok) (by simp)
  · exact hdepth (parse_eq_ok_iff.mp hok)

/-- Two groups in each other fit into a limit of two and not of one.  An
operator without its operand inside of two groups is the same error
whether or not there is room to spare. -/
theorem parseWithin_limit_of_two_groups :
    let opening : Token := ⟨.opening .round, "("⟩
    let closing : Token := ⟨.closing .round, ")"⟩
    let groups : List Token := [opening, opening, ⟨.ident, "x"⟩, closing, closing]
    let unended : List Token := [opening, opening, ⟨.ident, "+"⟩, ⟨.endOfInput, ""⟩]
    let program : Program :=
      ⟨[.group (.bracketed .round) [.group (.bracketed .round) [.leaf .ident "x"]]]⟩
    (((Parser.ofTokens groups).parseWithin 2).1 = .ok program ∧ 1 < program.depth) ∧
      (∃ construct,
        ((Parser.ofTokens groups).parseWithin 1).1 = .error (.nestingTooDeep construct)) ∧
      ((Parser.ofTokens unended).parseWithin 3).1 = .error (.unexpectedEnd .operand) ∧
      ((Parser.ofTokens unended).parseWithin 5).1 = .error (.unexpectedEnd .operand) := by
  intro opening closing groups unended program
  have hok : ((Parser.ofTokens groups).parseWithin 2).1 = .ok program := rfl
  have hdeep : 1 < program.depth := by decide
  have herror : ((Parser.ofTokens unended).parseWithin 3).1 = .error (.unexpectedEnd .operand) := by
    rfl
  obtain ⟨-, hrefused, -⟩ := parseWithin_limit (by decide : 1 ≤ 2) groups
  obtain ⟨-, -, hsame, -⟩ := parseWithin_limit (by decide : 3 ≤ 5) unended
  exact ⟨⟨hok, hdeep⟩, hrefused program hok hdeep, herror, hsame _ herror (by simp)⟩

end Flick
