import Flick.Proofs.Thinning
import Mathlib.Control.Monad.Basic

/-!
# Comments

A comment makes no node, and a construct that meets one goes on behind it.
But most lookaheads skip tabs only, so a comment can hide what comes after
it.  A comment between a name and its `=` hides the sign.  One behind an
arrow or an `else` hides that the line ends there.  And a line of nothing
but a comment is not blank: it has a width, which a block that is open there
is compared with, and which a block that begins there takes for its own.

Where no lookahead meets a comment in this way, comments are left out
without a change to the answer (`parse_withoutComments`).
-/

namespace Flick

open Layout

/-- The tokens that are not comments. -/
def withoutComments (tokens : List Token) : List Token :=
  tokens.filter (·.kind != .comment)

/-- Whether every token finds the same ahead with and without the
comments. -/
def commentsUnseen : List Token → Bool
  | [] => true
  | token :: rest => sameAhead token rest (withoutComments rest) && commentsUnseen rest

theorem thins_withoutComments {tokens : List Token} (h : commentsUnseen tokens = true) :
    Thins tokens (withoutComments tokens) := by
  induction tokens with
  | nil => exact .nil
  | cons token rest ih =>
    rw [commentsUnseen, Bool.and_eq_true] at h
    obtain ⟨hahead, hrest⟩ := h
    have hthins := ih hrest
    by_cases hcomment : token.kind = .comment
    · rw [withoutComments, List.filter_cons_of_neg (by simp [hcomment])]
      exact .skip (by rw [hcomment]; rfl) hthins
    · rw [withoutComments, List.filter_cons_of_pos (by simpa using hcomment)]
      by_cases hnewline : token.kind = .newline
      · exact .newline hnewline hnewline hahead hthins
      · exact .token hnewline hahead hthins

/-- Where every token finds the same ahead with and without the comments,
the tokens parse alike with and without them, to the same program or to the
same error. -/
theorem parse_withoutComments {tokens : List Token} (h : commentsUnseen tokens = true) :
    parse (withoutComments tokens) = parse tokens :=
  (parse_thin (thins_withoutComments h)).symm

/-- Comments at the beginning of the text, on a line of a block that has
the width of the others, in front of an operand, and at the end of a
line. -/
theorem parse_withoutComments_of_block :
    let tab : Token := ⟨.tab, "\t"⟩
    let lineEnd : Token := ⟨.newline, "\n"⟩
    let remark : Token := ⟨.comment, "remark"⟩
    let tokens : List Token :=
      [remark, lineEnd, ⟨.ident, "f"⟩, ⟨.assign, "="⟩, ⟨.arrow, "->"⟩, lineEnd, tab, remark,
        lineEnd, tab, ⟨.ident, "+"⟩, remark, ⟨.ident, "x"⟩, tab, remark, lineEnd,
        ⟨.endOfInput, ""⟩]
    commentsUnseen tokens = true ∧ withoutComments tokens ≠ tokens ∧
      parse tokens = .ok ⟨[.assignment "f"
        [.group .topLevelFunction [.operator "+" (.leaf .ident "x")]]]⟩ ∧
      parse (withoutComments tokens) = parse tokens := by
  intro tab lineEnd remark tokens
  have hunseen : commentsUnseen tokens = true := by decide
  exact ⟨hunseen, by decide, by decide +kernel, parse_withoutComments hunseen⟩

/-- Each of the four lookaheads can meet a comment: a name its sign, an
arrow the end of its line, an `else` the end of the input, and a line end a
line of another width. -/
theorem parse_withoutComments_ne :
    let tab : Token := ⟨.tab, "\t"⟩
    let lineEnd : Token := ⟨.newline, "\n"⟩
    let remark : Token := ⟨.comment, "remark"⟩
    let last : Token := ⟨.endOfInput, ""⟩
    let header : List Token := [⟨.ident, "f"⟩, ⟨.assign, "="⟩, ⟨.arrow, "->"⟩]
    ∀ tokens ∈ [[⟨.ident, "x"⟩, remark, ⟨.assign, "="⟩, ⟨.number, "1"⟩, last],
        header ++ [remark, lineEnd, tab, ⟨.ident, "x"⟩, last],
        [⟨.elseWord, "else"⟩, remark, last],
        header ++ [lineEnd, tab, ⟨.ident, "x"⟩, lineEnd, remark, lineEnd, tab, ⟨.ident, "y"⟩,
          last]],
      parse (withoutComments tokens) ≠ parse tokens := by
  decide +kernel

end Flick
