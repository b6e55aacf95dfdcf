import Flick.Compilation
import Flick.Proofs.Reading.Adequacy
import Mathlib.Control.Monad.Basic

/-!
# The two forms of functions

A function is of one form if the parser is inside of no block, and of the
other form if it is inside of one.  Blocks are entered by the bodies of
functions and by the indented bodies of `if` and `else`.  The body of an
`if` or of an `else` that stands on the line of its header enters none.

`Program.functions` lists the functions of a tree, each with its form and
with the bodies that it lies in, so that the forms can be compared with the
bodies.  `Tracks` is what the open blocks tell about the bodies around the
place of the parser, and `Reads.labelled` carries it along a reading.
-/

namespace Flick

open Layout

/-- The bodies that a function can lie in. -/
inductive Body where
  | function
  | ifBody
  | elseBody
  deriving DecidableEq

namespace Node

mutual

/-- The functions of a tree, each with its form and the bodies around it,
the innermost first.  Those around the tree come last.  A condition is not a
body. -/
def functions (around : List Body) : Node → List (Form × List Body)
  | .leaf .. => []
  | .group .topLevelFunction body =>
    (.topLevelFunction, around) :: functionsAll (.function :: around) body
  | .group .function body => (.function, around) :: functionsAll (.function :: around) body
  | .group .elseStatement body => functionsAll (.elseBody :: around) body
  | .group .returnExpression body | .group (.bracketed _) body | .assignment _ body =>
    functionsAll around body
  | .conditional condition body =>
    functionsAll around condition ++ functionsAll (.ifBody :: around) body
  | .operator _ operand => operand.functions around

/-- The functions of several trees, one tree after the other. -/
def functionsAll (around : List Body) : List Node → List (Form × List Body)
  | [] => []
  | node :: nodes => node.functions around ++ functionsAll around nodes

end

theorem functionsAll_append (around : List Body) (first second : List Node) :
    functionsAll around (first ++ second) =
      functionsAll around first ++ functionsAll around second := by
  induction first with
  | nil => rfl
  | cons node first ih => simp [functionsAll, ih]

theorem functionsAll_singleton (around : List Body) (node : Node) :
    functionsAll around [node] = node.functions around := by
  simp [functionsAll]

end Node

/-- The functions of a program, each with its form and the bodies that it
lies in. -/
def Program.functions (program : Program) : List (Form × List Body) :=
  Node.functionsAll [] program.body

/-- Whether every `if` and every `else` has its body on lines of its own:
no body follows a `then`, and every `else` ends its line. -/
def indentsBranches : List Token → Bool
  | [] => true
  | token :: rest =>
    (match token.kind with
      | .thenWord => false
      | .elseWord => startsWith .newline (afterTabs rest)
      | _ => true) && indentsBranches rest

/-- One branch on the line of its header is enough. -/
theorem indentsBranches_eq_false {tokens whole : List Token} (h : tokens <:+ whole)
    (htokens : indentsBranches tokens = false) : indentsBranches whole = false := by
  obtain ⟨front, rfl⟩ := h
  induction front with
  | nil => exact htokens
  | cons token front ih => rw [List.cons_append, indentsBranches, ih, Bool.and_false]

/-! ## Blocks and bodies -/

/-- Whether blocks are open is settled by the bodies around a place, but
for the way in which branches are written.  There are none outside of all
bodies, and some inside of a function.  All bodies count if no branch is on
the line of its header, and only functions do if there is just one line. -/
structure Counts (whole : List Token) (around : List Body) (entered : Bool) : Prop where
  outside : around = [] → entered = false
  inside : .function ∈ around → entered = true
  indented : indentsBranches whole = true → around ≠ [] → entered = true
  oneLine : (∀ token ∈ whole, token.kind ≠ .newline) → .function ∉ around → entered = false

namespace Counts

variable {whole : List Token} {around : List Body} {body : Body} {entered : Bool}

theorem ofFunction : Counts whole (.function :: around) true where
  outside h := by simp at h
  inside _ := rfl
  indented _ _ := rfl
  oneLine _ h := by simp at h

/-- A branch on lines of its own enters a block. -/
theorem ofIndented {rest : List Token} (hsuffix : rest <:+ whole)
    (hnewline : startsWith .newline rest = true) : Counts whole (body :: around) true where
  outside h := by simp at h
  inside _ := rfl
  indented _ _ := rfl
  oneLine h := by
    obtain ⟨token, behind, rfl, hkind⟩ := exists_of_startsWith hnewline
    exact absurd hkind (h token (hsuffix.subset List.mem_cons_self))

/-- A branch on the line of its header enters none. -/
theorem ofLine (h : Counts whole around entered) (hbody : body ≠ .function)
    (hline : indentsBranches whole = false) : Counts whole (body :: around) entered where
  outside h := by simp at h
  inside hmem := h.inside ((List.mem_cons.mp hmem).resolve_left hbody.symm)
  indented hindents := by simp [hline] at hindents
  oneLine hone hmem := h.oneLine hone fun hinner => hmem (List.mem_cons_of_mem _ hinner)

end Counts

/-- The form of a function is that of a place where blocks are open, or are
not, as the bodies around it require. -/
def Labelled (whole : List Token) (site : Form × List Body) : Prop :=
  ∃ entered, Counts whole site.2 entered ∧
    site.1 = if entered then .function else .topLevelFunction

namespace Node

theorem functions_functionForm (context : Context) (around : List Body) (body : List Node) :
    functions around (.group context.functionForm body) =
      (context.functionForm, around) :: functionsAll (.function :: around) body := by
  unfold Context.functionForm
  split <;> rfl

end Node

open Node

/-- Whether a block is open where the nodes of a reading are made. -/
def Mode.entered (mode : Mode) (context : Context) : Bool :=
  match mode with
  | .block => true
  | _ => !context.blocks.isEmpty

/-- Along a reading the blocks are open that the bodies around require. -/
theorem Reads.labelled {limit : Nat} {mode : Mode} {context : Context}
    {tokens after whole : List Token} {nodes : List Node} {around : List Body}
    (h : Reads limit mode context tokens nodes after) (htokens : tokens <:+ whole)
    (hcounts : Counts whole around (mode.entered context)) :
    ∀ site ∈ functionsAll around nodes, Labelled whole site := by
  have hfunction {context : Context} {around : List Body} {body : List Node}
      (hcounts : Counts whole around (!context.blocks.isEmpty))
      (hbody : ∀ site ∈ functionsAll (.function :: around) body, Labelled whole site) :
      ∀ site ∈ functionsAll around [.group context.functionForm body], Labelled whole site := by
    rw [functionsAll_singleton, functions_functionForm, List.forall_mem_cons]
    refine ⟨⟨_, hcounts, ?_⟩, hbody⟩
    rw [Context.functionForm]
    cases context.blocks <;> rfl
  have htail {token : Token} {rest : List Token} (h : token :: rest <:+ whole) : rest <:+ whole :=
    (List.suffix_cons token rest).trans h
  induction h generalizing around with
  | leaf | newline | skip | stop | done => simp [functionsAll, functions]
  | lineFunction _ _ _ _ ih | blockFunction _ _ _ _ ih =>
    exact hfunction hcounts (ih (htail htokens) .ofFunction)
  | returnExpression _ _ _ ih | bracketed _ _ _ _ ih =>
    rw [functionsAll_singleton]
    exact ih (htail htokens) hcounts
  | assignment _ _ _ _ ih =>
    have hbody := (List.tail_suffix _).trans ((afterTabs_suffix _).trans (htail htokens))
    rw [functionsAll_singleton]
    exact ih hbody hcounts
  | operator _ _ _ _ hnext _ _ _ ih =>
    have hoperand := (hnext ▸ afterTrivia_suffix _).trans (htail htokens)
    have hsites := ih hoperand hcounts
    rw [functionsAll_singleton] at hsites ⊢
    exact hsites
  | lineIf _ _ hcondition hthen hbody ihcondition ihbody =>
    have hmiddle := hcondition.suffix.trans (htail htokens)
    rw [functionsAll_singleton, functions, List.forall_mem_append]
    refine ⟨ihcondition (htail htokens) hcounts, ?_⟩
    refine ihbody ((List.tail_suffix _).trans hmiddle) (hcounts.ofLine (by simp) ?_)
    obtain ⟨token, rest, rfl, hkind⟩ := exists_of_startsWith hthen
    exact indentsBranches_eq_false hmiddle (by simp [indentsBranches, hkind])
  | blockIf _ _ hcondition hthen _ ihcondition ihbody =>
    have hmiddle := hcondition.suffix.trans (htail htokens)
    rw [functionsAll_singleton, functions, List.forall_mem_append]
    have hnewline := hcondition.startsWith_newline hthen
    exact ⟨ihcondition (htail htokens) hcounts, ihbody hmiddle (.ofIndented hmiddle hnewline)⟩
  | @lineElse _ _ next _ _ _ _ hkind _ hnext hend _ ih =>
    have hbody := (hnext ▸ afterTabs_suffix _).trans (htail htokens)
    rw [functionsAll_singleton]
    refine ih hbody (hcounts.ofLine (by simp) (indentsBranches_eq_false htokens ?_))
    have hline : next.kind ≠ .newline := by
      intro hnewline
      simp [hnewline, TokenKind.endsLine] at hend
    simp [indentsBranches, hkind, hnext, startsWith, hline]
  | blockElse _ _ hline _ ih =>
    have hbody := (afterTabs_suffix _).trans (htail htokens)
    rw [functionsAll_singleton]
    exact ih hbody (.ofIndented hbody hline)
  | step _ _ hitem _ ihitem ihmore | statement hitem _ ihitem ihmore =>
    rw [functionsAll_append, List.forall_mem_append]
    exact ⟨ihitem htokens hcounts, ihmore (hitem.suffix.trans htokens) hcounts⟩
  | lastLine _ _ ih => exact ih htokens hcounts
  | moreLines hline hnext _ ihline ihmore =>
    rw [functionsAll_append, List.forall_mem_append]
    have hsuffix := (continuation?_suffix hnext).1.trans (List.tail_suffix _)
    exact ⟨ihline htokens hcounts, ihmore ((hsuffix.trans hline.suffix).trans htokens) hcounts⟩
  | block hline _ ih =>
    have hsuffix := congrArg Prod.snd hline ▸ nextLine_suffix 0 _
    exact ih (hsuffix.trans htokens) hcounts

/-! ## Forms and bodies -/

theorem parse_of_compile {vocabulary : Vocabulary} {source : String} {compilation : Compilation}
    (h : vocabulary.compile source = .ok compilation) :
    parse compilation.tokens = .ok compilation.program := by
  unfold Vocabulary.compile at h
  split at h
  · cases h
  split at h
  · cases h
  next hparse =>
    obtain rfl := Except.ok.inj h
    exact hparse

/-- A function that lies in no body is of the top-level form, and one that
lies in the body of a function is of the other form.  What the bodies of
`if` and `else` do depends on where they stand.  If all of them are on lines
of their own, then a function is of the top-level form exactly if it lies in
no body at all.  If there is only one line, then it is so exactly if it lies
in the body of no function. -/
theorem compile_function_forms {source : String} {compilation : Compilation}
    (h : compile source = .ok compilation) {form : Form} {around : List Body}
    (hsite : (form, around) ∈ compilation.program.functions) :
    (around = [] → form = .topLevelFunction) ∧
    (.function ∈ around → form = .function) ∧
    (indentsBranches compilation.tokens = true →
      form = if around = [] then .topLevelFunction else .function) ∧
    ((∀ token ∈ compilation.tokens, token.kind ≠ .newline) →
      form = if .function ∈ around then .function else .topLevelFunction) := by
  have hreads := parse_eq_ok_iff.mp (parse_of_compile h)
  have hfresh : Counts compilation.tokens [] (Mode.program.entered .fresh) :=
    ⟨fun _ => rfl, by simp, by simp, fun _ _ => rfl⟩
  obtain ⟨entered, hcounts, hform⟩ := hreads.labelled List.suffix_rfl hfresh _ hsite
  have htop (hentered : entered = false) : form = .topLevelFunction :=
    hform.trans (if_neg (by simp [hentered]))
  have hnested (hentered : entered = true) : form = .function := hform.trans (if_pos hentered)
  refine ⟨fun hnil => htop (hcounts.outside hnil), fun hmem => hnested (hcounts.inside hmem),
    fun hindents => ?_, fun hone => ?_⟩
  · split
    next hnil => exact htop (hcounts.outside hnil)
    next hne => exact hnested (hcounts.indented hindents hne)
  · split
    next hmem => exact hnested (hcounts.inside hmem)
    next hnot => exact htop (hcounts.oneLine hone hnot)

/-- A function in an indented branch, one outside of all bodies, and one in
the body of the other. -/
theorem compile_function_forms_of_indented :
    ∃ compilation, compile "if x\n\tf = -> 1\ng = -> -> 2" = .ok compilation ∧
      indentsBranches compilation.tokens = true ∧
      compilation.program.functions =
        [(.function, [.ifBody]), (.topLevelFunction, []), (.function, [.function])] ∧
      ∀ site ∈ compilation.program.functions,
        site.1 = if site.2 = [] then .topLevelFunction else .function := by
  have hok : compile "if x\n\tf = -> 1\ng = -> -> 2" = .ok ⟨[⟨.ifWord, "if"⟩, .ofSymbol .tab,
      ⟨.ident, "x"⟩, .ofSymbol .newline, .ofSymbol .tab, ⟨.ident, "f"⟩, .ofSymbol .tab,
      .ofSymbol .equals, .ofSymbol .tab, .ofSymbol .arrow, .ofSymbol .tab, ⟨.number, "1"⟩,
      .ofSymbol .newline, ⟨.ident, "g"⟩, .ofSymbol .tab, .ofSymbol .equals, .ofSymbol .tab,
      .ofSymbol .arrow, .ofSymbol .tab, .ofSymbol .arrow, .ofSymbol .tab, ⟨.number, "2"⟩,
      .endOfInput],
      ⟨[.conditional [.leaf .ident "x"] [.assignment "f" [.group .function [.leaf .number "1"]]],
        .assignment "g" [.group .topLevelFunction [.group .function [.leaf .number "2"]]]]⟩⟩ := by
    decide +kernel
  refine ⟨_, hok, by decide, rfl, fun site hsite => ?_⟩
  obtain ⟨-, -, hform, -⟩ := compile_function_forms hok hsite
  exact hform (by decide)

/-- A function in a branch on the line of its `if` is of the top-level
form, although it lies in a body. -/
theorem compile_function_forms_of_line :
    ∃ compilation, compile "if x then f = -> 1" = .ok compilation ∧
      ¬ ∀ site ∈ compilation.program.functions,
        site.1 = if site.2 = [] then .topLevelFunction else .function := by
  refine ⟨⟨[⟨.ifWord, "if"⟩, .ofSymbol .tab, ⟨.ident, "x"⟩, .ofSymbol .tab, ⟨.thenWord, "then"⟩,
    .ofSymbol .tab, ⟨.ident, "f"⟩, .ofSymbol .tab, .ofSymbol .equals, .ofSymbol .tab,
    .ofSymbol .arrow, .ofSymbol .tab, ⟨.number, "1"⟩, .endOfInput],
    ⟨[.conditional [.leaf .ident "x"]
      [.assignment "f" [.group .topLevelFunction [.leaf .number "1"]]]]⟩⟩, by decide +kernel, ?_⟩
  intro hforms
  have hsite := hforms (.topLevelFunction, [.ifBody]) (by decide)
  cases hsite

end Flick
