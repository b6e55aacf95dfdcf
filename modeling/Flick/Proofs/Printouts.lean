import Flick.Command.Run
import Mathlib.Control.Monad.Basic

/-!
# What runs print

A run prints the tokens of its source, its tree, or both.  The three are
written one by one, and each compiles the source and tells a failure by
itself.  They agree: what is printed of both is what is printed of each,
and a source fails in all of them in the same words, but for an error of
the parser, which a run that prints the tokens does not find.

Nothing but a source, and the reporter, decides what a run without a
listener does.  `Asks` says of arguments, in whatever order they are, what
they ask for, and `runWith_of_asks` gives the run.  So runs are compared by
comparing what they print.
-/

namespace Flick

/-- What a run can print of its source. -/
inductive Printout where
  | tokens
  | tree (format : TreeFormat)
  | both (format : TreeFormat)

/-- What the options ask for. -/
def Options.printout (options : Options) : Printout :=
  let format := if options.json then .json else .outline
  if options.lexOnly then .tokens
  else if options.parseOnly then .tree format
  else .both format

/-- The arguments are accepted, name this file, or none, and ask for this
printout and for no listener. -/
def Asks (arguments : List String) (file : Option String) (printout : Printout) : Prop :=
  ∃ options, Options.ofArguments arguments = .ok options ∧ options.file = file ∧
    options.printout = printout ∧ options.dev = false

namespace Command

/-- What is printed for a printout. -/
def printFor (report : Reporter) (source : Source) : Printout → Printed
  | .tokens => printTokens report source
  | .tree format => printTree report format source
  | .both format => printAll report format source

theorem print_eq_printFor (report : Reporter) (options : Options) (source : Source) :
    print report options source = printFor report source options.printout := by
  unfold print Options.printout
  split_ifs <;> rfl

/-- The outcome of a run that ends when it has printed. -/
def Printed.outcome (printed : Printed) : Outcome :=
  match printed.failure with
  | some message => failed printed.stdout message
  | none => ⟨printed.stdout, "", exitSuccess, none⟩

section Printing

variable {report : Reporter} {source : Source} {format : TreeFormat} {error : CompileError}

theorem printTree_of_error (h : compile source.text = .error error) :
    printTree report format source = ⟨"", some (compileFailure report source error)⟩ := by
  rw [printTree, h]

theorem printAll_of_error (h : compile source.text = .error error) :
    printAll report format source =
      ⟨"Starting compilation\n", some (compileFailure report source error)⟩ := by
  rw [printAll, h]

end Printing

section Runs

variable {report : Reporter} {environment : Environment} {file : Option String} {source : Source}

/-- A run without a listener ends when it has printed. -/
theorem runWith_of_asks {arguments : List String} {printout : Printout}
    (hsource : loadSource environment file = .ok source) (h : Asks arguments file printout) :
    runWith report environment arguments = (printFor report source printout).outcome := by
  obtain ⟨options, harguments, rfl, rfl, hdev⟩ := h
  have hlisten (stdout : String) :
      listen environment options stdout = ⟨stdout, "", exitSuccess, none⟩ := by
    rw [listen, hdev]
    rfl
  simp only [runWith, harguments, execute, hsource, print_eq_printFor, Printed.outcome]
  cases (printFor report source options.printout).failure with
  | some message => rfl
  | none => exact hlisten _

end Runs

end Command

open Command

/-- The runs that print the tokens, the tree or both agree on every source
that can be read.  The tree is printed, with or without the tokens, exactly
if the source compiles, and both printouts are the other two, one after the
other.  If the source does not compile, the words are the same and nothing
of a result is printed.  The tokens are printed exactly if the source
lexes. -/
theorem runs_agree {report : Reporter} {environment : Environment} {file : Option String}
    {source : Source} {format : TreeFormat} {lexing parsing compiling : List String}
    (hsource : loadSource environment file = .ok source) (hlexing : Asks lexing file .tokens)
    (hparsing : Asks parsing file (.tree format))
    (hcompiling : Asks compiling file (.both format)) :
    let lexed := runWith report environment lexing
    let parsed := runWith report environment parsing
    let compiled := runWith report environment compiling
    (parsed.exitCode = 0 ↔ ∃ compilation, compile source.text = .ok compilation) ∧
    (compiled.exitCode = 0 ↔ ∃ compilation, compile source.text = .ok compilation) ∧
    (compiled.exitCode = 0 →
      compiled.stdout = "Starting compilation\n" ++ lexed.stdout ++ "\n" ++ parsed.stdout) ∧
    ((∃ error, compile source.text = .error error) →
      parsed.exitCode = 1 ∧ compiled.exitCode = 1 ∧ parsed.stderr = compiled.stderr ∧
      compiled.stdout = "Starting compilation\n" ∧ parsed.stdout = "") ∧
    (lexed.exitCode = 1 ↔ ∃ error, compile source.text = .error (.lex error)) ∧
    (lexed.exitCode = 1 → lexed.stderr = compiled.stderr ∧ lexed.stdout = "") ∧
    (lexed.exitCode ≠ 1 → lexed.exitCode = 0 ∧
      ∃ tokens, lex source.text = .ok tokens ∧ lexed.stdout = Token.listing tokens) := by
  intro lexed parsed compiled
  have hlexed : lexed = (printTokens report source).outcome := runWith_of_asks hsource hlexing
  have hparsed : parsed = (printTree report format source).outcome :=
    runWith_of_asks hsource hparsing
  have hcompiled : compiled = (printAll report format source).outcome :=
    runWith_of_asks hsource hcompiling
  rw [hlexed, hparsed, hcompiled]
  cases hlex : lex source.text with
  | error error =>
    have hcompile : compile source.text = .error (.lex error) := by
      rw [lex] at hlex
      rw [compile, Vocabulary.compile, hlex]
    have htokens : printTokens report source =
        ⟨"", some (compileFailure report source (.lex error))⟩ := by rw [printTokens, hlex]
    simp [htokens, printTree_of_error hcompile, printAll_of_error hcompile, hcompile,
      Printed.outcome, failed, exitFailure]
  | ok tokens =>
    have htokens : printTokens report source = ⟨Token.listing tokens, none⟩ := by
      rw [printTokens, hlex]
    rw [lex] at hlex
    cases hparse : parse tokens with
    | error error =>
      have hcompile : compile source.text = .error (.parse error) := by
        simp only [compile, Vocabulary.compile, hlex, hparse]
      simp [htokens, printTree_of_error hcompile, printAll_of_error hcompile, hcompile,
        Printed.outcome, failed, exitFailure, exitSuccess]
    | ok program =>
      have hcompile : compile source.text = .ok ⟨tokens, program⟩ := by
        simp only [compile, Vocabulary.compile, hlex, hparse]
      have htree : printTree report format source = ⟨program.format format ++ "\n", none⟩ := by
        rw [printTree, hcompile]
      have hall : printAll report format source =
          ⟨"Starting compilation\n" ++ Token.listing tokens ++ "\n" ++ program.format format ++
            "\n", none⟩ := by
        rw [printAll, hcompile]
      simp [htokens, htree, hall, hcompile, Printed.outcome, exitSuccess, String.append_assoc]

/-- A source that lexes and does not parse, with the arguments in several
orders: the first run prints the tokens, and the other two fail. -/
theorem runs_agree_of_open_group :
    let environment : Environment := ⟨fun _ => .ok ⟨2, .ok "f("⟩, fun _ => .error .unsupported⟩
    let file : Option String := some "m.fl"
    let lexed := runWith .narrator environment ["m.fl", "--lex"]
    let parsed := runWith .narrator environment ["--json", "m.fl", "--parse"]
    let compiled := runWith .narrator environment ["--json", "m.fl"]
    loadSource environment file = .ok ⟨"m.fl", "f("⟩ ∧
      Asks ["m.fl", "--lex"] file .tokens ∧
      Asks ["--json", "m.fl", "--parse"] file (.tree .json) ∧
      Asks ["--json", "m.fl"] file (.both .json) ∧
      compile "f(" = .error (.parse (.unexpectedEnd (.bracketed .round))) ∧
      parsed.stderr = compiled.stderr ∧ compiled.stdout = "Starting compilation\n" ∧
      parsed.stdout = "" ∧ lexed.exitCode = 0 := by
  intro environment file lexed parsed compiled
  have hsource : loadSource environment file = .ok ⟨"m.fl", "f("⟩ := rfl
  have hlexing : Asks ["m.fl", "--lex"] file .tokens :=
    ⟨⟨some "m.fl", true, false, false, false, 3000, "127.0.0.1"⟩, by decide +kernel, rfl, rfl, rfl⟩
  have hparsing : Asks ["--json", "m.fl", "--parse"] file (.tree .json) :=
    ⟨⟨some "m.fl", false, true, true, false, 3000, "127.0.0.1"⟩, by decide +kernel, rfl, rfl, rfl⟩
  have hcompiling : Asks ["--json", "m.fl"] file (.both .json) :=
    ⟨⟨some "m.fl", false, false, true, false, 3000, "127.0.0.1"⟩, by decide +kernel, rfl, rfl, rfl⟩
  have hcompile : compile "f(" = .error (.parse (.unexpectedEnd (.bracketed .round))) := by
    decide +kernel
  have h := @runs_agree .narrator _ _ _ _ _ _ _ hsource hlexing hparsing hcompiling
  obtain ⟨-, -, -, hfails, hlexed, -, hprinted⟩ := h
  obtain ⟨-, -, hstderr, hcompiled, hparsed⟩ := hfails ⟨_, hcompile⟩
  refine ⟨hsource, hlexing, hparsing, hcompiling, hcompile, hstderr, hcompiled, hparsed, ?_⟩
  refine (hprinted fun hcode => ?_).1
  obtain ⟨error, herror⟩ := hlexed.mp hcode
  rw [hcompile] at herror
  cases herror

end Flick
