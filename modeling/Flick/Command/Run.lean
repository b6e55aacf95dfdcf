import Flick.Command.Options
import Flick.Command.Store
import Flick.Compilation
import Flick.Diagnostic.Report
import Flick.Listener
import Flick.Node.Datum
import Flick.Text.Trimmed
import Flick.Token.Listing

/-!
# A run of the command

A run reads its options, compiles a file or the built-in sample, prints
the tokens, the tree or both, and then starts the listener if asked to.
What it needs from outside is an `Environment`, and what it does is an
`Outcome`, so a run is a function.

An outcome has exit code 0 if all went well, 1 if something failed, with
the words on the error output, and 2 if the arguments are at fault.

In which words a fault is told is not settled here.  The report of a
compile error is up to the terminal, which may draw the source next to it,
and arguments at fault are told by whatever reads the command line, which
names the argument.  So `runWith` takes a `Reporter`.  `run` is the run that
tells a diagnostic in prose; of its answer to arguments at fault, the exit
code and the empty output count and the words do not.
-/

namespace Flick

/-- What a run asks of the system. -/
structure Environment where
  /-- The file at a path, or why it cannot be accessed. -/
  openFile : String → Except SystemError SourceFile
  /-- Whether a listener may use an address. -/
  bind : Address → Except SystemError Unit

/-- What a run does: the texts that it writes, its exit code, and the
address on which it listens before it ends, if it does. -/
structure Outcome where
  stdout : String
  stderr : String
  exitCode : Nat
  listensOn : Option Address
  deriving DecidableEq

/-- A source text, and the name that reports call it by. -/
structure Source where
  name : String
  text : String
  deriving DecidableEq

/-- How a run tells what is at fault. -/
structure Reporter where
  /-- The report of a diagnostic on a source. -/
  tell : Source → Diagnostic → String
  /-- What is said of arguments that give no options. -/
  refuse : List String → UsageError → String

/-- The reporter that tells a diagnostic in prose, without the source.  It
answers arguments at fault with the form of a command line.  That stands in
for words that name the argument, and only the exit code is followed there. -/
def Reporter.narrator : Reporter where
  tell _ diagnostic := diagnostic.narrate
  refuse _ _ := "Usage: flick [OPTIONS] [FILE]\n"

namespace Command

/-- The exit code of a run that went well. -/
def exitSuccess : Nat := 0

/-- The exit code of a run that failed. -/
def exitFailure : Nat := 1

/-! ## Fixed texts -/

/-- The version of the command. -/
def version : String := "0.1.0"

/-- The answer to a request for the version. -/
def versionText : String := "flick " ++ version ++ "\n"

/-- The answer to a request for help. -/
def helpText : String :=
  "Lexer and indentation-sensitive parser for the Flick language\n" ++
    "\n" ++
    "Usage: flick [OPTIONS] [FILE]\n" ++
    "\n" ++
    "Arguments:\n" ++
    "  [FILE]  Source file to compile (default: built-in sample program)\n" ++
    "\n" ++
    "Options:\n" ++
    "      --lex          Tokenize only (debug)\n" ++
    "      --parse        Parse only, print the AST without tokens (debug)\n" ++
    "      --json         Print the AST as JSON instead of the debug tree\n" ++
    "      --dev          Start the development listener after compiling\n" ++
    "      --port <PORT>  Port for the development listener [default: 3000]\n" ++
    "      --host <HOST>  Host address for the development listener [default: 127.0.0.1]\n" ++
    "  -h, --help         Print help\n" ++
    "  -V, --version      Print version\n"

/-- The program that is compiled when no file is named. -/
def sample : String :=
  "\ntest = () -> print('Hello!')\n" ++
    "\ntestOne = (x) -> return x + 1\n" ++
    "\ntest = ->\n  x = testOne(1)\n  print(x)\n"

/-- What reports call that program. -/
def sampleName : String := "<sample>"

/-! ## Reading the source -/

/-- The most bytes that a source file may have. -/
def maxSourceSize : Nat := 104857600

/-- The text of a source file, or what is said of a file without one. -/
def readSource (environment : Environment) (path : String) : Except String String :=
  match environment.openFile path with
  | .error reason => .error ("Cannot access file '" ++ path ++ "': " ++ reason.message)
  | .ok file =>
    if maxSourceSize < file.size then
      .error ("Source file '" ++ path ++ "' is too large (" ++ toString file.size ++
        " bytes, max " ++ toString maxSourceSize ++ " bytes)")
    else
      match file.content with
      | .error reason => .error ("Error reading file '" ++ path ++ "': " ++ reason.message)
      | .ok source => .ok source

/-- The source of a run: the file that it names, or else the sample. -/
def loadSource (environment : Environment) : Option String → Except String Source
  | none => .ok ⟨sampleName, sample⟩
  | some path =>
    match readSource environment path with
    | .error message => .error message
    | .ok text => .ok ⟨path, text⟩

/-! ## Compiling -/

/-- What a stage of a run wrote, and what is said of it if it failed. -/
structure Printed where
  stdout : String
  failure : Option String
  deriving DecidableEq

/-- What is said of a source that does not compile. -/
def compileFailure (report : Reporter) (source : Source) (error : CompileError) : String :=
  Text.trimEnd (report.tell source error.diagnostic)

/-- Prints the tokens of a source. -/
def printTokens (report : Reporter) (source : Source) : Printed :=
  match lex source.text with
  | .error error => ⟨"", some (compileFailure report source (.lex error))⟩
  | .ok tokens => ⟨Token.listing tokens, none⟩

/-- Prints the tree of a source. -/
def printTree (report : Reporter) (format : TreeFormat) (source : Source) : Printed :=
  match compile source.text with
  | .error error => ⟨"", some (compileFailure report source error)⟩
  | .ok compilation => ⟨compilation.program.format format ++ "\n", none⟩

/-- Announces itself and prints the tokens and the tree of a source, with
an empty line between them. -/
def printAll (report : Reporter) (format : TreeFormat) (source : Source) : Printed :=
  match compile source.text with
  | .error error => ⟨"Starting compilation\n", some (compileFailure report source error)⟩
  | .ok compilation =>
    ⟨"Starting compilation\n" ++ Token.listing compilation.tokens ++ "\n" ++
      compilation.program.format format ++ "\n", none⟩

/-- Prints what the options ask for. -/
def print (report : Reporter) (options : Options) (source : Source) : Printed :=
  let format := if options.json then .json else .outline
  if options.lexOnly then printTokens report source
  else if options.parseOnly then printTree report format source
  else printAll report format source

/-! ## Running -/

/-- The outcome of a run that failed after it wrote `stdout`.  A failure
without words is not told. -/
def failed (stdout message : String) : Outcome :=
  ⟨stdout, if message.isEmpty then "" else message ++ "\n", exitFailure, none⟩

/-- What is said of a listener that does not start. -/
def listenerFailure (reason : String) : String := "Dev listener error: " ++ reason

/-- The outcome of the last stage: listen, if the options ask for it. -/
def listen (environment : Environment) (options : Options) (stdout : String) : Outcome :=
  if options.dev then
    match Listener.start environment.bind options.host options.port with
    | .error error => failed stdout (listenerFailure error.message)
    | .ok address => ⟨stdout, "", exitSuccess, some address⟩
  else ⟨stdout, "", exitSuccess, none⟩

/-- The outcome of a run with these options. -/
def execute (report : Reporter) (environment : Environment) (options : Options) : Outcome :=
  match loadSource environment options.file with
  | .error message => failed "" message
  | .ok source =>
    let printed := print report options source
    match printed.failure with
    | some message => failed printed.stdout message
    | none => listen environment options printed.stdout

/-- The outcome of a run with these arguments, and with reports of this
form. -/
def runWith (report : Reporter) (environment : Environment) (arguments : List String) :
    Outcome :=
  match Options.ofArguments arguments with
  | .error .help => ⟨helpText, "", UsageError.help.exitCode, none⟩
  | .error .version => ⟨versionText, "", UsageError.version.exitCode, none⟩
  | .error error => ⟨"", report.refuse arguments error, error.exitCode, none⟩
  | .ok options => execute report environment options

/-- The outcome of a run with these arguments. -/
def run (environment : Environment) (arguments : List String) : Outcome :=
  runWith .narrator environment arguments

end Command

end Flick
