/-!
# Command line options

The arguments of a run are read from left to right.  A flag stands alone,
an option takes a value, after `=` or as the next argument, and one plain
argument names the source file.  After `--` every argument is plain.

A value is looked at only when the next known argument is reached, or at
the end.  So a bad value is told before what follows it, but not before
an argument that nobody knows.  `Reading.settle` is that look.

After the last argument the options are checked together: `Options.check`
refuses those that exclude each other and those that need another one.
-/

namespace Flick

/-- What a run was asked to do. -/
structure Options where
  file : Option String
  lexOnly : Bool
  parseOnly : Bool
  json : Bool
  dev : Bool
  port : Nat
  host : String
  deriving DecidableEq

/-- Why arguments give no options.  The first two are requests for a
text, the others are faults. -/
inductive UsageError where
  | help
  | version
  | unknownArgument
  | invalidValue
  | tooManyValues
  | argumentConflict
  | valueValidation
  | missingRequired
  deriving DecidableEq

/-- The exit code of a run that ends at its arguments. -/
def UsageError.exitCode : UsageError → Nat
  | .help | .version => 0
  | _ => 2

namespace Options

/-! ## The arguments that are known -/

/-- The switches. -/
inductive Flag where
  | lex
  | parse
  | json
  | dev
  deriving DecidableEq

/-- The options that take a value. -/
inductive Setting where
  | port
  | host
  deriving DecidableEq

/-- What a long name can stand for. -/
inductive Meaning where
  | help
  | version
  | flag (flag : Flag)
  | setting (setting : Setting)
  deriving DecidableEq

/-- The meaning of a long name, without its dashes. -/
def Meaning.ofName? (name : String) : Option Meaning :=
  if name = "lex" then some (.flag .lex)
  else if name = "parse" then some (.flag .parse)
  else if name = "json" then some (.flag .json)
  else if name = "dev" then some (.flag .dev)
  else if name = "port" then some (.setting .port)
  else if name = "host" then some (.setting .host)
  else if name = "help" then some .help
  else if name = "version" then some .version
  else none

/-- The meaning of a short name. -/
def Meaning.ofLetter? (letter : Char) : Option Meaning :=
  if letter = 'h' then some .help
  else if letter = 'V' then some .version
  else none

/-- An argument by its form. -/
inductive Argument where
  /-- Two dashes: plain arguments follow. -/
  | separator
  /-- Two dashes and a name, perhaps with a value after `=`. -/
  | long (name : String) (value : Option String)
  /-- One dash and letters, of which the first one decides. -/
  | short (letter : Char)
  | plain (text : String)
  deriving DecidableEq

/-- The form of an argument.  A lone dash is plain. -/
def Argument.ofString (text : String) : Argument :=
  match text.toList with
  | ['-', '-'] => .separator
  | '-' :: '-' :: chars =>
    let value :=
      match chars.dropWhile (· != '=') with
      | [] => none
      | _ :: value => some (String.ofList value)
    .long (String.ofList (chars.takeWhile (· != '='))) value
  | '-' :: letter :: _ => .short letter
  | _ => .plain text

/-- A natural number in decimal digits, at least one. -/
def decimal? (digits : List Char) : Option Nat :=
  if digits.isEmpty || !digits.all Char.isDigit then none
  else some (digits.foldl (fun value digit => 10 * value + (digit.toNat - 48)) 0)

/-- A port: decimal digits, perhaps after a sign, of a value that sixteen
bits hold. -/
def port? (text : String) : Option Nat :=
  match text.toList with
  | '+' :: digits => (decimal? digits).filter (· ≤ 65535)
  | '-' :: digits => (decimal? digits).filter (· = 0)
  | digits => (decimal? digits).filter (· ≤ 65535)

/-! ## Reading -/

/-- The arguments that were accepted so far. -/
structure Given where
  file : Option String
  flags : List Flag
  port : Option Nat
  host : Option String
  deriving DecidableEq

/-- An argument that was read but whose value is still to be looked at. -/
inductive Pending where
  | file (path : String)
  | setting (setting : Setting) (value : Option String)
  deriving DecidableEq

/-- The state between two arguments. -/
structure Reading where
  given : Given
  pending : Option Pending
  deriving DecidableEq

/-- The state before the first argument. -/
def Reading.start : Reading := ⟨⟨none, [], none, none⟩, none⟩

/-- Accepts a flag that was not given before. -/
def Given.switch (given : Given) (flag : Flag) : Except UsageError Given :=
  if given.flags.contains flag then .error .argumentConflict
  else .ok { given with flags := flag :: given.flags }

/-- Accepts the value of an option that was not given before. -/
def Given.assign (given : Given) (value : String) : Setting → Except UsageError Given
  | .host =>
    if given.host.isSome then .error .argumentConflict
    else .ok { given with host := some value }
  | .port =>
    if given.port.isSome then .error .argumentConflict
    else
      match port? value with
      | some port => .ok { given with port := some port }
      | none => .error .valueValidation

namespace Reading

/-- Looks at the value that was put off. -/
def settle (reading : Reading) : Except UsageError Given :=
  match reading.pending with
  | none => .ok reading.given
  | some (.file path) =>
    if path.isEmpty then .error .invalidValue
    else .ok { reading.given with file := some path }
  | some (.setting _ none) => .error .invalidValue
  | some (.setting setting (some value)) => reading.given.assign value setting

/-- Whether the source file has been named. -/
def hasFile (reading : Reading) : Bool :=
  reading.given.file.isSome ||
    match reading.pending with
    | some (.file _) => true
    | _ => false

/-- Reads an argument that is known by name. -/
def named (reading : Reading) (value : Option String) :
    Meaning → Except UsageError Reading
  | .setting setting => do
    let given ← reading.settle
    match value with
    | some value => return ⟨← given.assign value setting, none⟩
    | none => return ⟨given, some (.setting setting none)⟩
  | .flag flag =>
    if value.isSome then throw .tooManyValues
    else do
      let given ← reading.settle
      return ⟨← given.switch flag, none⟩
  | .help =>
    if value.isSome then throw .tooManyValues
    else do
      let _ ← reading.settle
      throw .help
  | .version =>
    if value.isSome then throw .tooManyValues
    else do
      let _ ← reading.settle
      throw .version

/-- Reads the name of the source file. -/
def positional (reading : Reading) (path : String) : Except UsageError Reading :=
  if reading.hasFile then .error .unknownArgument
  else do
    let given ← reading.settle
    return ⟨given, some (.file path)⟩

/-- Reads a plain argument: the value of the option in front of it, or
the name of the source file. -/
def plain (reading : Reading) (text : String) : Except UsageError Reading :=
  match reading.pending with
  | some (.setting setting none) =>
    .ok { reading with pending := some (.setting setting (some text)) }
  | _ => reading.positional text

/-- Reads the arguments after `--`. -/
def readPlain (reading : Reading) : List String → Except UsageError Given
  | [] => reading.settle
  | path :: paths => do
    let reading ← reading.positional path
    reading.readPlain paths

/-- Reads the arguments. -/
def read (reading : Reading) : List String → Except UsageError Given
  | [] => reading.settle
  | text :: texts =>
    match Argument.ofString text with
    | .separator => reading.readPlain texts
    | .plain text => do
      let reading ← reading.plain text
      reading.read texts
    | .long name value =>
      match Meaning.ofName? name with
      | none => throw .unknownArgument
      | some meaning => do
        let reading ← reading.named value meaning
        reading.read texts
    | .short letter =>
      match Meaning.ofLetter? letter with
      | none => throw .unknownArgument
      | some meaning => do
        let reading ← reading.named none meaning
        reading.read texts

end Reading

/-! ## Options -/

/-- The port of the listener where none is given. -/
def defaultPort : Nat := 3000

/-- The host of the listener where none is given. -/
def defaultHost : String := "127.0.0.1"

/-- The options of the arguments that were given, if they go together. -/
def check (given : Given) : Except UsageError Options :=
  let has (flag : Flag) := given.flags.contains flag
  if has .lex && (has .parse || has .json) then .error .argumentConflict
  else if !has .dev && (given.port.isSome || given.host.isSome) then .error .missingRequired
  else
    .ok
      { file := given.file
        lexOnly := has .lex
        parseOnly := has .parse
        json := has .json
        dev := has .dev
        port := given.port.getD defaultPort
        host := given.host.getD defaultHost }

/-- The options that arguments ask for. -/
def ofArguments (arguments : List String) : Except UsageError Options := do
  let given ← Reading.start.read arguments
  check given

end Options

end Flick
