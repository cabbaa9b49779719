/-
# Command-line arguments

The arguments are read from left to right.  A long option takes its value after
an equals sign or from the next argument, a short one also without anything in
between.  No option may be given twice or be abbreviated, and a value that is
still missing when another option or a lone double dash comes is an error.
After a lone double dash everything is positional.  Help and version are
answered at once, unless something before them was wrong.
-/

import InterfaceProbe.Host.Tools
import InterfaceProbe.Pipeline.Reflect
import InterfaceProbe.Text.Blank

namespace InterfaceProbe

/-- How a description is shown. -/
inductive ReportFormat
  | json | table
  deriving DecidableEq, Repr, Inhabited

/-- The options that take a value. -/
inductive ValueOption
  | execOnly | gb | workDir | modelImport | format | output
  deriving DecidableEq, Repr

/-- The options. -/
inductive CommandOption
  | progOnly
  | help
  | version
  | value (option : ValueOption)
  deriving DecidableEq, Repr

namespace CommandOption

/-- The option with a long name. -/
def ofName? : String → Option CommandOption
  | "prog-only" => some progOnly
  | "exec-only" => some (value .execOnly)
  | "gb" => some (value .gb)
  | "work-dir" => some (value .workDir)
  | "model-import" => some (value .modelImport)
  | "format" => some (value .format)
  | "output" => some (value .output)
  | "help" => some help
  | "version" => some version
  | _ => none

/-- The option with a short name. -/
def ofLetter? : Char → Option CommandOption
  | 'o' => some (value .output)
  | 'h' => some help
  | 'V' => some version
  | _ => none

end CommandOption

/-- The format with a name. -/
def ReportFormat.ofName? : String → Option ReportFormat
  | "json" => some json
  | "table" => some table
  | _ => none

/-- Why the arguments give no command. -/
inductive Refusal
  /-- They are wrong. -/
  | usage
  /-- They ask for help. -/
  | help
  /-- They ask for the version. -/
  | version
  deriving DecidableEq, Repr

/-- What the arguments have said so far. -/
structure Given where
  progOnly : Bool := false
  /-- The options with a value. -/
  values : List (ValueOption × String) := []
  /-- The other arguments, from left to right. -/
  positional : List String := []
  deriving DecidableEq, Repr, Inhabited

namespace Given

/-- Whether an option may have the value: paths are not empty, and a format has to be known. -/
def accepts (option : ValueOption) (value : String) : Bool :=
  match option with
  | .execOnly => !value.isEmpty
  | .output => !value.isEmpty
  | .format => (ReportFormat.ofName? value).isSome
  | _ => true

/-- With a value for an option that had none. -/
def withValue (given : Given) (option : ValueOption) (value : String) : Except Refusal Given :=
  if (given.values.lookup option).isSome || !accepts option value then .error .usage
  else .ok { given with values := given.values ++ [(option, value)] }

/-- With further positional arguments. -/
def withPositional (given : Given) (arguments : List String) : Given :=
  { given with positional := given.positional ++ arguments }

/-- With an option that takes no value. -/
def withFlag (given : Given) : CommandOption → Except Refusal Given
  | .progOnly => if given.progOnly then .error .usage else .ok { given with progOnly := true }
  | .help => .error .help
  | .version => .error .version
  | .value _ => .error .usage

end Given

/-- What an argument is. -/
inductive ArgumentKind
  /-- A lone double dash. -/
  | separator
  /-- A long option, with the value after an equals sign. -/
  | long (name : String) (value : Option String)
  /-- Short options, without the dash. -/
  | short (letters : List Char)
  | plain
  deriving DecidableEq, Repr

/-- What an argument is; a lone dash is nothing special. -/
def ArgumentKind.of (argument : String) : ArgumentKind :=
  match argument.toList with
  | ['-', '-'] => .separator
  | '-' :: '-' :: text =>
    let name := String.ofList (text.takeWhile (· != '='))
    match text.dropWhile (· != '=') with
    | [] => .long name none
    | _ :: value => .long name (some (String.ofList value))
  | '-' :: letter :: letters => .short (letter :: letters)
  | _ => .plain

/-- What an option leaves behind: what is given so far, and an option whose value is to come. -/
abbrev Progress := Given × Option ValueOption

/-- Takes a long option. -/
def takeLong (given : Given) (name : String) (value : Option String) : Except Refusal Progress :=
  match CommandOption.ofName? name, value with
  | none, _ => .error .usage
  | some (.value option), some value => do return (← given.withValue option value, none)
  | some (.value option), none => .ok (given, some option)
  | some _, some _ => .error .usage
  | some option, none => do return (← given.withFlag option, none)

/-- Takes short options; the first one that takes a value takes the rest of the letters, without
an equals sign in front. -/
def takeShort (given : Given) : List Char → Except Refusal Progress
  | [] => .ok (given, none)
  | letter :: letters =>
    match CommandOption.ofLetter? letter with
    | none => .error .usage
    | some (.value option) =>
      match letters with
      | [] => .ok (given, some option)
      | '=' :: value => do return (← given.withValue option (String.ofList value), none)
      | value => do return (← given.withValue option (String.ofList value), none)
    | some option => do takeShort (← given.withFlag option) letters

/-- Takes the arguments from left to right; an option may still lack its value. -/
def takeArguments (given : Given) (pending : Option ValueOption) :
    List String → Except Refusal Given
  | [] => if pending.isSome then .error .usage else .ok given
  | argument :: rest =>
    match ArgumentKind.of argument, pending with
    | .plain, some option => do takeArguments (← given.withValue option argument) none rest
    | .plain, none => takeArguments (given.withPositional [argument]) none rest
    | _, some _ => .error .usage
    | .separator, none => .ok (given.withPositional rest)
    | .long name value, none => do
      let (given, pending) ← takeLong given name value
      takeArguments given pending rest
    | .short letters, none => do
      let (given, pending) ← takeShort given letters
      takeArguments given pending rest

/-- What the user wants. -/
structure CommandOptions where
  request : ProbeRequest
  reflect : ReflectOptions
  /-- The build tool. -/
  gb : PathName
  /-- How probes are built; the home directory may still be missing from the work directory. -/
  config : BuildConfig
  format : ReportFormat
  /-- The file that is to receive the report. -/
  output : Option PathName
  deriving DecidableEq, Repr

/-- The environment: variables with their values, the first entry of a variable counting. -/
abbrev Environment := List (String × String)

/-- The symbols that arguments name: each argument is cut at commas, blanks around a piece do not
belong to it, and pieces without anything else are dropped. -/
def symbolsOf (arguments : List String) : List String :=
  ((arguments.flatMap (pieces ',')).map withoutBlanks).filter fun symbol => !symbol.isEmpty

namespace CommandOptions

/-- The variable that stands in for an option that is not given. -/
def environmentName? : ValueOption → Option String
  | .gb => some "MOCKPROBE_GB"
  | .workDir => some "MOCKPROBE_WORK_DIR"
  | .modelImport => some "MOCKPROBE_MODEL_IMPORT"
  | _ => none

/-- The value of an option: as given, else from the environment. -/
def value? (given : Given) (environment : Environment) (option : ValueOption) : Option String :=
  given.values.lookup option <|> do environment.lookup (← environmentName? option)

/-- The wishes behind what was given.  The first positional argument is the import path, the others
name symbols; neither may be missing. -/
def ofGiven (given : Given) (environment : Environment) : Except Refusal CommandOptions :=
  match given.positional with
  | importPath :: symbol :: symbols =>
    let value? := value? given environment
    let usual : BuildConfig := {}
    .ok
      { request := ⟨importPath, symbolsOf (symbol :: symbols)⟩
        reflect := ⟨given.progOnly, value? .execOnly⟩
        gb := (value? .gb).getD ({} : Gb).program
        config := ⟨(value? .workDir).getD usual.workDirectory,
          (value? .modelImport).getD usual.modelImport⟩
        format := ((value? .format).bind ReportFormat.ofName?).getD .json
        output := value? .output }
  | _ => .error .usage

/-- The wishes behind the arguments. -/
def parse (arguments : List String) (environment : Environment) :
    Except Refusal CommandOptions := do
  ofGiven (← takeArguments {} none arguments) environment

end CommandOptions

end InterfaceProbe
