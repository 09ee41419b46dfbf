import GraphPaths.Text.Digit
import GraphPaths.Text.Quoted

/-!
# Parameters of commands

A command takes parameters, each with its spellings, such as `--output` and `-o`, and with what its
value has to be. `UsageError` says what can be wrong with the arguments of a command.
-/

namespace GraphPaths

namespace CommandLine

/-- What the value of a parameter has to be. -/
inductive ParameterKind where
  | text
  /-- One of some names, without regard to case. -/
  | choice (names : List String)
  /-- A path, to something that is there or not, and to a directory too or not. -/
  | path (mustExist allowDirectory : Bool)
  /-- Nothing: the parameter is given or not. -/
  | switch
deriving Repr, DecidableEq

/-- What a parameter brings about as soon as it is found. -/
inductive Shortcut where
  | help
  | version
deriving Repr, DecidableEq

/-- A parameter. -/
structure Parameter where
  /-- The name under which its value is kept, and the end of the name of its environment variable. -/
  name : String
  spellings : List String
  kind : ParameterKind
  /-- Whether it may be given more than once, all values counting; else the last one counts. -/
  many : Bool
  required : Bool
  default : Option String
  shortcut : Option Shortcut
deriving Repr, DecidableEq

namespace Parameter

/-- A parameter with one value that need not be given. -/
def optional (name : String) (spellings : List String) (kind : ParameterKind) : Parameter :=
  ⟨name, spellings, kind, false, false, none, none⟩

/-- The parameter that shows help. -/
def help : Parameter := { optional "help" ["--help"] .switch with shortcut := some .help }

/-- The parameter that shows the version. -/
def version : Parameter := { optional "version" ["--version"] .switch with shortcut := some .version }

/-- The spellings in a message. -/
def hint (p : Parameter) : String := " / ".intercalate (p.spellings.map fun s => "'" ++ s ++ "'")

end Parameter

/-! ## Errors -/

/-- Why a text is no value of a parameter. -/
inductive ValueFault where
  | notChoice (names : List String)
  | notBool
  | noPath
  | noFile
  | isDirectory
deriving Repr, DecidableEq

/-- The words for the truth values of switches, sorted. -/
def switchWords : List (String × Bool) :=
  [("", false), ("0", false), ("1", true), ("f", false), ("false", false), ("n", false),
   ("no", false), ("off", false), ("on", true), ("t", true), ("true", true), ("y", true),
   ("yes", true)]

/-- The message about a value. -/
def ValueFault.message (value : String) : ValueFault → String
  | .notChoice names =>
    Text.quoted value ++ " is not one of " ++ ", ".intercalate (names.map Text.quoted) ++ "."
  | .notBool => Text.quoted value ++ " is not a valid boolean. Recognized values: "
      ++ ", ".intercalate (switchWords.map Prod.fst)
  | .noPath => s!"Path {Text.quoted value} does not exist."
  | .noFile => s!"File {Text.quoted value} does not exist."
  | .isDirectory => s!"File {Text.quoted value} is a directory."

/-- What is wrong with the arguments of a command. -/
inductive UsageError where
  /-- A command that only groups others was given nothing. -/
  | nothingGiven
  /-- No command follows the parameters. -/
  | missingCommand
  /-- No command has a name; the names near to it. -/
  | noCommand (name : String) (near : List String)
  /-- No parameter has a spelling; the spellings near to it. -/
  | noParameter (spelling : String) (near : List String)
  | missing (parameter : Parameter)
  | badValue (parameter : Parameter) (value : String) (fault : ValueFault)
  | needsArgument (spelling : String)
  | takesNoValue (spelling : String)
  | extraArguments (arguments : List String)
deriving Repr, DecidableEq

/-- The question whether one of some names was meant. -/
def proposal : List String → String
  | [] => ""
  | [name] => s!" Did you mean {Text.quoted name}?"
  | names => " (Did you mean one of: " ++ ", ".intercalate (names.map Text.quoted) ++ "?)"

/-- The message of an error; where nothing was given, help is shown instead. -/
def UsageError.message : UsageError → String
  | .nothingGiven => ""
  | .missingCommand => "Missing command."
  | .noCommand name near => s!"No such command {Text.quoted name}." ++ proposal near
  | .noParameter spelling near => s!"No such option {Text.quoted spelling}." ++ proposal near
  | .missing p => s!"Missing option {p.hint}."
  | .badValue p value fault => s!"Invalid value for {p.hint}: {fault.message value}"
  | .needsArgument spelling => s!"Option {Text.quoted spelling} requires an argument."
  | .takesNoValue spelling => s!"Option {Text.quoted spelling} does not take a value."
  | .extraArguments args =>
    let noun := if args.length == 1 then "argument" else "arguments"
    let shown := " ".intercalate args
    s!"Got unexpected extra {noun} ({shown})"

end CommandLine

end GraphPaths
