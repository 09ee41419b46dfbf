import GraphPaths.CommandLine.Settings
import GraphPaths.Listing

/-!
# The command line

The program has two groups of commands: `export openapi` writes the document of a schema, and
`stats graphql` lists its operations. Parameters in front of a group set how grave a record has to be to
be kept, and a file for the records.

`run` takes the files, the environment variables and the arguments, and gives all that comes of them:
how the program ends, the files, the records kept, and what is shown. An export reports its errors and
ends with status 1; other errors end the program as they are.
-/

namespace GraphPaths

namespace CommandLine

/-! ## Parameters -/

/-- The name of the program, which names of its environment variables start with. -/
def programName : String := "gql2openapi"

/-- The version of the program. -/
def programVersion : String := "0.3.0"

/-- The parameters in front of all commands. -/
def rootParameters : List Parameter :=
  [{ Parameter.optional "log_level" ["-l", "--log-level"] (.choice (LogLevel.all.map LogLevel.name))
      with default := some LogLevel.info.name },
   .optional "log_file" ["--log-file"] (.path false false), .version, .help]

/-- The files and directories of the schema. -/
def schemaParameter : Parameter :=
  { Parameter.optional "schemas" ["--schema", "-s"] (.path true true) with
    many := true, required := true }

/-- The kinds of operations. -/
def operationParameter : Parameter :=
  { Parameter.optional "operations" ["--operation", "-p"]
      (.choice (OperationKind.all.map OperationKind.keyword)) with many := true }

/-- The parameters of an export. -/
def exportParameters : List Parameter :=
  [schemaParameter,
   { Parameter.optional "output" ["--output", "-o"] (.path false false) with required := true },
   operationParameter,
   .optional "config" ["--config", "-c"] (.path true false),
   .optional "example_values" ["--example-values", "-e"] (.path true false),
   .optional "server_url" ["--server-url"] .text,
   .optional "title" ["--title"] .text,
   .optional "openapi_version" ["--openapi-version"] .text,
   .optional "api_version" ["--api-version"] .text,
   .optional "summary" ["--summary"] .text,
   .optional "description" ["--description"] .text,
   .optional "operation_name" ["--operation-name"] .switch,
   .optional "output_format" ["--format", "-f"] (.choice (OutputFormat.all.map OutputFormat.name)),
   .help]

/-- The parameters of a listing. -/
def listingParameters : List Parameter := [schemaParameter, operationParameter, .help]

/-- The paths of the schema, resolved to files. -/
def schemasOf (t : FileTree) (s : Settings) : List FilePath :=
  resolveSchemaFiles t ((s.all "schemas").map FilePath.parse)

/-- The export that settings ask for. -/
def exportOf (t : FileTree) (s : Settings) : Export where
  schemas := schemasOf t s
  output := .parse ((s.one? "output").getD "")
  operations := s.all "operations"
  options := (s.one? "config").map FilePath.parse
  exampleValues := (s.one? "example_values").map FilePath.parse
  changes :=
    { serverUrl := s.one? "server_url"
      title := s.one? "title"
      openapi := s.one? "openapi_version"
      version := s.one? "api_version"
      summary := s.one? "summary"
      description := s.one? "description"
      includeOperationName := s.isOn "operation_name" }
  format := s.one? "output_format"

/-! ## Outcomes -/

/-- How the program ends. -/
inductive Ending where
  | exit (status : Nat)
  | usage (error : UsageError)
  | failed (error : CommandError)
deriving Repr, DecidableEq

/-- All that comes of running the program. -/
structure Outcome where
  ending : Ending
  files : FileTree
  /-- The file that the records go to, if there is one. -/
  logFile : Option FilePath
  /-- The records that are grave enough. -/
  records : List LogRecord
  shown : List Shown
  /-- Text that goes to the standard output as it is. -/
  output : String
deriving Repr, DecidableEq

namespace Outcome

/-- The outcome of a program that ends before it does anything. -/
def early (t : FileTree) (logFile : Option FilePath) (ending : Ending) (output : String) : Outcome :=
  ⟨ending, t, logFile, [], [], output⟩

/-- The outcome where there are no settings. -/
def halted (t : FileTree) (logFile : Option FilePath) : Halt → Outcome
  | .usage .nothingGiven => early t logFile (.exit 2) ""
  | .usage e => early t logFile (.usage e) ""
  | .shortcut .help => early t logFile (.exit 0) ""
  | .shortcut .version =>
    early t logFile (.exit 0) (programName ++ ", version " ++ programVersion ++ "\n")

end Outcome

/-! ## Running -/

/-- How records are kept. -/
structure Logging where
  level : LogLevel
  file : Option FilePath
deriving Repr, DecidableEq

/-- The records that are grave enough. -/
def Logging.keep (l : Logging) (records : List LogRecord) : List LogRecord :=
  records.filter fun r => l.level.number ≤ r.level.number

/-- How records are kept by settings, and the files with an empty file for them. -/
def startLogging (t : FileTree) (s : Settings) : Except FileError (FileTree × Logging) := do
  let level := ((s.one? "log_level").bind fun name =>
    LogLevel.all.find? fun l => l.name == name).getD .info
  match (s.one? "log_file").map FilePath.parse with
  | none => return (t, ⟨level, none⟩)
  | some p => return (← t.write p [], ⟨level, some p⟩)

/-- Work whose error is reported where there is a report for it. -/
def reporting {α : Type} (job : Job CommandError α) : Job CommandError α :=
  tryCatch job fun e => do
    match e.report? with
    | some message => Job.log .error message
    | none => pure ()
    throw e

/-- How an export ends with an error. -/
def exportEnding (e : CommandError) : Ending :=
  if e == .flawedSchema || e.report?.isSome then .exit 1 else .failed e

/-- The outcome of the work of a command, with how it ends with an error. -/
def outcomeOf (t : FileTree) (l : Logging) (ending : CommandError → Ending)
    (job : Job CommandError (FileTree × List Shown)) : Outcome :=
  match job.run with
  | (.ok (t', shown), records) => ⟨.exit 0, t', l.file, l.keep records, shown, ""⟩
  | (.error e, records) => ⟨ending e, t, l.file, l.keep records, [], ""⟩

/-- The outcome of an export. -/
def runExport (t : FileTree) (l : Logging) (s : Settings) : Outcome :=
  outcomeOf t l exportEnding (reporting ((exportOf t s).run t))

/-- The outcome of a listing. -/
def runListing (t : FileTree) (l : Logging) (s : Settings) : Outcome :=
  outcomeOf t l .failed do
    let shown ← listOperations t (schemasOf t s) (s.all "operations")
    return (t, shown)

/-- A command of a group. -/
structure Command where
  group : String
  name : String
  parameters : List Parameter
  run : FileTree → Logging → Settings → Outcome

/-- All commands. -/
def commands : List Command :=
  [⟨"export", "openapi", exportParameters, runExport⟩,
   ⟨"stats", "graphql", listingParameters, runListing⟩]

/-- The outcome of the commands of a group, once the parameters in front of it are settled. -/
def runGroup (t : FileTree) (l : Logging) (env : List (String × String)) (group : String)
    (args : List String) : Outcome :=
  let halted := Outcome.halted t l.file
  let own := commands.filter fun c => c.group == group
  let path := [programName, group]
  match settleGroup t env path [.help] (own.map Command.name) args with
  | .error h => halted h
  | .ok (_, name, args) =>
    match own.find? fun c => c.name == name with
    | none => halted (.usage (.noCommand name []))
    | some c =>
      match settleAll t env (path ++ [name]) c.parameters args with
      | .error h => halted h
      | .ok s => c.run t l s

/-- The outcome of the program. -/
def run (t : FileTree) (env : List (String × String)) (args : List String) : Outcome :=
  match settleGroup t env [programName] rootParameters (commands.map Command.group) args with
  | .error h => Outcome.halted t none h
  | .ok (s, group, args) =>
    match startLogging t s with
    | .error e => Outcome.early t none (.failed (.file e)) ""
    | .ok (t, l) => runGroup t l env group args

end CommandLine

end GraphPaths
