import GraphPaths.MappingFile
import GraphPaths.Schema.Validation
import GraphPaths.SchemaFiles
import GraphPaths.Transform

/-!
# Errors of commands

What can go wrong in a command, and what is reported about it (`CommandError.report?`): faults of
files, of schemas, of the YAML notation and of what was put in are reported, each with words of its
own. A few errors are not, and end the program as they are.
-/

namespace GraphPaths

/-- What can go wrong in a command. -/
inductive CommandError where
  | file (error : FileError)
  | schemaFiles (error : SchemaFileError)
  /-- The flaws of the schema cannot be searched for. -/
  | search (error : Schema.SearchError)
  /-- The schema has flaws, which were reported. -/
  | flawedSchema
  | mapping (error : MappingFileError)
  | options (error : OptionsError)
  | examples (error : ExampleError)
  | transform (error : TransformError)
deriving Repr, DecidableEq

/-! ## Reports -/

/-- A report about a file that cannot be used. -/
def fileReport (e : FileError) : String := "File I/O error: " ++ e.message

/-- A report about a schema. -/
def schemaReport (message : String) : String := "Invalid schema: " ++ message

/-- A report about what was put in. -/
def inputReport (message : String) : String := "Invalid input: " ++ message

/-- The report about a text that cannot be had. -/
def TextError.report : TextError → String
  | .file e => fileReport e
  | .encoding e => inputReport e.message

/-- The report about a text that gives no schema. -/
def SchemaError.report : SchemaError → String
  | .syntaxFault e => schemaReport e.message
  | .part e => schemaReport e.message
  | .rules vs => inputReport (SchemaError.rules vs).message

/-- The report about schema files. -/
def SchemaFileError.report : SchemaFileError → String
  | .text e => e.report
  | .syntaxFault p e => schemaReport (s!"Could not load {p.text}:\n" ++ e.message)
  | .schema e => e.report

/-- The report about a schema whose flaws cannot be searched for. -/
def Schema.SearchError.report : Schema.SearchError → String
  | .part e => schemaReport e.message
  | .noLeaf e => inputReport e.message

/-- The report about a YAML text. -/
def Yaml.LoadError.report? (e : Yaml.LoadError) : Option String :=
  match e with
  | .malformed => some ("Invalid YAML: " ++ e.message)
  | .codePoint code => if code < Nat.pow 2 31 then some (inputReport e.message) else none
  | .number _ | .calendar _ | .notScalar => some (inputReport e.message)
  | .emptyNumber | .tooLarge | .noBool _ | .noTimestamp => none

/-- The report about a mapping file. -/
def MappingFileError.report? : MappingFileError → Option String
  | .text e => some e.report
  | .json e => some (inputReport e.message)
  | .yaml e => e.report?
  | .notMapping name kindName => some (inputReport (notMappingMessage name kindName))

/-- The report about examples. -/
def ExampleError.report? : ExampleError → Option String
  | .failure _ _ | .noFields => none
  | e => some (inputReport e.message)

/-- The report about examples that give no document. -/
def AssembleError.report? : AssembleError → Option String
  | .noResponse _ | .noQuery => none
  | e => some (inputReport e.message)

/-- The report about a document. -/
def TransformError.report? : TransformError → Option String
  | .examples e => e.report?
  | .assembly e => e.report?
  | e => some (inputReport e.message)

/-- The report about an error of a command; none where the program ends with the error as it is, or
where all is reported. -/
def CommandError.report? : CommandError → Option String
  | .file e => some (fileReport e)
  | .schemaFiles e => some e.report
  | .search e => some e.report
  | .flawedSchema => none
  | .mapping e => e.report?
  | .options e => some (inputReport e.message)
  | .examples e => e.report?
  | .transform e => e.report?

end GraphPaths
