import GraphPaths.FilePath
import GraphPaths.Json.Printer
import GraphPaths.Yaml.Printer

/-!
# Serialized documents

A document is written as JSON or as YAML (`serialize`). A format goes by its name in small letters,
and any other name is refused before the document is looked at.
-/

namespace GraphPaths

/-- The formats a document is written in. -/
inductive OutputFormat where
  | json
  | yaml
deriving Repr, DecidableEq

/-- The name of a format. -/
def OutputFormat.name : OutputFormat → String
  | .json => "json"
  | .yaml => "yaml"

/-- All formats. -/
def OutputFormat.all : List OutputFormat := [.json, .yaml]

/-- Why a document was not written. -/
inductive SerializeError where
  /-- No format has this name. -/
  | format (name : String)
  /-- JSON has no form for the document. -/
  | json (error : Json.WriteError)
  /-- An integer is too long. -/
  | number (error : NumeralError)
deriving Repr, DecidableEq

/-- The message of an error. -/
def SerializeError.message : SerializeError → String
  | .format name =>
    s!"Unsupported output format '{name}', expected one of: json, yaml"
  | .json e => e.message
  | .number e => e.message

/-- The format with a name. -/
def OutputFormat.ofName (name : String) : Except SerializeError OutputFormat :=
  match OutputFormat.all.find? fun f => f.name == name with
  | some f => .ok f
  | none => .error (.format name)

/-- The format that the name of a file asks for: YAML by its ending, else JSON. -/
def OutputFormat.ofPath (p : FilePath) : OutputFormat :=
  if p.suffix == ".yaml" || p.suffix == ".yml" then .yaml else .json

/-- The text of a document in a format. -/
def OutputFormat.write (format : OutputFormat) (document : Value) : Except SerializeError String :=
  match format with
  | .json => (Json.text document).mapError .json
  | .yaml => (Yaml.text document).mapError .number

/-- The text of a document in the format with a name. -/
def serialize (document : Value) (format : String) : Except SerializeError String := do
  (← OutputFormat.ofName format).write document

end GraphPaths
