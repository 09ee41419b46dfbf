import GraphPaths.FileTree
import GraphPaths.Json.Reader
import GraphPaths.Log
import GraphPaths.Yaml.Load

/-!
# Mapping files

Options and example values come from files that hold a mapping, in JSON if the file's name says so and
else in YAML. No file, an empty one and one that holds null give an empty mapping.
-/

namespace GraphPaths

/-- Why a file gives no mapping. -/
inductive MappingFileError where
  | text (error : TextError)
  | json (error : Json.ReadError)
  | yaml (error : Yaml.LoadError)
  /-- The file holds a value of another kind. -/
  | notMapping (name kindName : String)
deriving Repr, DecidableEq

/-- The message about a root that is no mapping. -/
def notMappingMessage (name kindName : String) : String :=
  s!"Root of {name} must be a mapping, got {kindName}"

/-- The value of a file's text. -/
def valueOfText (p : FilePath) (text : String) : Except MappingFileError Value :=
  if p.suffix == ".json" then (Json.read text).mapError .json
  else (Yaml.load text).mapError .yaml

/-- The mapping that a file holds. -/
def loadMapping (t : FileTree) (path : Option FilePath) : Job MappingFileError Value :=
  match path with
  | none => return .map []
  | some p => do
    let text ← Job.ofExcept ((t.readText p).mapError .text)
    let v ← Job.ofExcept (valueOfText p text)
    Job.log .debug s!"Loaded mapping file {p.text}"
    match v.bare with
    | .null => return .map []
    | .map _ => return v
    | _ => throw (.notMapping p.name v.kindName)

end GraphPaths
