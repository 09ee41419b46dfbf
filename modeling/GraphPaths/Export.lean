import GraphPaths.CommandError
import GraphPaths.Console

/-!
# Exporting a document

`Export.run` writes the document of the schema in some files to a file. The schema has to be free of
flaws. Options come from a file, single ones from the request itself, and example values of a second
file are added to those of the options. Nothing is written unless the whole text of the document is
there.
-/

namespace GraphPaths

/-- Options that are set one by one. -/
structure OptionChanges where
  serverUrl : Option String
  title : Option String
  openapi : Option String
  version : Option String
  summary : Option String
  description : Option String
  includeOperationName : Bool
deriving Repr, DecidableEq, Inhabited

/-- Options with some of them changed. -/
def Options.change (o : Options) (c : OptionChanges) : Options :=
  let text := fun (new : Option String) (old : Value) => (new.map Value.text).getD old
  { o with
    serverUrl := text c.serverUrl o.serverUrl
    title := text c.title o.title
    openapi := c.openapi.getD o.openapi
    version := text c.version o.version
    summary := text c.summary o.summary
    description := text c.description o.description
    includeOperationName :=
      if c.includeOperationName then .bool true else o.includeOperationName }

/-- Options with the example values of a mapping added; keys that are no texts name no argument. -/
def Options.addExampleValues (o : Options) (v : Value) : Options :=
  let v := v.raise o.labelBound
  let fields := (v.entries?.getD []).filterMap fun (k, x) => k.text?.map (·, x)
  let labelled := (Value.label (max o.labelBound v.labelBound) fields).1
  { o with exampleValues := .named (mergeFields o.exampleValues.fields labelled) }

/-- What is to be exported, and where to. -/
structure Export where
  schemas : List FilePath
  output : FilePath
  /-- The kinds of operations; all if none is named. -/
  operations : List String
  options : Option FilePath
  exampleValues : Option FilePath
  changes : OptionChanges
  /-- The format; by the name of the output if none is named. -/
  format : Option String
deriving Repr, DecidableEq, Inhabited

/-- A selection of kinds of operations by their names. -/
def kindsOf (operations : List String) : Kinds :=
  .list (operations.map fun name => .named (.text name))

/-- The flaws of a schema are reported, and there must be none. -/
def requireSound (s : Schema) : Job CommandError Unit := do
  let problems ← Job.ofExcept (s.problems.mapError .search)
  if !problems.isEmpty then
    Job.log .error "Schema validation failed:"
    for problem in problems do Job.log .error problem
    let count := Text.decimal problems.length
    Job.log .error
      s!"Found {count} validation error(s). Please fix the schema before exporting."
    throw .flawedSchema

namespace Export

/-- The options of an export. -/
def readOptions (t : FileTree) (e : Export) : Job CommandError Options := do
  let given ← (loadMapping t e.options).mapError .mapping
  let o ← Job.ofExcept ((Options.ofValue given).mapError .options)
  let o := o.change e.changes
  match e.exampleValues with
  | none => return o
  | some p => do
    let values ← (loadMapping t (some p)).mapError .mapping
    return o.addExampleValues values

/-- The document of an export. -/
def document (t : FileTree) (e : Export) : Job CommandError ApiDocument := do
  let s ← (loadSchema t e.schemas).mapError .schemaFiles
  requireSound s
  let o ← readOptions t e
  (transformWith s o (kindsOf e.operations)).mapError .transform

/-- The format of an export. -/
def formatName (e : Export) : String := e.format.getD (OutputFormat.ofPath e.output).name

/-- The files after an export, and what is shown. -/
def run (t : FileTree) (e : Export) : Job CommandError (FileTree × List Shown) := do
  let d ← document t e
  let text ← Job.ofExcept ((serialize d.toValue e.formatName).mapError fun x =>
    .transform (.serialize x))
  let t ← Job.ofExcept ((t.makeDirectories e.output.parent).mapError .file)
  let t ← Job.ofExcept ((t.write e.output (FileTree.bytesOf text)).mapError .file)
  let count := Text.decimal d.operations.length
  return (t,
    [.success s!"Successfully exported OpenAPI document to {e.output.text}",
     .hint (s!"{count} path(s), serve it verbatim at /openapi.json "
       ++ "or load it into Swagger UI")])

end Export

end GraphPaths
