import GraphPaths.FileTree
import GraphPaths.Log
import GraphPaths.Schema.Build

/-!
# Schema files

The schema of a program is spread over files. `resolveSchemaFiles` finds them: a file is taken
whatever its name, a directory stands for everything in it whose name ends in `.graphql`, which is
not looked for behind links, and the result is sorted and without duplicates. `joinSchemaFiles`
gives their texts, each of which has to be a document of its own, and `loadSchema` builds the
schema.
-/

namespace GraphPaths

/-! ## Finding files -/

/-- Whether the last name of a path marks a schema file. -/
def isSchemaName (p : FilePath) : Bool := p.name.endsWith ".graphql"

/-- What a path stands for. -/
def schemaFilesOf (t : FileTree) (p : FilePath) : List FilePath :=
  if t.isFile p then [p]
  else if t.isDirectory p then
    (t.filesUnder p ++ t.directoriesUnder p ++ t.linksUnder p).filter isSchemaName
  else []

/-- Sorted paths without those that stand right after their equal. -/
def dropRepeated : List FilePath → List FilePath
  | p :: q :: rest => if p == q then dropRepeated (q :: rest) else p :: dropRepeated (q :: rest)
  | ps => ps

/-- The schema files that paths stand for, in order. -/
def resolveSchemaFiles (t : FileTree) (paths : List FilePath) : List FilePath :=
  dropRepeated ((paths.flatMap (schemaFilesOf t)).mergeSort FilePath.le)

/-! ## Reading files -/

/-- Why schema files give no schema. -/
inductive SchemaFileError where
  | text (error : TextError)
  /-- A file is no document of its own. -/
  | syntaxFault (path : FilePath) (error : Graphql.SyntaxError)
  | schema (error : SchemaError)
deriving Repr, DecidableEq

/-- The text of a file that is a document of its own; in an error it goes by the path `shown`. -/
def readSchemaFile (t : FileTree) (p shown : FilePath) : Except SchemaFileError String := do
  let text ← (t.readText p).mapError .text
  let _ ← (Graphql.parse text).mapError (.syntaxFault shown)
  return text

/-- Whether the last name of a path marks a schema file inside a directory that is read as one. -/
def isDocumentName (p : FilePath) : Bool :=
  let name := Text.lower p.name
  [".graphql", ".graphqls", ".gql"].any fun ending => name.endsWith ending

/-- The documents at any depth in a directory: files, and links that lead to no directory. -/
def documentsUnder (t : FileTree) (p : FilePath) : List FilePath :=
  (t.filesUnder p ++ (t.linksUnder p).filter fun q => !t.isDirectory q).filter isDocumentName

/-- The text at a path: that of a file, or those of all documents in a directory, by the order of the
texts of their paths. -/
def readSchemaText (t : FileTree) (p : FilePath) : Except SchemaFileError String :=
  if t.isDirectory p then do
    let files := (documentsUnder t p).mergeSort fun a b => decide (a.text ≤ b.text)
    let texts ← files.mapM fun f => readSchemaFile t f f
    return "\n".intercalate texts
  else readSchemaFile t (t.absolute p) p.collapse

/-- The texts of schema files, each followed by a line feed. -/
def joinSchemaFiles (t : FileTree) (paths : List FilePath) : Except SchemaFileError String := do
  let texts ← paths.mapM (readSchemaText t)
  return String.join (texts.map (· ++ "\n"))

/-- The schema that the files of some paths define. It is written to the log, which looks at every
value of an enumeration. -/
def loadSchema (t : FileTree) (paths : List FilePath) : Job SchemaFileError Schema := do
  let text ← Job.ofExcept (joinSchemaFiles t (resolveSchemaFiles t paths))
  let s ← Job.ofExcept ((Schema.build text).mapError .schema)
  Job.log .info "Successfully built the given GraphQL schema string."
  match s.enumerationError? with
  | some e => throw (.schema (.part e))
  | none =>
    Job.log .debug "Read schema: \n"
    return s

end GraphPaths
