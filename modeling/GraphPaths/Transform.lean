import GraphPaths.Assembly
import GraphPaths.Schema.Count
import GraphPaths.Serialize

/-!
# From schemas to documents

`transform` builds the examples of a schema and puts the document together; `transformText` also
writes it. A format is checked before anything else. `generate` takes the options as keywords beside
the schema, which is itself given to a parameter with a name.
-/

namespace GraphPaths

/-- Why a schema gives no document. -/
inductive TransformError where
  | options (error : OptionsError)
  | examples (error : ExampleError)
  | assembly (error : AssembleError)
  | serialize (error : SerializeError)
deriving Repr, DecidableEq

/-- The first line of the message of an error. -/
def TransformError.message : TransformError → String
  | .options e => e.message
  | .examples e => e.message
  | .assembly e => e.message
  | .serialize e => e.message

/-- The document of a schema with checked options. -/
def transformWith (s : Schema) (o : Options) (kinds : Kinds) : Job TransformError ApiDocument := do
  let types := Text.decimal s.ownTypes.length
  Job.log .info s!"Transforming GraphQL schema to OpenAPI with {types} types"
  let examples ← (buildExamples s.roots o.exampleValues kinds o.namesOperation).mapError .examples
  let document ← (assemble o examples).mapError .assembly
  let paths := Text.decimal document.operations.length
  Job.log .info s!"Successfully converted GraphQL schema to OpenAPI with {paths} path(s)"
  return document

/-- The document of a schema with options given as data. -/
def transform (s : Schema) (options : Value) (kinds : Kinds) : Job TransformError ApiDocument := do
  let o ← (Job.ofExcept (Options.ofValue options)).mapError .options
  transformWith s o kinds

/-- The document of some examples with options given as data. -/
def assembleFrom (options : Value) (examples : Examples) : Job TransformError ApiDocument := do
  let o ← (Job.ofExcept (Options.ofValue options)).mapError .options
  (assemble o examples).mapError .assembly

/-! ## Keywords -/

/-- Why options given as keywords give no document. -/
inductive GenerateError where
  /-- A keyword is no text. -/
  | noText
  /-- A keyword is the name of a parameter that has its argument. -/
  | repeated (parameter : String)
  | transform (error : TransformError)
deriving Repr, DecidableEq

/-- The message of an error. -/
def GenerateError.message : GenerateError → String
  | .noText => "keywords must be strings"
  | .repeated parameter =>
    s!"generate_openapi_schema() got multiple values for argument '{parameter}'"
  | .transform e => e.message

/-- The name of the parameter for the schema. -/
def schemaParameter : String := "graphql_schema"

/-- Checks that a keyword can be given beside the schema. -/
def checkKeyword (keyword : Value) : Except GenerateError Unit :=
  match keyword.text? with
  | none => .error .noText
  | some name => if name == schemaParameter then .error (.repeated name) else .ok ()

/-- The document of a schema with options given as keywords. -/
def generate (s : Schema) (options : List (Value × Value)) : Job GenerateError ApiDocument := do
  let _ ← Job.ofExcept (options.mapM fun (keyword, _) => checkKeyword keyword)
  (transform s (.map options) .absent).mapError .transform

/-! ## Texts -/

/-- The text of the document of a schema. -/
def transformText (s : Schema) (options : Value) (format : String) (kinds : Kinds) :
    Job TransformError String := do
  let f ← (Job.ofExcept (OutputFormat.ofName format)).mapError .serialize
  let document ← transform s options kinds
  (Job.ofExcept (f.write document.toValue)).mapError .serialize

end GraphPaths
