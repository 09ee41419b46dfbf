import GraphPaths.Log
import GraphPaths.Mock
import GraphPaths.Operation
import GraphPaths.Text.Digit
import GraphPaths.Text.Quoted
import GraphPaths.Value.Text

/-!
# Examples

For every field of the query and the mutation root there is an example: a request that asks for the
field and a mock response. Kinds of operations are asked for one by one, by themselves or by a text
that names them. `buildExamples` goes through the fields of the query root, then through those of
the mutation root; where both have a field of one name the mutation's example takes the place of the
query's. A root whose fields cannot be had is an error.
-/

namespace GraphPaths

/-! ## Roots -/

/-- What comes of asking a root for its fields. -/
inductive RootFields where
  /-- The fields. -/
  | fields (fields : List SchemaField)
  /-- Fields of which only the names are known. -/
  | names (names : List String)
  /-- The fields cannot be resolved. -/
  | unresolvable (reason : String)
  /-- What is there is no collection of fields. -/
  | noMapping
  /-- Some other failure, of a kind of its own. -/
  | failure (kind message : String)
  /-- A type that has no fields at all. -/
  | absent
deriving Repr, BEq, Inhabited

/-- A root. -/
structure Root where
  name : String
  fields : RootFields
deriving Repr, BEq, Inhabited

/-- The roots that examples are built from, and how the types of their fields look. -/
structure Roots where
  query : Option Root
  mutation : Option Root
  refOf : Graphql.TypeExpr → TypeRef

/-- The root of a kind of operation. -/
def Roots.root? (r : Roots) : OperationKind → Option Root
  | .query => r.query
  | .mutation => r.mutation

/-- The root with the name of a type. -/
def Schema.rootOf (s : Schema) (name : String) : Root :=
  ⟨name, match s.shape? name with
    | some (.object _ fields) | some (.interface _ fields) => .fields fields
    | some (.inputObject _ fields) => .names (fields.map SchemaInput.name)
    | _ => .absent⟩

/-- The roots of a schema. -/
def Schema.roots (s : Schema) : Roots :=
  ⟨s.query.map s.rootOf, s.mutation.map s.rootOf, s.typeRef true⟩

/-! ## Errors -/

/-- Why there are no examples. -/
inductive ExampleError where
  /-- No kind of operation has this name. -/
  | unknownKind (text : String)
  /-- A value of this type holds no kinds of operations. -/
  | notKinds (typeName : String)
  /-- The fields of a root cannot be resolved. -/
  | unresolvable (type reason : String)
  /-- A root has no collection of fields. -/
  | noMapping (type : String)
  /-- Asking a root for its fields failed in some other way. -/
  | failure (kind message : String)
  /-- A type has no fields, or its fields have no arguments. -/
  | noFields
  /-- An example value cannot be had. -/
  | values (error : LookupError)
deriving Repr, DecidableEq

/-- The message of an error. -/
def ExampleError.message : ExampleError → String
  | .unknownKind text =>
    s!"Unknown operation kind '{text}', expected one of: query, mutation"
  | .notKinds typeName => s!"'{typeName}' object is not iterable"
  | .unresolvable type reason => s!"Root type '{type}' fields cannot be resolved: {reason}"
  | .noMapping type => s!"Root type '{type}' does not expose a field map"
  | .failure _ message => message
  | .noFields => ""
  | .values e => e.message

/-! ## Kinds -/

/-- A kind as it is asked for: itself, or by a value whose text names it. -/
inductive KindChoice where
  | kind (kind : OperationKind)
  | named (v : Value)
deriving Repr, Inhabited

/-- The kinds that are asked for. -/
inductive Kinds where
  /-- A collection of choices, which counts as absent if it is empty. -/
  | list (choices : List KindChoice)
  /-- Choices that come one after the other; these never count as absent. -/
  | iterator (choices : List KindChoice)
  /-- Data, whose members are the choices. -/
  | data (v : Value)
deriving Repr, Inhabited

/-- Nothing in particular. -/
def Kinds.absent : Kinds := .data .null

/-- Whether nothing in particular is asked for. -/
def Kinds.isEmpty : Kinds → Bool
  | .list choices => choices.isEmpty
  | .iterator _ => false
  | .data v => v.isEmpty

/-- The choices, unless they are data without members. -/
def Kinds.choices? : Kinds → Option (List KindChoice)
  | .list choices | .iterator choices => some choices
  | .data v => v.members?.map (List.map .named)

/-- The name of the type of what asks for kinds. -/
def Kinds.typeName : Kinds → String
  | .list _ => "list"
  | .iterator _ => "iterator"
  | .data v => v.typeName

/-- The kind that a value names. -/
def OperationKind.ofValue (v : Value) : Except ExampleError OperationKind :=
  match OperationKind.ofText? v.shown with
  | some k => .ok k
  | none => .error (.unknownKind v.shown)

/-- The kind that is chosen. -/
def KindChoice.read : KindChoice → Except ExampleError OperationKind
  | .kind k => .ok k
  | .named v => OperationKind.ofValue v

/-- The kinds that are asked for; both if that is nothing in particular. -/
def requestedKinds (kinds : Kinds) : Except ExampleError (List OperationKind) :=
  if kinds.isEmpty then .ok OperationKind.all
  else match kinds.choices? with
    | some choices => choices.mapM KindChoice.read
    | none => .error (.notKinds kinds.typeName)

/-! ## Examples -/

/-- The example for a field. -/
structure Example where
  summary : String
  /-- The request: the text under `query`, the variables, perhaps the operation's name. -/
  request : Value
  response : Value
  fieldName : String
  kind : OperationKind
  returnType : Option TypeRef
deriving Repr, BEq, Inhabited

/-- Examples with their keys, in order; keys are distinct. -/
abbrev Examples := List (String × Example)

/-- Examples with one put under a key: in the place of that key, or at the end. -/
def Examples.put (key : String) (e : Example) : Examples → Examples
  | [] => [(key, e)]
  | (k, x) :: rest => if k == key then (k, e) :: rest else (k, x) :: Examples.put key e rest

/-- Examples in which others take the place of those with their keys, or follow. -/
def Examples.merge (old new : Examples) : Examples := new.foldl (fun acc (k, e) => acc.put k e) old

/-- Whether two examples are equal; the type is not looked at. -/
def Example.same (a b : Example) : Bool :=
  a.summary == b.summary && a.request.same b.request && a.response.same b.response
    && a.fieldName == b.fieldName && a.kind == b.kind

/-- The request for a field. -/
def requestFor (kind : OperationKind) (f : SchemaField) (values : ExampleValues)
    (withName : Bool) : Except LookupError Value := do
  let given ← variableValues f.arguments values
  return .record ([("query", .text (operationText kind f.name f.arguments)),
    ("variables", .record given)] ++ if withName then [("operationName", .text f.name)] else [])

/-- The example for a field of a root. -/
def exampleFor (refOf : Graphql.TypeExpr → TypeRef) (kind : OperationKind) (rootName : String)
    (values : ExampleValues) (withName : Bool) (f : SchemaField) : Except LookupError Example := do
  let type := refOf f.type
  return {
    summary := "Example " ++ rootName
    request := ← requestFor kind f values withName
    response := mockResponse type f.name
    fieldName := f.name
    kind := kind
    returnType := some type }

/-- Notes that an example takes the place of another. -/
def noteReplaced (rootName key : String) (examples : Examples) : Job ExampleError Unit :=
  if (examples.lookup key).isSome then
    Job.log .debug s!"{rootName}.{key} replaces the example of the same name"
  else pure ()

/-- The examples with those for some fields of a root. -/
def addFields (refOf : Graphql.TypeExpr → TypeRef) (kind : OperationKind) (rootName : String)
    (values : ExampleValues) (withName : Bool) :
    List SchemaField → Examples → Job ExampleError Examples
  | [], examples => pure examples
  | f :: fs, examples => do
    noteReplaced rootName f.name examples
    let e ← Job.ofExcept ((exampleFor refOf kind rootName values withName f).mapError .values)
    Job.log .debug s!"Example for {f.name}: {operationText kind f.name f.arguments}"
    addFields refOf kind rootName values withName fs (examples.put f.name e)

/-- Notes the number of fields that examples are built for. -/
def noteFields (count : Nat) (rootName : String) : Job ExampleError Unit :=
  Job.log .info s!"Building examples for {Text.decimal count} {rootName} field(s)"

/-- The examples with those for the fields of a root. -/
def addRoot (refOf : Graphql.TypeExpr → TypeRef) (kind : OperationKind)
    (values : ExampleValues) (withName : Bool) (root : Root) (examples : Examples) :
    Job ExampleError Examples :=
  match root.fields with
  | .fields fields => do
    noteFields fields.length root.name
    addFields refOf kind root.name values withName fields examples
  | .names [] => do
    noteFields 0 root.name
    return examples
  | .names (name :: names) => do
    noteFields (names.length + 1) root.name
    noteReplaced root.name name examples
    throw .noFields
  | .unresolvable reason => throw (.unresolvable root.name reason)
  | .noMapping => throw (.noMapping root.name)
  | .failure kind message => throw (.failure kind message)
  | .absent => throw .noFields

/-- The examples with those for the root of a kind, if it is asked for. -/
def addKind (roots : Roots) (values : ExampleValues) (withName : Bool)
    (requested : List OperationKind) (examples : Examples) (kind : OperationKind) :
    Job ExampleError Examples :=
  if requested.contains kind then
    match roots.root? kind with
    | none => do
      Job.log .debug s!"Schema has no {kind.keyword} root type"
      return examples
    | some root => addRoot roots.refOf kind values withName root examples
  else pure examples

/-- The examples for the fields of the roots that are asked for. -/
def buildExamples (roots : Roots) (values : ExampleValues) (kinds : Kinds)
    (withName : Bool) : Job ExampleError Examples := do
  let requested ← Job.ofExcept (requestedKinds kinds)
  OperationKind.all.foldlM (addKind roots values withName requested) []

end GraphPaths
