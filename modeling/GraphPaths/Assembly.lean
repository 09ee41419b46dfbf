import GraphPaths.Example
import GraphPaths.Options

/-!
# Documents

An OpenAPI document has one path and one component for each example: the path `/name` takes a
request like the example's and refers to the component `nameResponse`, whose properties have the
types that the schema declares. `assemble` puts a document together and `ApiDocument.toValue` is its
data. There is none if the data of an example cannot be gone through or its request has no text.
-/

namespace GraphPaths

/-! ## Parts -/

/-- The head of a document. -/
structure ApiInfo where
  title : Value
  version : Value
  description : Value
  /-- Only documents of newer versions have a summary. -/
  summary : Option Value
deriving Repr, BEq, Inhabited

/-- The operation of a path. -/
structure ApiOperation where
  /-- The name of the field. -/
  id : String
  summary : String
  /-- The request's text. -/
  query : Value
  /-- The variables, if there are any. -/
  variableValues : Option Value
  operationName : Option Value
  response : Value
  tag : Option String
deriving Repr, BEq, Inhabited

/-- The shape of a response. -/
structure ApiComponent where
  /-- The name of the field. -/
  field : String
  /-- The properties of the data with their types. -/
  properties : List (Value × String)
deriving Repr, BEq, Inhabited

/-- What an example becomes in a document. -/
structure ApiPart where
  component : ApiComponent
  operation : ApiOperation
deriving Repr, BEq, Inhabited

/-- A document. -/
structure ApiDocument where
  openapi : String
  info : ApiInfo
  serverUrl : Value
  operations : List ApiOperation
  components : List ApiComponent
  tags : List RouteTag
deriving Repr, BEq, Inhabited

/-! ## Data -/

/-- The name of the component of a field. -/
def componentName (field : String) : String := field ++ "Response"

/-- The reference to the component of a field. -/
def componentRef (field : String) : String := "#/components/schemas/" ++ componentName field

/-- The data of the head. -/
def ApiInfo.toValue (i : ApiInfo) : Value :=
  .record ([("title", i.title), ("version", i.version), ("description", i.description)]
    ++ (i.summary.map ("summary", ·)).toList)

/-- The data of an option of content in JSON. -/
def jsonContent (fields : List (String × Value)) : Value :=
  .record [("application/json", .record fields)]

/-- The schema of a request: its text, and what else the example has. -/
def ApiOperation.requestSchema (o : ApiOperation) : Value :=
  let query := .record [("type", .text "string"),
    ("description", .text "GraphQL Query or Mutation"), ("example", o.query)]
  let values := o.variableValues.map fun v => ("variables", .record [("type", .text "object"),
    ("additionalProperties", .bool true),
    ("description", .text "Variables for the query or mutation"), ("example", v)])
  let name := o.operationName.map fun v =>
    ("operationName", .record [("type", .text "string"), ("example", v)])
  .record [("type", .text "object"),
    ("properties", .record (("query", query) :: (values.toList ++ name.toList))),
    ("required", .list [.text "query"])]

/-- The data of an operation. -/
def ApiOperation.toValue (o : ApiOperation) : Value :=
  .record ([("summary", .text o.summary), ("description", .text ("Example for " ++ o.id)),
    ("operationId", .text o.id),
    ("requestBody", .record [("required", .bool true),
      ("content", jsonContent [("schema", o.requestSchema)])]),
    ("responses", .record [("200", .record
      [("description", .text "Successful GraphQL response"),
       ("content", jsonContent
        [("schema", .record [("$ref", .text (componentRef o.id))]), ("example", o.response)])])])]
    ++ (o.tag.map fun t => ("tags", Value.list [.text t])).toList)

/-- The data of a component. -/
def ApiComponent.toValue (c : ApiComponent) : Value :=
  let properties := c.properties.map fun (k, type) => (k, Value.record [("type", .text type)])
  .record [("type", .text "object"),
    ("properties", .record [("data", .record [("type", .text "object"),
      ("properties", .map properties)])])]

/-- The data of a tag; an empty description is left out. -/
def RouteTag.toValue (t : RouteTag) : Value :=
  .record (("name", .text t.name)
    :: ((t.description.filter fun d => !d.isEmpty).map fun d => ("description", Value.text d)).toList)

/-- The data of a document. -/
def ApiDocument.toValue (d : ApiDocument) : Value :=
  .record ([("openapi", .text d.openapi), ("info", d.info.toValue),
    ("servers", .list [.record [("url", d.serverUrl)]]),
    ("paths", .record (d.operations.map fun o => ("/" ++ o.id, .record [("post", o.toValue)]))),
    ("components", .record [("schemas",
      .record (d.components.map fun c => (componentName c.field, c.toValue)))])]
    ++ if d.tags.isEmpty then [] else [("tags", .list (d.tags.map RouteTag.toValue))])

/-! ## From examples to parts -/

/-- Why a document cannot be put together. -/
inductive AssembleError where
  /-- An example's response, of this type, is no mapping. -/
  | noResponse (typeName : String)
  /-- An example's data, of this type, cannot be gone through. -/
  | notIterable (typeName : String)
  /-- A member of an example's data, of this type, cannot be a key. -/
  | badKey (typeName : String)
  /-- An example's request, of this type, is no mapping. -/
  | noRequest (typeName : String)
  /-- An example's request has no text. -/
  | noQuery
deriving Repr, DecidableEq

/-- The message of an error. -/
def AssembleError.message : AssembleError → String
  | .noResponse typeName => s!"'{typeName}' object has no attribute 'get'"
  | .notIterable typeName => s!"'{typeName}' object is not iterable"
  | .badKey typeName => s!"unhashable type: '{typeName}'"
  | .noRequest "list" => "list indices must be integers or slices, not str"
  | .noRequest "str" => "string indices must be integers, not 'str'"
  | .noRequest "bytes" => "byte indices must be integers or slices, not str"
  | .noRequest typeName => s!"'{typeName}' object is not subscriptable"
  | .noQuery => "'query'"

/-- The tag of a field. -/
def Options.tag? (o : Options) (field : String) : Option RouteTag :=
  (o.routeMap.lookup field).bind RouteConfig.tag

/-- The head of a document. -/
def Options.info (o : Options) : ApiInfo :=
  ⟨o.title, o.version, o.description, if o.supportsInfoSummary then some o.summary else none⟩

/-- The JSON type of a key of an example's data: that of the field of an object, or of the example's
own field. -/
def Example.declaredType (e : Example) (field : String) (key : Value) : String :=
  match e.returnType with
  | none => TypeRef.unknownType
  | some type =>
    match key.text?.bind type.fieldType? with
    | some t => t.classify
    | none => if key.text? == some field then type.classify else TypeRef.unknownType

/-- The members of a value that is gone through, each once. -/
def Value.keysOf (v : Value) : Except AssembleError (List Value) :=
  match v.bare with
  | .map es => .ok (es.map Prod.fst)
  | _ =>
    match v.members? with
    | none => .error (.notIterable v.typeName)
    | some xs =>
      match xs.find? fun x => !canBeKey x with
      | some x => .error (.badKey x.typeName)
      | none => .ok (firsts xs)

/-- The data of an example's response, unless they count as absent; a response can be its own data.
-/
def Example.data? (e : Example) : Option Value :=
  match (e.response.get? "data").filter fun v => !v.isEmpty with
  | some (.again _) => some e.response
  | data => data

/-- The keys of an example's data, for each of which there is a property. -/
def Example.dataKeys (e : Example) : Except AssembleError (List Value) :=
  if e.response.entries?.isNone then .error (.noResponse e.response.typeName)
  else match e.data? with
    | none => .ok []
    | some data => data.keysOf

/-- The component of an example. -/
def Example.component (e : Example) (field : String) : Except AssembleError ApiComponent := do
  let keys ← e.dataKeys
  return ⟨field, keys.map fun k => (k, e.declaredType field k)⟩

/-- What a request holds under a key, unless it counts as absent. -/
def Example.part? (e : Example) (key : String) : Option Value :=
  (e.request.get? key).filter fun v => !v.isEmpty

/-- The operation of an example. -/
def Example.apiOperation (e : Example) (field : String) (tag : Option RouteTag) :
    Except AssembleError ApiOperation :=
  match e.request.get? "query" with
  | none =>
    .error (if e.request.entries?.isSome then .noQuery else .noRequest e.request.typeName)
  | some query => .ok
    { id := field
      summary := e.summary
      query := query
      variableValues := e.part? "variables"
      operationName := e.part? "operationName"
      response := e.response
      tag := tag.map RouteTag.name }

/-- What an example becomes: first its component, then its operation. -/
def Example.apiPart (e : Example) (field : String) (tag : Option RouteTag) :
    Except AssembleError ApiPart := do
  let component ← e.component field
  let operation ← e.apiOperation field tag
  return ⟨component, operation⟩

/-- Tags with one more, unless its name is there. -/
def addTag (tags : List RouteTag) (tag : Option RouteTag) : List RouteTag :=
  match tag with
  | none => tags
  | some t => if tags.any fun x => x.name == t.name then tags else tags ++ [t]

/-! ## Assembling -/

/-- What examples become, each path noted. -/
def partsOf (o : Options) : Examples → Job AssembleError (List ApiPart)
  | [] => pure []
  | (field, e) :: rest => do
    let part ← Job.ofExcept (e.apiPart field (o.tag? field))
    Job.log .debug s!"Registered path /{field}"
    let parts ← partsOf o rest
    return part :: parts

/-- The document of some examples. -/
def assemble (o : Options) (examples : Examples) : Job AssembleError ApiDocument := do
  let count := Text.decimal examples.length
  Job.log .info s!"Assembling OpenAPI {o.openapi} document with {count} path(s)"
  let parts ← partsOf o examples
  return {
    openapi := o.openapi
    info := o.info
    serverUrl := o.serverUrl
    operations := parts.map ApiPart.operation
    components := parts.map ApiPart.component
    tags := examples.foldl (fun tags (field, _) => addTag tags (o.tag? field)) [] }

end GraphPaths
