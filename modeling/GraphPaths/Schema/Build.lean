import GraphPaths.Graphql.Excerpt
import GraphPaths.Graphql.Notation
import GraphPaths.Graphql.Parser
import GraphPaths.Graphql.Rules
import GraphPaths.Schema
import GraphPaths.Schema.Introspection

/-!
# Building schemas

`Schema.build` makes a schema of a text: the text is read, the rules for schema documents are
applied, and extensions are joined to what they extend. Without a definition of the schema,
operations start from the types that are named after them. A standard type keeps its meaning
whatever the text defines under its name.
-/

namespace GraphPaths

open Graphql

/-! ## Errors -/

/-- Why a text gives no schema. -/
inductive SchemaError where
  /-- The text is no document. -/
  | syntaxFault (error : SyntaxError)
  /-- The document breaks rules. -/
  | rules (violations : List Violation)
  /-- A part of a type or directive is wrong. -/
  | part (error : PartError)
deriving Repr, DecidableEq

/-- The message of an error. -/
def SchemaError.message : SchemaError → String
  | .syntaxFault e => e.message
  | .rules vs => "\n\n".intercalate (vs.map Violation.message)
  | .part e => e.message

/-! ## Joined definitions -/

namespace Graphql

/-- What a body and further bodies of the same kind hold together. -/
def TypeBody.join (body : TypeBody) (bodies : List TypeBody) : TypeBody :=
  match body with
  | .scalar => .scalar
  | .object interfaces fields =>
    .object (interfaces ++ bodies.flatMap fun | .object i _ => i | _ => [])
      (fields ++ bodies.flatMap fun | .object _ f => f | _ => [])
  | .interface interfaces fields =>
    .interface (interfaces ++ bodies.flatMap fun | .interface i _ => i | _ => [])
      (fields ++ bodies.flatMap fun | .interface _ f => f | _ => [])
  | .union members => .union (members ++ bodies.flatMap fun | .union m => m | _ => [])
  | .enumeration values =>
    .enumeration (values ++ bodies.flatMap fun | .enumeration v => v | _ => [])
  | .inputObject fields =>
    .inputObject (fields ++ bodies.flatMap fun | .inputObject f => f | _ => [])

/-- The types of a document with their extensions, those with standard names left out. -/
def Document.ownTypes (d : Document) : List TypeDefinition :=
  d.types.filterMap fun t =>
    if standardTypes.contains t.name then none
    else some { t with
      body := t.body.join ((d.extensions t.name).map TypeDefinition.body) }

/-- The name of the type that stands for an operation when nothing else is said. -/
def OperationType.defaultName : OperationType → String
  | .query => "Query"
  | .mutation => "Mutation"
  | .subscription => "Subscription"

/-- The types that definitions of the schema name for an operation, the last first. -/
def Document.namedRoots (d : Document) (o : OperationType) : List String :=
  let roots := fun (wanted : Bool) => d.flatMap fun
    | .schema isExtension _ rs => if isExtension == wanted then rs else []
    | _ => []
  (((roots false ++ roots true).filter fun (x, _) => x == o).map Prod.snd).reverse

/-- Whether a document defines the schema. -/
def Document.definesSchema (d : Document) : Bool :=
  d.any fun
    | .schema false .. => true
    | _ => false

/-- The type that an operation starts from. -/
def Document.root? (d : Document) (o : OperationType) : Option String :=
  if !d.definesSchema && d.types.any fun t => t.name == o.defaultName then some o.defaultName
  else (d.namedRoots o).head?

end Graphql

/-! ## Parts of types -/

/-- The first directive of a name. -/
def useOf (name : String) (ds : List Directive) : Option Directive :=
  ds.find? fun d => d.name == name

/-- Whether a value was put together from others; such a value has lost its place. -/
def isComposite : Literal → Bool
  | .list _ | .object _ => true
  | _ => false

/-- Checks an argument of a directive that must be a text. -/
def checkTextArgument (text : List Char) (argument : String) (a : Argument) : Except PartError Unit :=
  let place := if isComposite a.value then "" else excerpt text a.left
  match a.value with
  | .string _ | .blockString _ => .ok ()
  | .null => .error ⟨.nullArgument argument (.nonNull (.named "String")), none, place⟩
  | v => .error ⟨.noText argument v.text, none, place⟩

/-- Whether directives mark something as deprecated. -/
def deprecated (text : List Char) (ds : List Directive) : Except PartError Bool :=
  match useOf "deprecated" ds with
  | none => .ok false
  | some d =>
    match d.arguments.find? fun a => a.name == "reason" with
    | none => .ok true
    | some a => do
      checkTextArgument text "reason" a
      return true

/-- Checks the address that specifies a scalar. -/
def checkSpecified (text : List Char) (ds : List Directive) : Except PartError Unit :=
  match useOf "specifiedBy" ds with
  | none => .ok ()
  | some d =>
    match d.arguments.find? fun a => a.name == "url" with
    | none => .error ⟨.missingArgument "url" (.nonNull (.named "String")), none, excerpt text d.left⟩
    | some a => checkTextArgument text "url" a

/-- Whether exactly one field of an input object is to be given. -/
def isOneOf (t : TypeDefinition) : Bool := (useOf "oneOf" t.directives).isSome

/-- The inputs of some definitions. -/
def inputsOf (text : List Char) (vs : List InputValue) : Except PartError (List SchemaInput) :=
  vs.mapM fun v => do return ⟨v.name, v.type, v.default, ← deprecated text v.directives⟩

/-- A field with its arguments. -/
def fieldOf (text : List Char) (f : FieldDefinition) : Except PartError SchemaField := do
  let args ← inputsOf text f.arguments
  return ⟨f.name, args, f.type, ← deprecated text f.directives⟩

/-- The first error of some work done for each member. -/
def firstError {ε α β : Type} (f : α → Except ε β) (xs : List α) : Option ε :=
  xs.findSome? fun x => match f x with
    | .ok _ => none
    | .error e => some e

/-- The shape of a type. -/
def shapeOf (text : List Char) (t : TypeDefinition) : Except PartError TypeShape :=
  match t.body with
  | .scalar => .ok .scalar
  | .object interfaces fields => (fields.mapM (fieldOf text)).map (.object interfaces)
  | .interface interfaces fields => (fields.mapM (fieldOf text)).map (.interface interfaces)
  | .union members => .ok (.union members)
  | .enumeration values => .ok (.enumeration (values.map EnumValue.name)
      (firstError (fun v => deprecated text v.directives) values))
  | .inputObject fields => (inputsOf text fields).map (.inputObject (isOneOf t))

/-- A named type. -/
def namedType (text : List Char) (t : TypeDefinition) : Except PartError NamedType := do
  let shape ← (shapeOf text t).mapError fun e => { e with owner := some t.name }
  return ⟨t.name, shape⟩

/-- Checks the addresses of the scalars of a document, which are looked at before any fields. -/
def checkScalars (text : List Char) (d : Document) (own : List TypeDefinition) :
    Except PartError Unit :=
  own.forM fun t =>
    if t.body.kind == .scalar then
      (t :: d.extensions t.name).forM fun x => checkSpecified text x.directives
    else .ok ()

/-- A directive with its arguments; it and its extensions may be marked as deprecated. -/
def directiveOf (text : List Char) (d : Document) (x : DirectiveDefinition) :
    Except PartError SchemaDirective := do
  let args ← inputsOf text x.arguments
  (x.directives :: d.directiveExtensions x.name).forM fun ds => do
    let _ ← deprecated text ds
  return ⟨x.name, args⟩

/-! ## Standard types -/

/-- The named types that a shape refers to. -/
def TypeShape.references (s : TypeShape) : List String :=
  match s with
  | .inputObject _ fields => fields.map (·.type.leaf)
  | s => s.fields.flatMap fun f => f.type.leaf :: f.arguments.map (·.type.leaf)

/-- The standard scalars in use: those of the introspection, those that types, directives and roots
refer to, and those defined once more. -/
def usedScalars (d : Document) (types : List NamedType) (directives : List SchemaDirective) :
    List String :=
  let used := types.flatMap (fun t => t.shape.references)
    ++ directives.flatMap (fun x => x.arguments.map (·.type.leaf))
    ++ [OperationType.query, .mutation, .subscription].filterMap d.root?
    ++ d.types.map TypeDefinition.name
  standardScalars.filter fun n => n == "String" || n == "Boolean" || used.contains n

/-! ## The schema of a text -/

/-- The schema of a document that keeps the rules. -/
def schemaOf (text : List Char) (d : Document) : Except PartError Schema := do
  let own := d.ownTypes
  checkScalars text d own
  let directives ← d.directives.mapM (directiveOf text d)
  let types ← own.mapM (namedType text)
  let described ← Introspection.types.mapM (namedType text)
  let scalars := (usedScalars d types directives).map fun n => NamedType.mk n .scalar
  return ⟨types ++ scalars ++ described, d.root? .query, d.root? .mutation,
    d.root? .subscription, directives⟩

/-- The schema of a text. -/
def Schema.build (text : String) : Except SchemaError Schema :=
  match parse text with
  | .error e => .error (.syntaxFault e)
  | .ok d =>
    match d.violations with
    | [] => (schemaOf text.toList d).mapError .part
    | vs => .error (.rules vs)

end GraphPaths
