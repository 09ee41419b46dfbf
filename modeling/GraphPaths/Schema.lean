import GraphPaths.Graphql.Document
import GraphPaths.Schema.PartError

/-!
# Schemas

A schema is a list of named types, what a query, a mutation and a subscription start from, and the
directives it defines. Types refer to one another by name, so that they may refer to themselves.
The types that describe the schema itself and the standard scalars in use are among the types.
-/

namespace GraphPaths

open Graphql (TypeExpr OperationType TypeKind Literal)

/-- An argument of a field or directive, or a field of an input object. -/
structure SchemaInput where
  name : String
  type : TypeExpr
  /-- The value that stands in when none is given, as it is written. -/
  default : Option Literal
  isDeprecated : Bool
deriving Repr, BEq, Inhabited

/-- Whether a value must be given: null is excluded and nothing stands in. -/
def SchemaInput.isRequired (a : SchemaInput) : Bool := a.type.isNonNull && a.default.isNone

/-- A field of an object or interface. -/
structure SchemaField where
  name : String
  arguments : List SchemaInput
  type : TypeExpr
  isDeprecated : Bool
deriving Repr, BEq, Inhabited

/-- What a named type consists of. -/
inductive TypeShape where
  | scalar
  | object (interfaces : List String) (fields : List SchemaField)
  | interface (interfaces : List String) (fields : List SchemaField)
  | union (members : List String)
  /-- The values, and what is wrong with one of them, which counts when they are looked at. -/
  | enumeration (values : List String) (error : Option PartError)
  /-- The flag says that exactly one of the fields is to be given. -/
  | inputObject (isOneOf : Bool) (fields : List SchemaInput)
deriving Repr, BEq, Inhabited

/-- The kind of a shape. -/
def TypeShape.kind : TypeShape → TypeKind
  | .scalar => .scalar
  | .object .. => .object
  | .interface .. => .interface
  | .union _ => .union
  | .enumeration .. => .enumeration
  | .inputObject .. => .inputObject

/-- The fields with arguments of a shape. -/
def TypeShape.fields : TypeShape → List SchemaField
  | .object _ fields | .interface _ fields => fields
  | _ => []

/-- The interfaces of a shape. -/
def TypeShape.interfaces : TypeShape → List String
  | .object interfaces _ | .interface interfaces _ => interfaces
  | _ => []

/-- A type with its name. -/
structure NamedType where
  name : String
  shape : TypeShape
deriving Repr, BEq, Inhabited

/-- A directive that a schema defines. -/
structure SchemaDirective where
  name : String
  arguments : List SchemaInput
deriving Repr, BEq, Inhabited

/-- A schema. -/
structure Schema where
  types : List NamedType
  query : Option String
  mutation : Option String
  subscription : Option String
  directives : List SchemaDirective
deriving Repr, BEq, Inhabited

namespace Schema

/-- The shape of the type with a name. -/
def shape? (s : Schema) (name : String) : Option TypeShape :=
  (s.types.find? fun t => t.name == name).map NamedType.shape

/-- The name of the type that an operation starts from. -/
def root? (s : Schema) : OperationType → Option String
  | .query => s.query
  | .mutation => s.mutation
  | .subscription => s.subscription

/-- The kind of a named type. -/
def kind? (s : Schema) (name : String) : Option TypeKind := (s.shape? name).map TypeShape.kind

/-- Whether a type can be given as an argument. -/
def isInput (s : Schema) (t : TypeExpr) : Bool :=
  match s.kind? t.leaf with
  | some .scalar | some .enumeration | some .inputObject => true
  | _ => false

/-- Whether a type can be what a field returns. -/
def isOutput (s : Schema) (t : TypeExpr) : Bool :=
  match s.kind? t.leaf with
  | some .inputObject | none => false
  | _ => true

/-- What is wrong with a value of the first enumeration that has such a value; it comes out when the
whole schema is written. -/
def enumerationError? (s : Schema) : Option PartError :=
  s.types.findSome? fun t => match t.shape with
    | .enumeration _ error => error
    | _ => none

end Schema

end GraphPaths
