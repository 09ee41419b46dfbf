import GraphPaths.Schema

/-!
# Types as examples see them

For an example only five shapes of type matter: scalars, objects with their fields, all other named
types, and the two wrappers. `Schema.typeRef` gives the shape of a type, an object's fields listed one
level deep; `classify` names its JSON type and `TypeRef.text` writes it as the type was written.
-/

namespace GraphPaths

open Graphql (TypeExpr)

/-- The shape of a type. -/
inductive TypeRef where
  | scalar (name : String)
  | nonNull (inner : TypeRef)
  | list (item : TypeRef)
  /-- An object; the fields are those of the type, or none if it stands inside another object. -/
  | object (name : String) (fields : List (String × TypeRef))
  /-- Any other named type. -/
  | other (name : String)
deriving Repr, BEq, Inhabited

namespace TypeRef

/-- A type in the notation of GraphQL. -/
def text : TypeRef → String
  | .scalar name | .object name _ | .other name => name
  | .nonNull inner => inner.text ++ "!"
  | .list item => "[" ++ item.text ++ "]"

/-- Whether the type inside all wrappers is a scalar. -/
def isScalarLike : TypeRef → Bool
  | .scalar _ => true
  | .nonNull inner => inner.isScalarLike
  | .list item => item.isScalarLike
  | _ => false

/-- The JSON types of the standard scalars. -/
def scalarTypes : List (String × String) :=
  [("String", "string"), ("Int", "integer"), ("Float", "number"), ("Boolean", "boolean"),
   ("ID", "string")]

/-- The name for types that are not resolved. -/
def unknownType : String := "unknown"

/-- The JSON type of a type: that of a standard scalar, `array` for a list, else `unknown`. -/
def classify : TypeRef → String
  | .scalar name => (scalarTypes.lookup name).getD unknownType
  | .nonNull inner => inner.classify
  | .list _ => "array"
  | _ => unknownType

/-- The type of a field of an object. -/
def fieldType? (t : TypeRef) (field : String) : Option TypeRef :=
  match t with
  | .object _ fields => fields.lookup field
  | _ => none

end TypeRef

namespace Schema

/-- The shape of a named type, fields left out. -/
def leafRef (s : Schema) (name : String) : TypeRef :=
  match s.shape? name with
  | some .scalar => .scalar name
  | some (.object ..) => .object name []
  | _ => .other name

/-- The shape of a type, around what stands for its named type. -/
def wrapRef (leaf : String → TypeRef) : TypeExpr → TypeRef
  | .named name => leaf name
  | .list item => .list (wrapRef leaf item)
  | .nonNull inner => .nonNull (wrapRef leaf inner)

/-- The shape of a named type, an object with its fields. -/
def expandedRef (s : Schema) (name : String) : TypeRef :=
  match s.shape? name with
  | some (.object _ fields) =>
    .object name (fields.map fun f => (f.name, wrapRef s.leafRef f.type))
  | _ => s.leafRef name

/-- The shape of a type of the schema. A type that the schema does not have is `None`. -/
def typeRef (s : Schema) (expand : Bool) (t : TypeExpr) : TypeRef :=
  if (s.shape? t.leaf).isNone then .other "None"
  else wrapRef (if expand then s.expandedRef else s.leafRef) t

end Schema

/-- A type, or the shape of one. -/
inductive TypeOrRef where
  | type (t : TypeExpr)
  | ref (t : TypeRef)
deriving Repr, BEq, Inhabited

/-- The shape of a type, objects with their fields; a shape is its own. -/
def Schema.ensureRef (s : Schema) : TypeOrRef → TypeRef
  | .type t => s.typeRef true t
  | .ref t => t

end GraphPaths
