import GraphPaths.Schema
import GraphPaths.Value

/-!
# Named types, counted

The types of a schema, without those that describe it: `Schema.ownTypes`. `Schema.counts` sorts them
into objects, standard scalars and others, and leaves out the types named `Query` and `Mutation`.
-/

namespace GraphPaths

/-- Whether a name belongs to a type that describes schemas. -/
def isIntrospectionName (name : String) : Bool := name.startsWith "__"

/-- Whether a name is one that operations start from by default. -/
def isRootName (name : String) : Bool := name == "Query" || name == "Mutation"

/-- Whether a name is that of a standard scalar. -/
def isStandardScalarName (name : String) : Bool :=
  ["ID", "String", "Int", "Float", "Boolean"].contains name

/-- The numbers of types of three sorts. -/
structure TypeCounts where
  object : Nat
  standardScalar : Nat
  other : Nat
deriving Repr, DecidableEq, Inhabited

/-- The counts as data. -/
def TypeCounts.toValue (c : TypeCounts) : Value :=
  .record [("object", .int c.object), ("builtin_scalar", .int c.standardScalar),
    ("other", .int c.other)]

namespace Schema

/-- The types of a schema without those that describe schemas. -/
def ownTypes (s : Schema) : List NamedType :=
  s.types.filter fun t => !isIntrospectionName t.name

/-- The numbers of types of each sort. -/
def counts (s : Schema) : TypeCounts :=
  let counted := s.ownTypes.filter fun t => !isRootName t.name
  let objects := counted.filter fun t => t.shape.kind == .object
  let others := counted.filter fun t => t.shape.kind != .object
  ⟨objects.length, others.countP fun t => isStandardScalarName t.name,
    others.countP fun t => !isStandardScalarName t.name⟩

end Schema

end GraphPaths
