import GraphPaths.Graphql.Document

/-!
# The types that describe schemas

Every schema has the types `__Schema`, `__Type` and so on, by which it can be asked about itself.
-/

namespace GraphPaths

namespace Introspection

open Graphql

/-- A type that excludes null. -/
def must (name : String) : TypeExpr := .nonNull (.named name)

/-- A type whose values may be null. -/
def may (name : String) : TypeExpr := .named name

/-- A list without nulls in it. -/
def listOf (name : String) : TypeExpr := .list (must name)

/-- A field without arguments. -/
def plainField (name : String) (type : TypeExpr) : FieldDefinition := ⟨name, [], type, []⟩

/-- A list field that can include what is deprecated. -/
def filteredField (name : String) (type : TypeExpr) : FieldDefinition :=
  ⟨name, [⟨"includeDeprecated", must "Boolean", some (.boolean false), []⟩], type, []⟩

/-- An object type. -/
def object (name : String) (fields : List FieldDefinition) : TypeDefinition :=
  ⟨name, [], .object [] fields⟩

/-- An enumeration. -/
def enumeration (name : String) (values : List String) : TypeDefinition :=
  ⟨name, [], .enumeration (values.map (⟨·, []⟩))⟩

/-- The fields of what can be deprecated. -/
def deprecation : List FieldDefinition :=
  [plainField "isDeprecated" (must "Boolean"), plainField "deprecationReason" (may "String")]

/-- A name and a description. -/
def label : List FieldDefinition :=
  [plainField "name" (must "String"), plainField "description" (may "String")]

/-- The types that describe schemas. -/
def types : List TypeDefinition :=
  [object "__Schema"
    [plainField "description" (may "String"), plainField "types" (.nonNull (listOf "__Type")),
     plainField "queryType" (must "__Type"), plainField "mutationType" (may "__Type"),
     plainField "subscriptionType" (may "__Type"),
     filteredField "directives" (.nonNull (listOf "__Directive"))],
   object "__Directive"
    (label ++ [plainField "isRepeatable" (must "Boolean"),
      plainField "locations" (.nonNull (listOf "__DirectiveLocation")),
      filteredField "args" (.nonNull (listOf "__InputValue"))] ++ deprecation),
   enumeration "__DirectiveLocation"
    ["QUERY", "MUTATION", "SUBSCRIPTION", "FIELD", "FRAGMENT_DEFINITION", "FRAGMENT_SPREAD",
     "INLINE_FRAGMENT", "VARIABLE_DEFINITION", "FRAGMENT_VARIABLE_DEFINITION", "SCHEMA", "SCALAR",
     "OBJECT", "FIELD_DEFINITION", "ARGUMENT_DEFINITION", "INTERFACE", "UNION", "ENUM", "ENUM_VALUE",
     "INPUT_OBJECT", "INPUT_FIELD_DEFINITION", "DIRECTIVE_DEFINITION"],
   object "__Type"
    [plainField "kind" (must "__TypeKind"), plainField "name" (may "String"),
     plainField "description" (may "String"), plainField "specifiedByURL" (may "String"),
     filteredField "fields" (listOf "__Field"), plainField "interfaces" (listOf "__Type"),
     plainField "possibleTypes" (listOf "__Type"), filteredField "enumValues" (listOf "__EnumValue"),
     filteredField "inputFields" (listOf "__InputValue"), plainField "ofType" (may "__Type"),
     plainField "isOneOf" (may "Boolean")],
   object "__Field"
    (label ++ [filteredField "args" (.nonNull (listOf "__InputValue")),
      plainField "type" (must "__Type")] ++ deprecation),
   object "__InputValue"
    (label ++ [plainField "type" (must "__Type"), plainField "defaultValue" (may "String")]
      ++ deprecation),
   object "__EnumValue" (label ++ deprecation),
   enumeration "__TypeKind"
    ["SCALAR", "OBJECT", "INTERFACE", "UNION", "ENUM", "INPUT_OBJECT", "LIST", "NON_NULL"]]

end Introspection

end GraphPaths
