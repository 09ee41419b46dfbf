/-!
# GraphQL documents

What a GraphQL text says: definitions of types, directives and the schema, their extensions, and
operations with their fragments. Descriptions are not kept. `TypeExpr.text` writes a type in the
notation of the language.
-/

namespace GraphPaths

namespace Graphql

/-! ## Types and values -/

/-- A type as it is written. -/
inductive TypeExpr where
  | named (name : String)
  | list (item : TypeExpr)
  | nonNull (inner : TypeExpr)
deriving Repr, DecidableEq, Inhabited

/-- The text of a type. -/
def TypeExpr.text : TypeExpr → String
  | .named name => name
  | .list item => "[" ++ item.text ++ "]"
  | .nonNull inner => inner.text ++ "!"

/-- The named type inside a type. -/
def TypeExpr.leaf : TypeExpr → String
  | .named name => name
  | .list item => item.leaf
  | .nonNull inner => inner.leaf

/-- Whether a type excludes null. -/
def TypeExpr.isNonNull : TypeExpr → Bool
  | .nonNull _ => true
  | _ => false

/-- A value as it is written. -/
inductive Literal where
  | variable (name : String)
  | int (digits : String)
  | float (digits : String)
  | string (s : String)
  | blockString (s : String)
  | boolean (b : Bool)
  | null
  | enumeration (name : String)
  | list (items : List Literal)
  | object (fields : List (String × Literal))
deriving Repr, BEq, Inhabited

/-- An argument; `left` tells the place of its value. -/
structure Argument where
  name : String
  value : Literal
  left : Nat
deriving Repr, BEq, Inhabited

/-- A directive; `left` tells its place. -/
structure Directive where
  name : String
  arguments : List Argument
  left : Nat
deriving Repr, BEq, Inhabited

/-! ## Definitions of types -/

/-- An argument of a field or directive, or a field of an input object. -/
structure InputValue where
  name : String
  type : TypeExpr
  default : Option Literal
  directives : List Directive
deriving Repr, BEq, Inhabited

/-- Whether a value must be given: null is excluded and there is no default. -/
def InputValue.isRequired (v : InputValue) : Bool := v.type.isNonNull && v.default.isNone

/-- A field of an object or interface. -/
structure FieldDefinition where
  name : String
  arguments : List InputValue
  type : TypeExpr
  directives : List Directive
deriving Repr, BEq, Inhabited

/-- A value of an enumeration. -/
structure EnumValue where
  name : String
  directives : List Directive
deriving Repr, BEq, Inhabited

/-- The kinds of named types. -/
inductive TypeKind where
  | scalar
  | object
  | interface
  | union
  | enumeration
  | inputObject
deriving Repr, DecidableEq, Inhabited

/-- The word for a kind. -/
def TypeKind.word : TypeKind → String
  | .scalar => "scalar"
  | .object => "object"
  | .interface => "interface"
  | .union => "union"
  | .enumeration => "enum"
  | .inputObject => "input object"

/-- What a definition or an extension of a type holds, by its kind. -/
inductive TypeBody where
  | scalar
  | object (interfaces : List String) (fields : List FieldDefinition)
  | interface (interfaces : List String) (fields : List FieldDefinition)
  | union (members : List String)
  | enumeration (values : List EnumValue)
  | inputObject (fields : List InputValue)
deriving Repr, BEq, Inhabited

/-- The kind of a body. -/
def TypeBody.kind : TypeBody → TypeKind
  | .scalar => .scalar
  | .object .. => .object
  | .interface .. => .interface
  | .union _ => .union
  | .enumeration _ => .enumeration
  | .inputObject _ => .inputObject

/-- A definition or an extension of a type. -/
structure TypeDefinition where
  name : String
  directives : List Directive
  body : TypeBody
deriving Repr, BEq, Inhabited

/-- The definition of a directive. -/
structure DirectiveDefinition where
  name : String
  arguments : List InputValue
  /-- The directives that the definition itself has. -/
  directives : List Directive
  repeatable : Bool
  locations : List String
deriving Repr, BEq, Inhabited

/-! ## Operations -/

/-- The kinds of operations. -/
inductive OperationType where
  | query
  | mutation
  | subscription
deriving Repr, DecidableEq, Inhabited

/-- The keyword of a kind of operation. -/
def OperationType.keyword : OperationType → String
  | .query => "query"
  | .mutation => "mutation"
  | .subscription => "subscription"

/-- The kind of operation with a keyword. -/
def OperationType.ofKeyword (word : String) : Option OperationType :=
  [OperationType.query, .mutation, .subscription].find? fun o => o.keyword == word

/-- The definition of a variable. -/
structure VariableDefinition where
  name : String
  type : TypeExpr
  default : Option Literal
  directives : List Directive
deriving Repr, BEq, Inhabited

/-- What is selected of an object. -/
inductive Selection where
  | field (label : Option String) (name : String) (arguments : List Argument)
      (directives : List Directive) (selections : List Selection)
  | spread (fragment : String) (directives : List Directive)
  | inline (condition : Option String) (directives : List Directive) (selections : List Selection)
deriving Repr, BEq, Inhabited

/-- An operation. -/
structure Operation where
  type : OperationType
  name : Option String
  variableDefinitions : List VariableDefinition
  directives : List Directive
  selections : List Selection
deriving Repr, BEq, Inhabited

/-- A fragment. -/
structure Fragment where
  name : String
  condition : String
  directives : List Directive
  selections : List Selection
deriving Repr, BEq, Inhabited

/-! ## Documents -/

/-- A definition of a document. -/
inductive Definition where
  | schema (isExtension : Bool) (directives : List Directive)
      (roots : List (OperationType × String))
  | type (isExtension : Bool) (definition : TypeDefinition)
  | directive (definition : DirectiveDefinition)
  /-- More directives for the definition of a directive. -/
  | directiveExtension (name : String) (directives : List Directive)
  | operation (operation : Operation)
  | fragment (fragment : Fragment)
deriving Repr, BEq, Inhabited

/-- A document. -/
abbrev Document := List Definition

/-- The types that a document defines. -/
def Document.types (d : Document) : List TypeDefinition :=
  d.filterMap fun
    | .type false t => some t
    | _ => none

/-- The extensions of a type in a document. -/
def Document.extensions (d : Document) (name : String) : List TypeDefinition :=
  d.filterMap fun
    | .type true t => if t.name == name then some t else none
    | _ => none

/-- The directives that the extensions of a directive's definition add, extension by extension. -/
def Document.directiveExtensions (d : Document) (name : String) : List (List Directive) :=
  d.filterMap fun
    | .directiveExtension n ds => if n == name then some ds else none
    | _ => none

/-- The directives that a document defines. -/
def Document.directives (d : Document) : List DirectiveDefinition :=
  d.filterMap fun
    | .directive x => some x
    | _ => none

end Graphql

end GraphPaths
