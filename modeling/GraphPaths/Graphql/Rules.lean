import GraphPaths.Graphql.Document
import GraphPaths.Text.Suggestion

/-!
# Rules for schema documents

Before a schema is made of a document, the document is read through once (`visits`), and at each
place the rules that concern it are applied in a fixed order (`check`). `violations` lists what is
broken, in that order. Names must be defined once, what is used must be defined, directives must
stand where they may and have the arguments they need.
-/

namespace GraphPaths

namespace Graphql

/-! ## Standard names -/

/-- The scalars that need no definition. -/
def standardScalars : List String := ["Int", "Float", "String", "Boolean", "ID"]

/-- The types that describe a schema. -/
def introspectionTypes : List String :=
  ["__Schema", "__Directive", "__DirectiveLocation", "__Type", "__Field", "__InputValue",
   "__EnumValue", "__TypeKind"]

/-- The types that need no definition. -/
def standardTypes : List String := standardScalars ++ introspectionTypes

/-- The directives that need no definition. -/
def standardDirectives : List DirectiveDefinition :=
  let condition : InputValue := ⟨"if", .nonNull (.named "Boolean"), none, []⟩
  let selection := ["FIELD", "FRAGMENT_SPREAD", "INLINE_FRAGMENT"]
  let text : TypeExpr := .nonNull (.named "String")
  [⟨"include", [condition], [], false, selection⟩, ⟨"skip", [condition], [], false, selection⟩,
   ⟨"deprecated", [⟨"reason", text, some (.string "No longer supported"), []⟩], [], false,
    ["FIELD_DEFINITION", "ARGUMENT_DEFINITION", "INPUT_FIELD_DEFINITION", "ENUM_VALUE",
     "DIRECTIVE_DEFINITION"]⟩,
   ⟨"specifiedBy", [⟨"url", text, none, []⟩], [], false, ["SCALAR"]⟩,
   ⟨"oneOf", [], [], false, ["INPUT_OBJECT"]⟩]

/-! ## Violations -/

/-- A broken rule. -/
inductive Violation where
  | secondSchema
  | secondRoot (operation : OperationType)
  | secondType (name : String)
  | secondEnumValue (type value : String)
  | secondField (type field : String)
  | secondArgumentDefinition (parent argument : String)
  | secondDirectiveDefinition (name : String)
  | unknownType (name : String) (near : List String)
  | misplacedDirective (name location : String)
  | unknownDirective (name : String)
  | repeatedDirective (name : String)
  | otherKindExtended (kind : TypeKind) (name : String)
  | undefinedExtended (name : String) (near : List String)
  | undefinedDirectiveExtended (name : String) (near : List String)
  | unknownArgument (argument directive : String) (near : List String)
  | secondArgument (name : String)
  | secondInputField (name : String)
  | missingArgument (directive argument : String) (type : TypeExpr)
deriving Repr, DecidableEq

/-- A place's name in small letters, with blanks. -/
def locationText (location : String) : String :=
  String.ofList ((Text.lower location).toList.map fun c => if c == '_' then ' ' else c)

/-- The message about a broken rule. -/
def Violation.message : Violation → String
  | .secondSchema => "Must provide only one schema definition."
  | .secondRoot o => s!"There can be only one {o.keyword} type in schema."
  | .secondType n => s!"There can be only one type named '{n}'."
  | .secondEnumValue t v => s!"Enum value '{t}.{v}' can only be defined once."
  | .secondField t f => s!"Field '{t}.{f}' can only be defined once."
  | .secondArgumentDefinition p a => s!"Argument '{p}({a}:)' can only be defined once."
  | .secondDirectiveDefinition n => s!"There can be only one directive named '@{n}'."
  | .unknownType n near => s!"Unknown type '{n}'." ++ Text.didYouMean near
  | .misplacedDirective n l => s!"Directive '@{n}' may not be used on {locationText l}."
  | .unknownDirective n => s!"Unknown directive '@{n}'."
  | .repeatedDirective n => s!"The directive '@{n}' can only be used once at this location."
  | .otherKindExtended k n => s!"Cannot extend non-{k.word} type '{n}'."
  | .undefinedExtended n near =>
    s!"Cannot extend type '{n}' because it is not defined." ++ Text.didYouMean near
  | .undefinedDirectiveExtended n near =>
    s!"Cannot extend directive '@{n}' because it is not defined." ++ Text.didYouMean near
  | .unknownArgument a d near =>
    s!"Unknown argument '{a}' on directive '@{d}'." ++ Text.didYouMean near
  | .secondArgument n => s!"There can be only one argument named '{n}'."
  | .secondInputField n => s!"There can be only one input field named '{n}'."
  | .missingArgument d a t =>
    s!"Argument '@{d}({a}:)' of type '{t.text}' is required, but it was not provided."

/-! ## Reading through -/

/-- A place of a document that rules look at. -/
inductive Visit where
  | schema (isExtension : Bool) (roots : List (OperationType × String))
      (directives : List Directive)
  | type (isExtension : Bool) (definition : TypeDefinition)
  | directiveDefinition (definition : DirectiveDefinition)
  | directiveExtension (name : String) (directives : List Directive)
  /-- The name of a type; the flag says whether it stands in a definition of the schema. -/
  | typeName (name : String) (inSchema : Bool)
  /-- Something else that has directives. -/
  | owner (directives : List Directive)
  | fieldArguments (arguments : List Argument)
  | directive (directive : Directive) (location : String)
  | directiveEnd (directive : Directive)
  | object
  | objectField (name : String)
  | objectEnd

mutual

/-- The places of a value. -/
def Literal.visits : Literal → List Visit
  | .list xs => literalsVisits xs
  | .object fields => .object :: fieldsVisits fields ++ [.objectEnd]
  | _ => []

/-- The places of the items of a list. -/
def literalsVisits : List Literal → List Visit
  | [] => []
  | x :: xs => x.visits ++ literalsVisits xs

/-- The places of the fields of an object. -/
def fieldsVisits : List (String × Literal) → List Visit
  | [] => []
  | (k, v) :: fs => .objectField k :: v.visits ++ fieldsVisits fs

end

/-- The places of a default value. -/
def defaultVisits (v : Option Literal) : List Visit := (v.map Literal.visits).getD []

/-- The places of arguments. -/
def argumentVisits (args : List Argument) : List Visit := args.flatMap fun a => a.value.visits

/-- The places of directives at a location. -/
def directiveVisits (location : String) (ds : List Directive) : List Visit :=
  ds.flatMap fun d => .directive d location :: argumentVisits d.arguments ++ [.directiveEnd d]

/-- The places of an argument or input field. -/
def InputValue.visits (location : String) (v : InputValue) : List Visit :=
  .owner v.directives :: .typeName v.type.leaf true :: defaultVisits v.default
    ++ directiveVisits location v.directives

/-- The places of a field. -/
def FieldDefinition.visits (f : FieldDefinition) : List Visit :=
  .owner f.directives :: f.arguments.flatMap (InputValue.visits "ARGUMENT_DEFINITION")
    ++ .typeName f.type.leaf true :: directiveVisits "FIELD_DEFINITION" f.directives

/-- The places of a value of an enumeration. -/
def EnumValue.visits (v : EnumValue) : List Visit :=
  .owner v.directives :: directiveVisits "ENUM_VALUE" v.directives

/-- The places of a definition or extension of a type. -/
def TypeDefinition.visits (isExtension : Bool) (t : TypeDefinition) : List Visit :=
  .type isExtension t :: match t.body with
    | .scalar => directiveVisits "SCALAR" t.directives
    | .object interfaces fields =>
      interfaces.map (.typeName · true) ++ directiveVisits "OBJECT" t.directives
        ++ fields.flatMap FieldDefinition.visits
    | .interface interfaces fields =>
      interfaces.map (.typeName · true) ++ directiveVisits "INTERFACE" t.directives
        ++ fields.flatMap FieldDefinition.visits
    | .union members =>
      directiveVisits "UNION" t.directives ++ members.map (.typeName · true)
    | .enumeration values =>
      directiveVisits "ENUM" t.directives ++ values.flatMap EnumValue.visits
    | .inputObject fields =>
      directiveVisits "INPUT_OBJECT" t.directives
        ++ fields.flatMap (InputValue.visits "INPUT_FIELD_DEFINITION")

mutual

/-- The places of a selection. -/
def Selection.visits : Selection → List Visit
  | .field _ _ args ds inner =>
    .owner ds :: .fieldArguments args :: argumentVisits args ++ directiveVisits "FIELD" ds
      ++ selectionsVisits inner
  | .spread _ ds => .owner ds :: directiveVisits "FRAGMENT_SPREAD" ds
  | .inline condition ds inner =>
    .owner ds :: (condition.toList.map (.typeName · false))
      ++ directiveVisits "INLINE_FRAGMENT" ds ++ selectionsVisits inner

/-- The places of selections. -/
def selectionsVisits : List Selection → List Visit
  | [] => []
  | x :: xs => x.visits ++ selectionsVisits xs

end

/-- The places of the definition of a variable. -/
def VariableDefinition.visits (v : VariableDefinition) : List Visit :=
  .owner v.directives :: .typeName v.type.leaf false :: defaultVisits v.default
    ++ directiveVisits "VARIABLE_DEFINITION" v.directives

/-- The places of a definition. -/
def Definition.visits : Definition → List Visit
  | .schema isExtension ds roots =>
    .schema isExtension roots ds :: directiveVisits "SCHEMA" ds
      ++ roots.map fun (_, n) => .typeName n true
  | .type isExtension t => t.visits isExtension
  | .directive d =>
    .directiveDefinition d :: d.arguments.flatMap (InputValue.visits "ARGUMENT_DEFINITION")
      ++ directiveVisits "DIRECTIVE_DEFINITION" d.directives
  | .directiveExtension n ds =>
    .directiveExtension n ds :: directiveVisits "DIRECTIVE_DEFINITION" ds
  | .operation o =>
    .owner o.directives :: o.variableDefinitions.flatMap VariableDefinition.visits
      ++ directiveVisits (Text.upper o.type.keyword) o.directives ++ selectionsVisits o.selections
  | .fragment f =>
    .owner f.directives :: .typeName f.condition false
      :: directiveVisits "FRAGMENT_DEFINITION" f.directives ++ selectionsVisits f.selections

/-- The places of a document in reading order. -/
def Document.visits (d : Document) : List Visit := d.flatMap Definition.visits

/-! ## The rules -/

/-- The names met so far. -/
structure Met where
  schema : Bool
  roots : List OperationType
  types : List String
  /-- Values of enumerations, with their types. -/
  enumValues : List (String × String)
  /-- Fields, with their types. -/
  fields : List (String × String)
  directives : List String
  /-- Directives of the schema. -/
  schemaDirectives : List String
  /-- Directives of types, with the types. -/
  typeDirectives : List (String × String)
  /-- Directives of definitions of directives, with what is defined. -/
  directiveDirectives : List (String × String)
  /-- The fields of the objects around a place, innermost first. -/
  objects : List (List String)

/-- Nothing met yet. -/
def Met.nothing : Met := ⟨false, [], [], [], [], [], [], [], [], []⟩

/-- The members met before, each with every further meeting, and all that are met in the end. -/
def repeats {α : Type} [BEq α] (met : List α) : List α → List α × List α
  | [] => ([], met)
  | x :: xs =>
    if met.contains x then
      let (again, all) := repeats met xs
      (x :: again, all)
    else repeats (met ++ [x]) xs

/-- The members that occur more than once, each once. -/
def duplicates {α : Type} [BEq α] (xs : List α) : List α :=
  (xs.eraseDups).filter fun x => 1 < xs.count x

/-- The definition of a directive that counts in a document. -/
def Document.directive? (d : Document) (name : String) : Option DirectiveDefinition :=
  ((standardDirectives ++ d.directives).reverse).find? fun x => x.name == name

/-- Directives that may stand only once among those met, where they are met again. -/
def repeatedDirectives (d : Document) (ds : List Directive) : List Directive :=
  ds.filter fun x => match d.directive? x.name with
    | some definition => !definition.repeatable
    | none => false

/-- The fields of a body with arguments. -/
def TypeBody.fields : TypeBody → List FieldDefinition
  | .object _ fields | .interface _ fields => fields
  | _ => []

/-- The names of the fields of a body. -/
def TypeBody.fieldNames : TypeBody → List String
  | .object _ fields | .interface _ fields => fields.map FieldDefinition.name
  | .inputObject fields => fields.map InputValue.name
  | _ => []

/-- The names of the values of a body. -/
def TypeBody.valueNames : TypeBody → List String
  | .enumeration values => values.map EnumValue.name
  | _ => []

/-- The arguments of a parent that are defined more than once. -/
def argumentDuplicates (parent : String) (args : List InputValue) : List Violation :=
  (duplicates (args.map InputValue.name)).map (.secondArgumentDefinition parent)

/-- What is wrong with the extension of a type. -/
def checkExtension (d : Document) (t : TypeDefinition) : List Violation :=
  match d.types.reverse.find? fun x => x.name == t.name with
  | some base =>
    if base.body.kind == t.body.kind then [] else [.otherKindExtended t.body.kind t.name]
  | none =>
    [.undefinedExtended t.name (Text.suggestions t.name (d.types.map TypeDefinition.name))]

/-- What is wrong at a definition or extension of a type. -/
def checkType (d : Document) (m : Met) (isExtension : Bool) (t : TypeDefinition) :
    Met × List Violation :=
  let again := !isExtension && m.types.contains t.name
  let types := if isExtension || again then m.types else m.types ++ [t.name]
  let (values, enumValues) := repeats m.enumValues (t.body.valueNames.map (t.name, ·))
  let (fields, allFields) := repeats m.fields (t.body.fieldNames.map (t.name, ·))
  let (directives, typeDirectives) := repeats m.typeDirectives
    ((repeatedDirectives d t.directives).map fun x => (t.name, x.name))
  ({ m with types, enumValues, fields := allFields, typeDirectives },
    (if again then [.secondType t.name] else [])
      ++ values.map (fun (n, v) => .secondEnumValue n v)
      ++ fields.map (fun (n, f) => .secondField n f)
      ++ t.body.fields.flatMap (fun f => argumentDuplicates (t.name ++ "." ++ f.name) f.arguments)
      ++ directives.map (fun (_, n) => .repeatedDirective n)
      ++ (if isExtension then checkExtension d t else []))

/-- What is wrong at a definition or extension of the schema. -/
def checkSchema (d : Document) (m : Met) (isExtension : Bool)
    (roots : List (OperationType × String)) (ds : List Directive) : Met × List Violation :=
  let again := !isExtension && m.schema
  let (seconds, allRoots) := repeats m.roots (roots.map Prod.fst)
  let (directives, schemaDirectives) := repeats m.schemaDirectives
    ((repeatedDirectives d ds).map Directive.name)
  ({ m with schema := m.schema || !isExtension, roots := allRoots, schemaDirectives },
    (if again then [.secondSchema] else []) ++ seconds.map .secondRoot
      ++ directives.map .repeatedDirective)

/-- The directives of the definition of a directive that are met again. -/
def checkDirectiveDirectives (d : Document) (m : Met) (name : String) (ds : List Directive) :
    Met × List Violation :=
  let (again, directiveDirectives) := repeats m.directiveDirectives
    ((repeatedDirectives d ds).map fun x => (name, x.name))
  ({ m with directiveDirectives }, again.map fun (_, n) => .repeatedDirective n)

/-- What is wrong at the definition of a directive. -/
def checkDirectiveDefinition (d : Document) (m : Met) (x : DirectiveDefinition) :
    Met × List Violation :=
  let again := m.directives.contains x.name
  let directives := if again then m.directives else m.directives ++ [x.name]
  let (m, repeated) := checkDirectiveDirectives d { m with directives } x.name x.directives
  (m, argumentDuplicates ("@" ++ x.name) x.arguments
    ++ (if again then [.secondDirectiveDefinition x.name] else []) ++ repeated)

/-- What is wrong at an extension of the definition of a directive. -/
def checkDirectiveExtension (d : Document) (m : Met) (name : String) (ds : List Directive) :
    Met × List Violation :=
  let (m, repeated) := checkDirectiveDirectives d m name ds
  let names := d.directives.map DirectiveDefinition.name
  (m, repeated ++ if names.contains name then []
    else [.undefinedDirectiveExtended name (Text.suggestions name names)])

/-- What is wrong with the name of a type. -/
def checkTypeName (d : Document) (name : String) (inSchema : Bool) : List Violation :=
  let names := d.types.map TypeDefinition.name
  if names.contains name || (inSchema && standardTypes.contains name) then []
  else
    let options := if inSchema then standardTypes ++ names else names
    [.unknownType name (Text.suggestions name options)]

/-- What is wrong with a directive at a location. -/
def checkDirective (d : Document) (x : Directive) (location : String) : List Violation :=
  let duplicateArguments := (duplicates (x.arguments.map Argument.name)).map .secondArgument
  match d.directive? x.name with
  | none => .unknownDirective x.name :: duplicateArguments
  | some definition =>
    let known := definition.arguments.map InputValue.name
    let misplaced := if definition.locations.contains location then []
      else [Violation.misplacedDirective x.name location]
    let unknown := (x.arguments.filter fun a => !known.contains a.name).map fun a =>
      Violation.unknownArgument a.name x.name (Text.suggestions a.name known)
    misplaced ++ unknown ++ duplicateArguments

/-- The arguments that a directive needs and does not have. -/
def missingArguments (d : Document) (x : Directive) : List Violation :=
  match d.directive? x.name with
  | none => []
  | some definition =>
    let given := x.arguments.map Argument.name
    (definition.arguments.filter fun a => a.isRequired && !given.contains a.name).map fun a =>
      .missingArgument x.name a.name a.type

/-- What is wrong at a place, and what has been met then. -/
def check (d : Document) (m : Met) : Visit → Met × List Violation
  | .schema isExtension roots ds => checkSchema d m isExtension roots ds
  | .type isExtension t => checkType d m isExtension t
  | .directiveDefinition x => checkDirectiveDefinition d m x
  | .directiveExtension n ds => checkDirectiveExtension d m n ds
  | .typeName name inSchema => (m, checkTypeName d name inSchema)
  | .owner ds =>
    (m, ((repeats [] ((repeatedDirectives d ds).map Directive.name)).1).map .repeatedDirective)
  | .fieldArguments args => (m, (duplicates (args.map Argument.name)).map .secondArgument)
  | .directive x location => (m, checkDirective d x location)
  | .directiveEnd x => (m, missingArguments d x)
  | .object => ({ m with objects := [] :: m.objects }, [])
  | .objectEnd => ({ m with objects := m.objects.drop 1 }, [])
  | .objectField name =>
    match m.objects with
    | fields :: outer =>
      if fields.contains name then (m, [.secondInputField name])
      else ({ m with objects := (fields ++ [name]) :: outer }, [])
    | [] => (m, [])

/-- What is wrong at the places of a document. -/
def checkAll (d : Document) : Met → List Visit → List Violation
  | _, [] => []
  | m, v :: vs =>
    let (m, found) := check d m v
    found ++ checkAll d m vs

/-- The broken rules of a document, in reading order. -/
def Document.violations (d : Document) : List Violation := checkAll d .nothing d.visits

end Graphql

end GraphPaths
