import GraphPaths.Graphql.Rules
import GraphPaths.Schema.DefaultCycle
import GraphPaths.Schema.DefaultValue
import GraphPaths.Text.Case

/-!
# Valid schemas

A schema can be built and still be of no use: a root may be no object, a type may have no fields, a
default may be no value of its type, an object may lack what its interfaces promise. `Schema.flaws`
lists what is wrong, roots first, then directives, then types in their order, then input objects
without a finite value; `Schema.problems` is the list of messages, with a last one when there is
nothing to ask for at all. A part that cannot be looked at ends the search with an error.
-/

namespace GraphPaths

open Graphql (TypeExpr OperationType TypeKind)

/-! ## Flaws -/

/-- What is wrong with a schema. -/
inductive Flaw where
  | noQuery
  | rootKind (operation : OperationType) (type : String)
  | sharedRoot (type : String) (operations : List OperationType)
  | reservedName (name : String)
  /-- The type of a place is no input. -/
  | notInput (place : String) (type : TypeExpr)
  /-- The type of a place is no output. -/
  | notOutput (place : String) (type : TypeExpr)
  | deprecatedArgument (place : String)
  | deprecatedField (place : String)
  | badDefault (place : String) (flaw : LiteralFlaw)
  | defaultCycle (cycle : DefaultCycle)
  | noFields (type : String)
  | noValues (type : String)
  | noMembers (type : String)
  | noInputs (type : String)
  | notInterface (type interface : String)
  | ownInterface (type : String)
  | interfaceTwice (type interface : String)
  | missingAncestor (type ancestor interface : String)
  | circularAncestor (type interface : String)
  | missingField (interface field type : String)
  | fieldType (place : String) (promised : TypeExpr) (type : String) (given : TypeExpr)
  | missingArgument (interface type field argument : String)
  | argumentType (interface type field argument : String) (promised given : TypeExpr)
  | extraArgument (interface type field argument : String) (given : TypeExpr)
  | deprecatedImplementation (interface type field : String)
  | notMember (union type : String)
  | memberTwice (union type : String)
  | oneOfNonNull (place : String)
  | oneOfDefault (place : String)
  | endlessInput (type : String) (places : List String)
deriving Repr, DecidableEq

/-- The words of a row with a last `and`. -/
def conjunction (words : List String) : String :=
  match words.reverse with
  | [] => ""
  | [a] => a
  | [b, a] => a ++ " and " ++ b
  | last :: rest => ", ".intercalate rest.reverse ++ ", and " ++ last

/-- A word with a capital. -/
def capitalized (word : String) : String :=
  match word.toList with
  | c :: r => String.ofList (Text.upperChar c :: r)
  | [] => ""

/-- The message about a flaw. -/
def Flaw.message : Flaw → String
  | .noQuery => "Query root type must be provided."
  | .rootKind .query t => s!"Query root type must be Object type, it cannot be {t}."
  | .rootKind o t =>
    s!"{capitalized o.keyword} root type must be Object type if provided, it cannot be {t}."
  | .sharedRoot t os =>
    let operations := conjunction (os.map OperationType.keyword)
    s!"All root types must be different, '{t}' type is used as {operations} root types."
  | .reservedName n =>
    s!"Name '{n}' must not begin with '__', which is reserved by GraphQL introspection."
  | .notInput p t => s!"The type of {p} must be Input Type but got: {t.text}."
  | .notOutput p t => s!"The type of {p} must be Output Type but got: {t.text}."
  | .deprecatedArgument p => s!"Required argument {p} cannot be deprecated."
  | .deprecatedField p => s!"Required input field {p} cannot be deprecated."
  | .badDefault p flaw =>
    let path := String.join (flaw.path.map ValueStep.text)
    let place := if path.isEmpty then "" else " at " ++ path
    s!"{p} has invalid default value{place}: {flaw.fault.message}"
  | .defaultCycle c =>
    let fields := ", ".intercalate c.via
    let via := if c.via.isEmpty then "" else " via the default values of: " ++ fields
    s!"Invalid circular reference. The default value of Input Object field {c.field} references itself{via}."
  | .noFields t => s!"Type {t} must define one or more fields."
  | .noValues t => s!"Enum type {t} must define one or more values."
  | .noMembers t => s!"Union type {t} must define one or more member types."
  | .noInputs t => s!"Input Object type {t} must define one or more fields."
  | .notInterface t i => s!"Type {t} must only implement Interface types, it cannot implement {i}."
  | .ownInterface t =>
    s!"Type {t} cannot implement itself because it would create a circular reference."
  | .interfaceTwice t i => s!"Type {t} can only implement {i} once."
  | .missingAncestor t a i => s!"Type {t} must implement {a} because it is implemented by {i}."
  | .circularAncestor t i =>
    s!"Type {t} cannot implement {i} because it would create a circular reference."
  | .missingField i f t => s!"Interface field {i}.{f} expected but {t} does not provide it."
  | .fieldType p promised t given =>
    s!"Interface field {p} expects type {promised.text} but {t} is type {given.text}."
  | .missingArgument i t f a =>
    s!"Interface field argument {i}.{f}({a}:) expected but {t}.{f} does not provide it."
  | .argumentType i t f a promised given =>
    s!"Interface field argument {i}.{f}({a}:) expects type {promised.text} but {t}.{f}({a}:) is type {given.text}."
  | .extraArgument i t f a given =>
    s!"Argument '{t}.{f}({a}:)' must not be required type '{given.text}' if not provided by the Interface field '{i}.{f}'."
  | .deprecatedImplementation i t f =>
    s!"Interface field {i}.{f} is not deprecated, so implementation field {t}.{f} must not be deprecated."
  | .notMember u t => s!"Union type {u} can only include Object types, it cannot include {t}."
  | .memberTwice u t => s!"Union type {u} can only include type {t} once."
  | .oneOfNonNull p => s!"OneOf input field {p} must be nullable."
  | .oneOfDefault p => s!"OneOf input field {p} cannot have a default value."
  | .endlessInput t places =>
    let path := ", ".intercalate places
    s!"Input Object {t} cannot be provided a finite value because it references itself through fields: {path}."

namespace Schema

/-! ## Roots -/

/-- The operations in their order. -/
def operations : List OperationType := [.query, .mutation, .subscription]

/-- What is wrong with the roots. -/
def rootFlaws (s : Schema) : List Flaw :=
  let roots := operations.filterMap fun o => (s.root? o).map (o, ·)
  let isObject := fun n => s.kind? n == some .object
  let missing := if s.query.isNone then [Flaw.noQuery] else []
  let kinds := (roots.filter fun (_, n) => !isObject n).map fun (o, n) => Flaw.rootKind o n
  let objects := roots.filter fun (_, n) => isObject n
  let shared := ((objects.map Prod.snd).eraseDups).filterMap fun n =>
    let uses := (objects.filter fun (_, m) => m == n).map Prod.fst
    if 1 < uses.length then some (Flaw.sharedRoot n uses) else none
  missing ++ kinds ++ shared

/-! ## Names and inputs -/

/-- Why the search for flaws cannot go on. -/
inductive SearchError where
  /-- A value of an enumeration is not what it must be. -/
  | part (error : PartError)
  /-- A default is to be compared with the values of a type that has none. -/
  | noLeaf (error : NoLeaf)
deriving Repr, DecidableEq

/-- The message of an error. -/
def SearchError.message : SearchError → String
  | .part e => e.message
  | .noLeaf e => e.message

/-- What is found wrong with a part of a schema. -/
abbrev Found := Except SearchError (List Flaw)

/-- What is found wrong with each of some parts. -/
def foundIn {α : Type} (f : α → Found) (xs : List α) : Found := (xs.mapM f).map List.flatten

/-- Whether a name is kept for the types that describe schemas. -/
def nameFlaws (name : String) : List Flaw :=
  if name.startsWith "__" then [.reservedName name] else []

/-- What is wrong with the default of an argument or input field at a place. -/
def defaultFlaws (s : Schema) (place : String) (a : SchemaInput) : Found :=
  match a.default with
  | none => .ok []
  | some l => ((literalFlaws s a.type l).map (List.map (.badDefault place))).mapError .noLeaf

/-- What is wrong with an argument at a place. -/
def argumentFlaws (s : Schema) (owner : String) (a : SchemaInput) : Found := do
  let place := owner ++ "(" ++ a.name ++ ":)"
  let values ← defaultFlaws s place a
  return nameFlaws a.name ++ (if s.isInput a.type then [] else [.notInput place a.type])
    ++ (if a.isRequired && a.isDeprecated then [.deprecatedArgument place] else []) ++ values

/-- What is wrong with the directives. -/
def directiveFlaws (s : Schema) : Found :=
  foundIn (fun d => do
    return nameFlaws d.name ++ (← foundIn (argumentFlaws s ("@" ++ d.name)) d.arguments))
    s.directives

/-- What is wrong with the fields of a type. -/
def fieldFlaws (s : Schema) (t : NamedType) : Found := do
  let flaws ← foundIn (fun f => do
    let place := t.name ++ "." ++ f.name
    let args ← foundIn (argumentFlaws s place) f.arguments
    return nameFlaws f.name ++ (if s.isOutput f.type then [] else [.notOutput place f.type])
      ++ args) t.shape.fields
  return (if t.shape.fields.isEmpty then [.noFields t.name] else []) ++ flaws

/-! ## Interfaces -/

/-- Whether an object or interface is among the types that another type stands for. -/
def isMember (s : Schema) (abstract name : String) : Bool :=
  match s.shape? name with
  | some shape@(.object ..) | some shape@(.interface ..) =>
    match s.shape? abstract with
    | some (.union members) => members.contains name
    | some (.interface ..) => shape.interfaces.contains abstract
    | _ => false
  | _ => false

/-- Whether every value of one type is a value of another. -/
def isSubtype (s : Schema) : TypeExpr → TypeExpr → Bool
  | .nonNull t, .nonNull u => isSubtype s t u
  | _, .nonNull _ => false
  | .nonNull t, u => isSubtype s t u
  | .list t, .list u => isSubtype s t u
  | .named n, .named m => n == m || isMember s m n
  | _, _ => false

/-- What a type lacks of what the interfaces of an interface promise. -/
def ancestorFlaws (t : NamedType) (interface : String) (shape : TypeShape) : List Flaw :=
  (shape.interfaces.filter fun a => !t.shape.interfaces.contains a).map fun a =>
    if a == t.name then .circularAncestor t.name interface
    else .missingAncestor t.name a interface

/-- What the arguments of a field lack of those that an interface promises. -/
def promisedArguments (interface : String) (t : NamedType) (promised given : SchemaField) :
    List Flaw :=
  let find := fun (f : SchemaField) n => f.arguments.find? fun a => a.name == n
  let kept := promised.arguments.flatMap fun a =>
    match find given a.name with
    | none => [Flaw.missingArgument interface t.name promised.name a.name]
    | some b =>
      if a.type == b.type then []
      else [Flaw.argumentType interface t.name promised.name a.name a.type b.type]
  let extra := given.arguments.filter fun a => (find promised a.name).isNone && a.isRequired
  kept ++ extra.map fun a => .extraArgument interface t.name promised.name a.name a.type

/-- What a type lacks of the fields that an interface promises. -/
def promisedFields (s : Schema) (t : NamedType) (interface : String) (shape : TypeShape) :
    List Flaw :=
  shape.fields.flatMap fun promised =>
    match t.shape.fields.find? fun f => f.name == promised.name with
    | none => [Flaw.missingField interface promised.name t.name]
    | some given =>
      (if isSubtype s given.type promised.type then []
        else [Flaw.fieldType (interface ++ "." ++ promised.name) promised.type
          (t.name ++ "." ++ promised.name) given.type])
        ++ promisedArguments interface t promised given
        ++ if given.isDeprecated && !promised.isDeprecated then
          [.deprecatedImplementation interface t.name promised.name] else []

/-- What is wrong with the interfaces of a type, those in `met` being implemented already. -/
def interfaceFlaws (s : Schema) (t : NamedType) : List String → List String → List Flaw
  | _, [] => []
  | met, i :: rest =>
    match s.shape? i with
    | some (.interface interfaces fields) =>
      let own := if i == t.name then [Flaw.ownInterface t.name] else []
      if met.contains i then own ++ .interfaceTwice t.name i :: interfaceFlaws s t met rest
      else
        let shape := TypeShape.interface interfaces fields
        own ++ ancestorFlaws t i shape ++ promisedFields s t i shape
          ++ interfaceFlaws s t (i :: met) rest
    | _ => .notInterface t.name i :: interfaceFlaws s t met rest

/-! ## Unions and enumerations -/

/-- What is wrong with the members of a union, those in `met` being included already. -/
def memberFlaws (s : Schema) (union : String) : List String → List String → List Flaw
  | _, [] => []
  | met, m :: rest =>
    if s.kind? m == some .object then
      if met.contains m then .memberTwice union m :: memberFlaws s union met rest
      else memberFlaws s union (m :: met) rest
    else .notMember union m :: memberFlaws s union met rest

/-! ## Input objects -/

/-- What is wrong with a field of an input object. -/
def inputFieldFlaws (s : Schema) (name : String) (isOneOf : Bool) (f : SchemaInput) : Found := do
  let place := name ++ "." ++ f.name
  let values ← defaultFlaws s place f
  return nameFlaws f.name ++ (if s.isInput f.type then [] else [.notInput place f.type])
    ++ (if f.isRequired && f.isDeprecated then [.deprecatedField place] else []) ++ values
    ++ (if isOneOf && f.type.isNonNull then [.oneOfNonNull place] else [])
    ++ if isOneOf && f.default.isSome then [.oneOfDefault place] else []

/-- What is wrong with the fields of an input object. -/
def inputFlaws (s : Schema) (name : String) (isOneOf : Bool) (fields : List SchemaInput) :
    Found := do
  let flaws ← foundIn (inputFieldFlaws s name isOneOf) fields
  return (if fields.isEmpty then [.noInputs name] else []) ++ flaws

/-- The input object that a value of a type must hold, if its value is one and is not null. -/
def heldInput (s : Schema) (t : TypeExpr) : Option String :=
  let name := match t with
    | .named n | .nonNull (.named n) => some n
    | _ => none
  name.filter fun n => s.kind? n == some .inputObject

/-- The input objects that have a finite value when those in `known` have one. -/
def finiteInputs (s : Schema) (known : List String) : List String :=
  let hasValue := fun (f : SchemaInput) => match heldInput s f.type with
    | some n => known.contains n
    | none => true
  s.types.filterMap fun t =>
    match t.shape with
    | .inputObject true fields =>
      if fields.isEmpty || fields.any hasValue then some t.name else none
    | .inputObject false fields =>
      if (fields.filter fun f => f.type.isNonNull).all hasValue then some t.name else none
    | _ => none

/-- The input objects with a finite value. -/
def finite (s : Schema) : List String :=
  s.types.foldl (fun known _ => finiteInputs s known) []

/-- The fields of an input object that must hold another, with its name. -/
def heldFields (s : Schema) (finite : List String) (name : String) : List (String × String) :=
  match s.shape? name with
  | some (.inputObject isOneOf fields) =>
    if isOneOf && finite.contains name then []
    else fields.filterMap fun f =>
      if isOneOf || f.type.isNonNull then (heldInput s f.type).map (f.name, ·) else none
  | _ => []

/-- A walk through input objects: those seen, and what was found. -/
structure Walk where
  seen : List String
  found : List Flaw

/-- The walk on from an input object; `path` holds the objects on the way here with the fields that
led on from them, the last first. -/
def walkFrom (s : Schema) (finite : List String) :
    Nat → List (String × String) → Walk → String → Walk
  | 0, _, w, _ => w
  | fuel + 1, path, w, name =>
    if w.seen.contains name then w
    else
      (heldFields s finite name).foldl (fun w (field, target) =>
        let path := (name, field) :: path
        if path.any fun (n, _) => n == target then
          let circle := (path.reverse.dropWhile fun (n, _) => n != target).map fun (n, f) =>
            n ++ "." ++ f
          { w with found := w.found ++ [.endlessInput target circle] }
        else walkFrom s finite fuel path w target) { w with seen := name :: w.seen }

/-- The input objects of a schema from which a walk can start again and again without an end. -/
def endlessInputs (s : Schema) : List Flaw :=
  let finite := s.finite
  let inputs := s.types.filter fun t => t.shape.kind == .inputObject
  (inputs.foldl (fun w t => walkFrom s finite (s.types.length + 1) [] w t.name) ⟨[], []⟩).found

/-! ## All flaws -/

/-- What is wrong with a type by itself, circles of defaults apart. -/
def shapeFlaws (s : Schema) (t : NamedType) : Found :=
  match t.shape with
  | .scalar => .ok []
  | .object interfaces _ | .interface interfaces _ =>
    (fieldFlaws s t).map (· ++ interfaceFlaws s t [] interfaces)
  | .union members =>
    .ok ((if members.isEmpty then [.noMembers t.name] else []) ++ memberFlaws s t.name [] members)
  | .enumeration _ (some e) => .error (.part e)
  | .enumeration values none =>
    .ok ((if values.isEmpty then [.noValues t.name] else []) ++ values.flatMap nameFlaws)
  | .inputObject isOneOf fields => inputFlaws s t.name isOneOf fields

/-- What is wrong with types in their order; `seen` are the input fields whose defaults were followed
already. -/
def typeFlaws (s : Schema) : List String → List NamedType → Found
  | _, [] => .ok []
  | seen, t :: ts => do
    let named := if Graphql.introspectionTypes.contains t.name then [] else nameFlaws t.name
    let own ← shapeFlaws s t
    let search := searchType s t.name ⟨seen, []⟩
    return named ++ own ++ search.found.map .defaultCycle ++ (← typeFlaws s search.seen ts)

/-- What is wrong with a schema. -/
def flaws (s : Schema) : Found := do
  let directives ← directiveFlaws s
  let types ← typeFlaws s [] s.types
  return rootFlaws s ++ directives ++ types ++ endlessInputs s

/-- The messages about a schema, each as an item of a list. -/
def problems (s : Schema) : Except SearchError (List String) := do
  let flaws ← s.flaws
  let none := if s.query.isNone && s.mutation.isNone then
    ["Schema defines neither a Query nor a Mutation type."] else []
  return (flaws.map Flaw.message ++ none).map ("  - " ++ ·)

end Schema

end GraphPaths
