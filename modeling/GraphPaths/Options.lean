import GraphPaths.ExampleValues
import GraphPaths.Number.Numeral
import GraphPaths.Text.Case
import GraphPaths.Text.Line
import GraphPaths.Text.Utf8
import GraphPaths.Value.Text

/-!
# Options

What can be set for a document: its head, the example values of arguments, the tags of fields.
`Options.ofValue` reads options from a mapping. Each option has one or two spellings, of which the
second counts when both are there; other keys are ignored. All that is wrong is reported at once, by
option in their order, under the spelling that was used.
-/

namespace GraphPaths

/-! ## Options -/

/-- A tag of an operation. -/
structure RouteTag where
  name : String
  description : Option String
deriving Repr, DecidableEq, Inhabited

/-- Settings of a field. -/
structure RouteConfig where
  tag : Option RouteTag
deriving Repr, DecidableEq, Inhabited

/-- The options of a document. Those that only stand in it may be any value when they were changed
without a check. -/
structure Options where
  serverUrl : Value
  title : Value
  openapi : String
  version : Value
  summary : Value
  description : Value
  exampleValues : ExampleValues
  /-- Settings by the name of the field. -/
  routeMap : List (String × RouteConfig)
  includeOperationName : Value
deriving Repr, BEq, Inhabited

namespace Options

/-- The options when nothing is set. -/
def standard : Options where
  serverUrl := .text "/graphql"
  title := .text "GraphQL API"
  openapi := "3.0.3"
  version := .text "1.0.0"
  summary := .text "GraphQL Endpoint"
  description := .text "Endpoint for all GraphQL queries and mutations"
  exampleValues := .empty
  routeMap := []
  includeOperationName := .bool false

/-- Whether requests name their operation. -/
def namesOperation (o : Options) : Bool := !o.includeOperationName.isEmpty

/-- The integer that a part of a version is. -/
def versionPart (cs : List Char) : Option Int := (Numeral.int 10 (String.ofList cs)).toOption

/-- Whether a version is 3.1 or later; one that cannot be read is not. -/
def atLeast31 (version : String) : Bool :=
  match Text.splitAt '.' version.toList with
  | [] => false
  | [major] => (versionPart major).any fun m => 3 < m
  | major :: minor :: _ =>
    match versionPart major, versionPart minor with
    | some m, some n => 3 < m || (m == 3 && 1 ≤ n)
    | _, _ => false

/-- Whether the head of the document has a summary. -/
def supportsInfoSummary (o : Options) : Bool := atLeast31 o.openapi

end Options

/-! ## Errors -/

/-- What is wrong with an option. -/
inductive OptionFault where
  | noText
  | badBytes
  | noMapping
  | noModel (model : String)
  | missing
  | unreadableBool
  | noBool
deriving Repr, DecidableEq

/-- The name of the kind of fault. -/
def OptionFault.name : OptionFault → String
  | .noText => "string_type"
  | .badBytes => "string_unicode"
  | .noMapping => "dict_type"
  | .noModel _ => "model_type"
  | .missing => "missing"
  | .unreadableBool => "bool_parsing"
  | .noBool => "bool_type"

/-- The message about a fault. -/
def OptionFault.message : OptionFault → String
  | .noText => "Input should be a valid string"
  | .badBytes => "Input should be a valid string, unable to parse raw data as a unicode string"
  | .noMapping => "Input should be a valid dictionary"
  | .noModel model => s!"Input should be a valid dictionary or instance of {model}"
  | .missing => "Field required"
  | .unreadableBool => "Input should be a valid boolean, unable to interpret input"
  | .noBool => "Input should be a valid boolean"

/-- A fault at a place among the options. -/
structure OptionError where
  place : List String
  fault : OptionFault
deriving Repr, DecidableEq

/-- Why a value gives no options. -/
inductive OptionsError where
  /-- A value of this kind has no members that could be entries. -/
  | notEntries (kindName : String)
  /-- A member is no pair. -/
  | noPair (index length : Nat)
  /-- A member has no members itself. -/
  | noSequence (index : Nat)
  /-- A pair's key cannot be one. -/
  | badKey (kindName : String)
  /-- Options are wrong. -/
  | invalid (errors : List OptionError)
deriving Repr, DecidableEq

/-- The first line of the message of an error. -/
def OptionsError.message : OptionsError → String
  | .notEntries kindName => s!"'{kindName}' object is not iterable"
  | .noPair index length =>
    s!"dictionary update sequence element #{Text.decimal index} has length {Text.decimal length}; 2 is required"
  | .noSequence index =>
    s!"cannot convert dictionary update sequence element #{Text.decimal index} to a sequence"
  | .badKey kindName => s!"unhashable type: '{kindName}'"
  | .invalid errors =>
    let noun := if errors.length == 1 then " validation error" else " validation errors"
    Text.decimal errors.length ++ noun ++ " for AssemblyOptions"

/-! ## Entries -/

/-- Whether a value can be a key. -/
def canBeKey (v : Value) : Bool :=
  match v.bare with
  | .list _ | .map _ | .set _ | .again _ => false
  | _ => true

/-- The entry that a member of a list is. -/
def entryOf (index : Nat) (v : Value) : Except OptionsError (Value × Value) :=
  match v.members? with
  | none => .error (.noSequence index)
  | some [k, x] => if canBeKey k then .ok (k, x) else .error (.badKey k.kindName)
  | some xs => .error (.noPair index xs.length)

/-- The entries of a value: those of a mapping, or the pairs of a list. -/
def entriesOf (v : Value) : Except OptionsError (List (Value × Value)) :=
  if v.isEmpty then .ok []
  else match v.bare with
    | .map es => .ok es
    | _ =>
      match v.members? with
      | none => .error (.notEntries v.typeName)
      | some xs => (xs.zipIdx.mapM fun (x, i) => entryOf i x).map Value.ofEntries

/-! ## Checks -/

/-- A value that passed a check, or what is wrong. -/
abbrev Checked (α : Type) := Except (List OptionError) α

/-- A text; bytes are read as UTF-8. -/
def checkText (place : List String) (v : Value) : Checked String :=
  match v with
  | .text s => .ok s
  | .bytes bs => (Text.Utf8.decode bs).mapError fun _ => [⟨place, .badBytes⟩]
  | _ => .error [⟨place, .noText⟩]

/-- The words for true and for false. -/
def truthWords : List (String × Bool) :=
  [("0", false), ("off", false), ("f", false), ("false", false), ("n", false), ("no", false),
   ("1", true), ("on", true), ("t", true), ("true", true), ("y", true), ("yes", true)]

/-- A truth value that a word stands for. -/
def checkWord (place : List String) (word : String) : Checked Bool :=
  match truthWords.lookup (Text.lower word) with
  | some b => .ok b
  | none => .error [⟨place, .unreadableBool⟩]

/-- A truth value that an integer of 64 bits stands for. -/
def checkInt (place : List String) (i : Int) : Checked Bool :=
  if i == 0 then .ok false
  else if i == 1 then .ok true
  else if -9223372036854775808 ≤ i && i < 9223372036854775808 then .error [⟨place, .unreadableBool⟩]
  else .error [⟨place, .noBool⟩]

/-- The integer that a number is. -/
def wholeNumber (x : Binary64) : Option Int :=
  match x with
  | .finite negative m e =>
    let (a, b) := Binary64.ratio m e
    if a % b == 0 then some (if negative then -(a / b : Nat) else (a / b : Nat)) else none
  | _ => none

/-- A truth value: one itself, nought or one, or a word. -/
def checkBool (place : List String) (v : Value) : Checked Bool :=
  match v with
  | .bool b => .ok b
  | .int i => checkInt place i
  | .float x =>
    match wholeNumber x with
    | some i => checkInt place i
    | none => .error [⟨place, .noBool⟩]
  | .text s => checkWord place s
  | .bytes bs =>
    match Text.Utf8.decode bs with
    | .ok s => checkWord place s
    | .error _ => .error [⟨place, .unreadableBool⟩]
  | _ => .error [⟨place, .noBool⟩]

/-- All results, or all errors. -/
def allOf {α β : Type} (f : α → Checked β) : List α → Checked (List β)
  | [] => .ok []
  | x :: xs =>
    match f x, allOf f xs with
    | .ok y, .ok ys => .ok (y :: ys)
    | .ok _, .error es => .error es
    | .error es, .ok _ => .error es
    | .error es, .error es' => .error (es ++ es')

/-- Two results, or the errors of both. -/
def bothOf {α β : Type} (a : Checked α) (b : Checked β) : Checked (α × β) :=
  match a, b with
  | .ok x, .ok y => .ok (x, y)
  | .ok _, .error es => .error es
  | .error es, .ok _ => .error es
  | .error es, .error es' => .error (es ++ es')

/-- Fields merged with others; one that is there takes the new value in its place. -/
def mergeFields {α : Type} (fields : List (String × α)) : List (String × α) → List (String × α)
  | [] => fields
  | (k, v) :: rest =>
    mergeFields
      (if fields.any fun f => f.1 == k then fields.map fun f => if f.1 == k then (k, v) else f
        else fields ++ [(k, v)]) rest

/-- A mapping from texts, with a check of what it holds. Of keys that are read as the same text, the
last one counts. -/
def checkMapping {α : Type} (place : List String) (check : List String → Value → Checked α)
    (v : Value) : Checked (List (String × α)) :=
  match v.entries? with
  | none => .error [⟨place, .noMapping⟩]
  | some es => (allOf (fun (k, x) =>
      let here := place ++ [k.shown]
      bothOf (checkText (here ++ ["[key]"]) k) (check here x)) es).map (mergeFields [])

/-- A tag. -/
def checkTag (place : List String) (v : Value) : Checked RouteTag :=
  match v.entries? with
  | none => .error [⟨place, .noModel "RouteTag"⟩]
  | some _ =>
    let name := match v.get? "name" with
      | none => .error [⟨place ++ ["name"], .missing⟩]
      | some x => checkText (place ++ ["name"]) x
    let description := match v.get? "description" with
      | none | some .null => .ok none
      | some x => (checkText (place ++ ["description"]) x).map some
    (bothOf name description).map fun (n, d) => ⟨n, d⟩

/-- The settings of a field. -/
def checkRoute (place : List String) (v : Value) : Checked RouteConfig :=
  match v.entries? with
  | none => .error [⟨place, .noModel "RouteConfig"⟩]
  | some _ =>
    match v.get? "tags" with
    | none | some .null => .ok ⟨none⟩
    | some x => (checkTag (place ++ ["tags"]) x).map fun t => ⟨some t⟩

/-- An option by its spellings, the one that counts first. -/
def checkOption {α : Type} (entries : List (Value × Value)) (spellings : List String) (default : α)
    (check : List String → Value → Checked α) : Checked α :=
  let found := spellings.findSome? fun s =>
    (entries.find? fun (k, _) => k.text? == some s).map fun (_, v) => (s, v)
  match found with
  | some (s, v) => check [s] v
  | none => .ok default

/-- An option that is a text, as a value. -/
def checkTextValue (place : List String) (v : Value) : Checked Value :=
  (checkText place v).map .text

/-- The options of some entries, or all that is wrong with them. -/
def checkEntries (es : List (Value × Value)) : Checked Options :=
  let d := Options.standard
  let head := bothOf (checkOption es ["serverUrl", "server_url"] d.serverUrl checkTextValue)
    (bothOf (checkOption es ["title"] d.title checkTextValue)
      (bothOf (checkOption es ["openapi"] d.openapi checkText)
        (bothOf (checkOption es ["version"] d.version checkTextValue)
          (bothOf (checkOption es ["summary"] d.summary checkTextValue)
            (checkOption es ["description"] d.description checkTextValue)))))
  let values := checkOption es ["exampleValues", "example_values"] d.exampleValues
    fun place v => (checkMapping place (fun _ v => .ok v) v).map .named
  let routes := checkOption es ["routeMap", "route_map"] d.routeMap
    fun place => checkMapping place checkRoute
  let names := checkOption es ["includeOperationName", "include_operation_name"]
    d.includeOperationName fun place v => (checkBool place v).map .bool
  (bothOf head (bothOf values (bothOf routes names))).map
    fun ((serverUrl, title, openapi, version, summary, description), values, routes, names) =>
      ⟨serverUrl, title, openapi, version, summary, description, values, routes, names⟩

namespace Options

/-- The options that a value gives; each example value becomes one that all its places share. -/
def ofValue (v : Value) : Except OptionsError Options := do
  let entries ← entriesOf v
  let options ← (checkEntries entries).mapError .invalid
  return { options with exampleValues := (options.exampleValues.label v.labelBound).1 }

/-- A bound above all labels of the example values. -/
def labelBound (o : Options) : Nat := o.exampleValues.labelBound

/-- The options with every label of the example values raised. -/
def raise (n : Nat) (o : Options) : Options :=
  { o with exampleValues := o.exampleValues.raise n }

end Options

end GraphPaths
