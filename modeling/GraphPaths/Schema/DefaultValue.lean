import GraphPaths.Graphql.Notation
import GraphPaths.Number.Numeral
import GraphPaths.Schema
import GraphPaths.Text.Suggestion

/-!
# Default values

What an argument or an input field has as its default must be a value of its type. `literalFlaws`
lists what is wrong with a value and where in it: null where null is excluded, an object without a
field it must have or with one it cannot have, a leaf of another kind. A value that is no list counts
as a list of that value alone, and null is a value of every type that does not exclude it.

A type that is no input at all has no values to compare with: there is an error then (`NoLeaf`), unless
the value is null.
-/

namespace GraphPaths

open Graphql (TypeExpr Literal)

/-! ## Flaws -/

/-- A step into a value. -/
inductive ValueStep where
  | field (name : String)
  | item (index : Nat)
deriving Repr, DecidableEq

/-- The text of a step. -/
def ValueStep.text : ValueStep → String
  | .field name => "." ++ name
  | .item index => "[" ++ Text.decimal index ++ "]"

/-- What is wrong with a value. -/
inductive LiteralFault where
  | null (type : TypeExpr)
  | noObject (type value : String)
  | missingField (type field value : String)
  | unknownField (type field : String) (near : List String) (value : String)
  | notOneField (type : String)
  | noInt (value : String)
  | wideInt (value : String)
  | noFloat (value : String)
  | noText (value : String)
  | noBoolean (value : String)
  | noId (value : String)
  | noEnumValue (type value : String) (near : List String)
  | unknownEnumValue (type value : String) (near : List String)
  /-- A number that cannot be read. -/
  | unreadable (type value : String) (error : NumeralError)
deriving Repr, DecidableEq

/-- The question whether another value of an enumeration was meant. -/
def enumQuestion (near : List String) : String := Text.didYouMeanThe "the enum value " near

/-- The message about a fault. -/
def LiteralFault.message : LiteralFault → String
  | .null t => nullMessage t
  | .noObject t v => s!"Expected value of type '{t}' to be an object, found: {v}."
  | .missingField t f v =>
    s!"Expected value of type '{t}' to include required field '{f}', found: {v}."
  | .unknownField t f near v =>
    let question := if near.isEmpty then ", found" else "." ++ Text.didYouMean near ++ " Found"
    s!"Expected value of type '{t}' not to include unknown field '{f}'{question}: {v}."
  | .notOneField t =>
    s!"Within OneOf Input Object type '{t}', exactly one field must be specified, and the value for that field must be non-null."
  | .noInt v => "Int cannot represent non-integer value: " ++ v
  | .wideInt v => "Int cannot represent non 32-bit signed integer value: " ++ v
  | .noFloat v => "Float cannot represent non numeric value: " ++ v
  | .noText v => noTextMessage v
  | .noBoolean v => "Boolean cannot represent a non boolean value: " ++ v
  | .noId v => "ID cannot represent a non-string and non-integer value: " ++ v
  | .noEnumValue t v near =>
    s!"Enum '{t}' cannot represent non-enum value: {v}." ++ enumQuestion near
  | .unknownEnumValue t v near =>
    s!"Value '{v}' does not exist in '{t}' enum." ++ enumQuestion near
  | .unreadable t v e =>
    s!"Expected value of type '{t}', but encountered error '{e.message}'; found: {v}."

/-- A fault at a place inside a value. -/
structure LiteralFlaw where
  path : List ValueStep
  fault : LiteralFault
deriving Repr, DecidableEq

/-- The flaw as one of the value that a step leads to. -/
def LiteralFlaw.under (step : ValueStep) (f : LiteralFlaw) : LiteralFlaw :=
  { f with path := step :: f.path }

/-- A type that is neither a scalar nor an enumeration nor an input object was asked for its values. -/
structure NoLeaf where
  type : String
deriving Repr, DecidableEq

/-- The message of an error. -/
def NoLeaf.message (e : NoLeaf) : String := s!"Expected {e.type} to be a GraphQL leaf type."

/-! ## Scalars -/

mutual

/-- What is wrong with the numbers of a value whose kind does not matter. -/
def unreadable? : Literal → Option NumeralError
  | .int s => match Numeral.int 10 s with
    | .ok _ => none
    | .error e => some e
  | .list xs => unreadableItems xs
  | .object fields => unreadableFields fields
  | _ => none

/-- What is wrong with the numbers of the items of a list. -/
def unreadableItems : List Literal → Option NumeralError
  | [] => none
  | x :: xs => (unreadable? x).orElse fun _ => unreadableItems xs

/-- What is wrong with the numbers of the fields of an object. -/
def unreadableFields : List (String × Literal) → Option NumeralError
  | [] => none
  | (_, v) :: fs => (unreadable? v).orElse fun _ => unreadableFields fs

end

/-- What is wrong with a value as a scalar. -/
def scalarFault? (type : String) (l : Literal) : Option LiteralFault :=
  match type, l with
  | "Int", .int s =>
    match Numeral.int 10 s with
    | .ok i => if -2147483648 ≤ i ∧ i ≤ 2147483647 then none else some (.wideInt s)
    | .error e => some (.unreadable type s e)
  | "Int", l => some (.noInt l.text)
  | "Float", .int _ | "Float", .float _ => none
  | "Float", l => some (.noFloat l.text)
  | "String", .string _ | "String", .blockString _ => none
  | "String", l => some (.noText l.text)
  | "Boolean", .boolean _ => none
  | "Boolean", l => some (.noBoolean l.text)
  | "ID", .string _ | "ID", .blockString _ | "ID", .int _ => none
  | "ID", l => some (.noId l.text)
  | _, l => (unreadable? l).map (.unreadable type l.text)

/-- What is wrong with a value as one of an enumeration. -/
def enumFault? (type : String) (values : List String) (l : Literal) : Option LiteralFault :=
  let near := fun (shown : String) => Text.suggestions shown values
  match l with
  | .enumeration v =>
    if values.contains v then none else some (.unknownEnumValue type v (near v))
  | l => some (.noEnumValue type l.text (near l.text))

/-! ## Values -/

/-- What is found wrong with a value. -/
abbrev LiteralFlaws := Except NoLeaf (List LiteralFlaw)

/-- A flaw of the value itself, if there is one. -/
def flawHere (fault : Option LiteralFault) : LiteralFlaws :=
  .ok (fault.toList.map fun f => ⟨[], f⟩)

/-- What is wrong with the values of the fields of an object, in the order of the fields of its type. -/
def knownFieldFlaws (type value : String) (given : List (String × LiteralFlaws)) :
    List SchemaInput → LiteralFlaws
  | [] => .ok []
  | f :: fs => do
    let own ← match given.lookup f.name with
      | some flaws => flaws.map (List.map (LiteralFlaw.under (.field f.name)))
      | none => .ok (if f.isRequired then [⟨[], .missingField type f.name value⟩] else [])
    return own ++ (← knownFieldFlaws type value given fs)

/-- What is wrong with the names of the fields of an object. -/
def unknownFieldFlaws (type value : String) (names given : List String) : List LiteralFlaw :=
  (given.filter fun n => !names.contains n).map fun n =>
    ⟨[], .unknownField type n (Text.suggestions n names) value⟩

/-- What is wrong with an object of which exactly one field is to be given. -/
def oneOfFlaws (type : String) (names : List String) (given : List (String × Literal)) :
    List LiteralFlaw :=
  match given.filter fun (n, _) => names.contains n with
  | [(n, .null)] => [⟨[.field n], .notOneField type⟩]
  | [_] => []
  | _ => [⟨[], .notOneField type⟩]

/-- The inner type of a list type that may exclude null. -/
def itemType? : TypeExpr → Option TypeExpr
  | .list t => some t
  | .nonNull t => itemType? t
  | .named _ => none

/-- What is wrong with a value that is no object of a named type. -/
def leafFlaws (s : Schema) (type : String) (l : Literal) : LiteralFlaws :=
  match s.shape? type with
  | some .scalar => flawHere (scalarFault? type l)
  | some (.enumeration values _) => flawHere (enumFault? type values l)
  | some (.inputObject ..) => flawHere (some (.noObject type l.text))
  | _ => .error ⟨type⟩

mutual

/-- What is wrong with a value of a type. -/
def literalFlaws (s : Schema) (type : TypeExpr) : Literal → LiteralFlaws
  | .null => flawHere (if type.isNonNull then some (.null type) else none)
  | .list xs =>
    match itemType? type with
    | some item => itemFlaws s item 0 xs
    | none => leafFlaws s type.leaf (.list xs)
  | .object given =>
    match s.shape? type.leaf with
    | some (.inputObject isOneOf fields) => do
      let value := (Literal.object given).text
      let names := fields.map SchemaInput.name
      let known ← knownFieldFlaws type.leaf value (givenFlaws s fields given) fields
      return known ++ unknownFieldFlaws type.leaf value names (given.map Prod.fst)
        ++ if isOneOf then oneOfFlaws type.leaf names given else []
    | _ => leafFlaws s type.leaf (.object given)
  | l => leafFlaws s type.leaf l

/-- What is wrong with the items of a list, the first of which has the number `index`. -/
def itemFlaws (s : Schema) (item : TypeExpr) (index : Nat) : List Literal → LiteralFlaws
  | [] => .ok []
  | x :: xs => do
    let own ← literalFlaws s item x
    return own.map (LiteralFlaw.under (.item index)) ++ (← itemFlaws s item (index + 1) xs)

/-- What is wrong with the value of each given field. -/
def givenFlaws (s : Schema) (fields : List SchemaInput) :
    List (String × Literal) → List (String × LiteralFlaws)
  | [] => []
  | (n, v) :: rest =>
    let own := match fields.find? fun f => f.name == n with
      | some f => literalFlaws s f.type v
      | none => .ok []
    (n, own) :: givenFlaws s fields rest

end

end GraphPaths
