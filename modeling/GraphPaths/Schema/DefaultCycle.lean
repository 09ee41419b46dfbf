import GraphPaths.Schema

/-!
# Defaults that refer to themselves

An object that leaves out a field with a default holds that default, which may again leave out fields.
A field whose default comes to hold the field's own default has no finite value. `searchType` starts
from the empty object of an input type and follows the defaults; every field is followed once.
-/

namespace GraphPaths

open Graphql (Literal)

/-- A field of an input type whose default holds itself, and the fields whose defaults lie between. -/
structure DefaultCycle where
  field : String
  via : List String
deriving Repr, DecidableEq

/-- The fields that were followed, and the circles found. -/
structure DefaultSearch where
  seen : List String
  found : List DefaultCycle
deriving Repr, DecidableEq

/-- A stage of a search. -/
abbrev SearchStep := DefaultSearch → DefaultSearch

/-- The input type that a field's values hold, if it is one. -/
def SchemaInput.inputType? (s : Schema) (f : SchemaInput) : Option String :=
  match s.kind? f.type.leaf with
  | some .inputObject => some f.type.leaf
  | _ => none

/-- The fields of an input type. -/
def Schema.inputFields (s : Schema) (type : String) : List SchemaInput :=
  match s.shape? type with
  | some (.inputObject _ fields) => fields
  | _ => []

/-- Looks at every field of an input type: a given one by its own step, another by its default. -/
def searchFields (s : Schema) (follow : String → SchemaInput → SearchStep) (type : String)
    (given : List (String × SearchStep)) : SearchStep := fun search =>
  (s.inputFields type).foldl (fun search f =>
    if (f.inputType? s).isNone then search
    else match given.lookup f.name with
      | some step => step search
      | none => follow type f search) search

mutual

/-- Looks at a value of an input type. -/
def searchLiteral (s : Schema) (follow : String → SchemaInput → SearchStep) (type : String) :
    Literal → SearchStep
  | .list xs => searchItems s follow type xs
  | .object given => searchFields s follow type (givenSteps s follow type given)
  | _ => id

/-- Looks at the items of a list. -/
def searchItems (s : Schema) (follow : String → SchemaInput → SearchStep) (type : String) :
    List Literal → SearchStep
  | [] => id
  | x :: xs => fun search => searchItems s follow type xs (searchLiteral s follow type x search)

/-- The step for each given field. -/
def givenSteps (s : Schema) (follow : String → SchemaInput → SearchStep) (type : String) :
    List (String × Literal) → List (String × SearchStep)
  | [] => []
  | (n, v) :: rest =>
    let target := ((s.inputFields type).find? fun f => f.name == n).bind (·.inputType? s)
    let step := match target with
      | some t => searchLiteral s follow t v
      | none => id
    (n, step) :: givenSteps s follow type rest

end

/-- Follows the default of a field; `path` holds the fields on the way here, the first one first. -/
def followDefault (s : Schema) : Nat → List String → String → SchemaInput → SearchStep
  | 0, _, _, _, search => search
  | fuel + 1, path, type, f, search =>
    match f.default, f.inputType? s with
    | some value, some target =>
      let name := type ++ "." ++ f.name
      match path.findIdx? (· == name) with
      | some i => { search with found := search.found ++ [⟨name, path.drop (i + 1)⟩] }
      | none =>
        if search.seen.contains name then search
        else searchLiteral s (followDefault s fuel (path ++ [name])) target value
          { search with seen := name :: search.seen }
    | _, _ => search

/-- The number of fields of all input types, more than which cannot be followed one after another. -/
def Schema.inputFieldCount (s : Schema) : Nat :=
  s.types.foldl (fun n t => n + (s.inputFields t.name).length) 0

/-- The search for circles of defaults that an object of an input type leads to. -/
def searchType (s : Schema) (type : String) : SearchStep :=
  searchFields s (followDefault s (s.inputFieldCount + 1) []) type []

end GraphPaths
