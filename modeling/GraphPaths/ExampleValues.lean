import GraphPaths.Value.Same

/-!
# Example values

The values that stand for arguments in examples, by the name of the argument. Options hold them as a
checked mapping; where nobody checked them they may be anything, and `find?` says what becomes of the
search for a name then: a list or a text that holds the name gives no value for it.
-/

namespace GraphPaths

/-- Why a value cannot be had by a name. -/
inductive LookupError where
  /-- The name is an item of a list. -/
  | listItem
  /-- The name is part of a text. -/
  | textPart
  /-- A value of this kind holds nothing. -/
  | notSearchable (kindName : String)
deriving Repr, DecidableEq

/-- The message of an error. -/
def LookupError.message : LookupError → String
  | .listItem => "list indices must be integers or slices, not str"
  | .textPart => "string indices must be integers, not 'str'"
  | .notSearchable kindName => s!"argument of type '{kindName}' is not iterable"

/-- Example values. -/
inductive ExampleValues where
  /-- Values by the name of the argument. -/
  | named (values : List (String × Value))
  /-- Something that was put in their place without a check. -/
  | unchecked (value : Value)
deriving Repr, BEq, Inhabited

/-- Whether a text has a part. -/
def hasPart (part : List Char) : List Char → Bool
  | [] => part.isEmpty
  | c :: r => part.isPrefixOf (c :: r) || hasPart part r

namespace ExampleValues

/-- No example values. -/
def empty : ExampleValues := .named []

/-- The example values that a value holds, if it is a mapping from texts. -/
def ofValue (v : Value) : ExampleValues :=
  match v.fields? with
  | some fields => .named fields
  | none => .unchecked v

/-- The example values as data. -/
def toValue : ExampleValues → Value
  | .named values => .record values
  | .unchecked v => v

/-- The values by name, as far as they are known to be values by name. -/
def fields : ExampleValues → List (String × Value)
  | .named values => values
  | .unchecked _ => []

/-- The value for a name. -/
def find? (values : ExampleValues) (name : String) : Except LookupError (Option Value) :=
  match values with
  | .named values => .ok (values.lookup name)
  | .unchecked v =>
    if v.isEmpty then .ok none
    else match v with
      | .list xs => if xs.any fun x => x.same (.text name) then .error .listItem else .ok none
      | .text s => if hasPart name.toList s.toList then .error .textPart else .ok none
      | v => .error (.notSearchable v.typeName)

/-- The values, each one that all its places share, with labels from `next` on, and the first label
that is still free. -/
def label (next : Nat) : ExampleValues → ExampleValues × Nat
  | .named values =>
    let (labelled, free) := Value.label next values
    (.named labelled, free)
  | .unchecked v => (.unchecked v, next)

/-- A bound above all labels. -/
def labelBound (values : ExampleValues) : Nat :=
  (values.fields.map fun (_, v) => v.labelBound).max?.getD 0

/-- The values with every label raised. -/
def raise (n : Nat) : ExampleValues → ExampleValues
  | .named values => .named (values.map fun (k, v) => (k, v.raise n))
  | .unchecked v => .unchecked v

end ExampleValues

end GraphPaths
