import GraphPaths.Schema.Build
import GraphPaths.Transform

/-!
# A workbench

Work on a document step by step: a schema, options, an assembler that keeps the options it was made
with, examples, and the last document. A step that fails leaves the bench as it was. Example values of
different options never count as the same one: each set gets labels above all earlier ones.
-/

namespace GraphPaths

/-- What is on the bench. -/
structure Workbench where
  schema : Option Schema
  options : Options
  /-- The options of the assembler. -/
  assembler : Options
  examples : Examples
  document : Value
  /-- A bound above all labels in use. -/
  labels : Nat

/-- Why options cannot be changed. -/
inductive ChangeError where
  /-- What is set has not the parts that options need. -/
  | parts
deriving Repr, DecidableEq

namespace Workbench

/-- An empty bench. -/
def empty : Workbench := ⟨none, .standard, .standard, [], .map [], 0⟩

/-- The bench with other options. -/
def setOptions (w : Workbench) (o : Options) : Workbench :=
  let o := o.raise w.labels
  { w with options := o, labels := max w.labels o.labelBound }

/-- Options with some replaced without a check, by their names in the order of the entries. -/
def replaceOptions (o : Options) : List (String × Value) → Except ChangeError Options
  | [] => .ok o
  | (key, v) :: rest => do
    let changed ← match key, v with
      | "server_url", v => .ok { o with serverUrl := v }
      | "title", v => .ok { o with title := v }
      | "openapi", .text s => .ok { o with openapi := s }
      | "openapi", _ => .error .parts
      | "version", v => .ok { o with version := v }
      | "summary", v => .ok { o with summary := v }
      | "description", v => .ok { o with description := v }
      | "example_values", v =>
        .ok { o with exampleValues := ((ExampleValues.ofValue v).label 0).1 }
      | "route_map", .map [] => .ok { o with routeMap := [] }
      | "route_map", _ => .error .parts
      | "include_operation_name", v => .ok { o with includeOperationName := v }
      | _, _ => .ok o
    replaceOptions changed rest

/-- The bench with some options replaced without a check. -/
def changeOptions (w : Workbench) (changes : List (String × Value)) :
    Except ChangeError Workbench := do
  let fresh ← replaceOptions { w.options with exampleValues := .empty } changes
  if changes.any fun (k, _) => k == "example_values" then return w.setOptions fresh
  else return { w with options := { fresh with exampleValues := w.options.exampleValues } }

/-- The bench with an assembler for its options. -/
def startAssembler (w : Workbench) : Workbench := { w with assembler := w.options }

/-- The bench with examples of its schema; with `merge` those it has stay unless replaced. -/
def addExamples (w : Workbench) (values : Option ExampleValues) (kinds : Kinds)
    (merge : Bool) : Job ExampleError Workbench := do
  let (values, labels) := match values with
    | some values => values.label w.labels
    | none => (w.options.exampleValues, w.labels)
  match w.schema with
  | none => do
    let _ ← Job.ofExcept (requestedKinds kinds)
    throw .noFields
  | some s => do
    let new ← buildExamples s.roots values kinds w.options.namesOperation
    return { w with examples := if merge then w.examples.merge new else new, labels }

/-- The bench with an example under a key. -/
def putExample (w : Workbench) (key : String) (e : Example) : Workbench :=
  { w with examples := w.examples.put key e }

/-- The bench without the example under a key, if there is one. -/
def dropExample (w : Workbench) (key : String) : Option Workbench :=
  if (w.examples.lookup key).isSome then
    some { w with examples := w.examples.filter fun (k, _) => k != key }
  else none

/-- The bench with the document of its examples, and the document. -/
def assembleDocument (w : Workbench) : Job AssembleError (Workbench × ApiDocument) := do
  let d ← assemble w.assembler w.examples
  return ({ w with document := d.toValue }, d)

end Workbench

end GraphPaths
