import GraphPaths.Number.Binary64
import GraphPaths.TypeRef
import GraphPaths.Value.Same

/-!
# Mock responses

An example shows a response with fixed values: four scalars have one when they stand bare, all else
is null. An object shows each of its fields (`mockResponse`).
-/

namespace GraphPaths

/-- The values of bare scalars, by the text of the type. -/
def mockScalars : List (String × Value) :=
  [("String", .text "Sample string"), ("Int", .int 123),
   ("Float", .float (Binary64.ofRatio false 12345 100)), ("Boolean", .bool true)]

/-- The value of a type. -/
def TypeRef.mock (t : TypeRef) : Value :=
  if t.isScalarLike then (mockScalars.lookup t.text).getD .null else .null

/-- The data of a field of a type: the fields of an object, else the field itself. -/
def TypeRef.mockData (t : TypeRef) (field : String) : Value :=
  if t.isScalarLike then .record [(field, t.mock)]
  else match t with
    | .object _ fields => .map (Value.ofEntries (fields.map fun (k, u) => (.text k, u.mock)))
    | _ => .record [(field, .map [])]

/-- The response to a field of a type. -/
def mockResponse (t : TypeRef) (field : String) : Value := .record [("data", t.mockData field)]

end GraphPaths
