import GraphPaths.Export

/-!
# Listing operations

`listOperations` shows the operations that an export of a schema has, kind by kind, each with the
request of its example, and then how many types of which sort the schema has.
-/

namespace GraphPaths

/-- The lines about a kind of operations: their number, and each with its request. -/
def listKind (examples : Examples) (kind : OperationKind) : List Shown :=
  let own := examples.filter fun (_, e) => e.kind == kind
  .keyValue kind.keyword (Text.decimal own.length) "dim" :: own.map fun (name, e) =>
    let query := ((e.request.get? "query").map Value.shown).getD ""
    .item (escapeMarkup s!"/{name}: {query}") "-"

/-- What is shown about the operations of the schema in some files. -/
def listOperations (t : FileTree) (schemas : List FilePath) (operations : List String) :
    Job CommandError (List Shown) := do
  let s ← (loadSchema t schemas).mapError .schemaFiles
  let examples ← (buildExamples s.roots .empty (kindsOf operations) false).mapError .examples
  let counts ← Job.ofExcept ((Shown.data s.counts.toValue).mapError fun e =>
    .transform (.serialize (.json e)))
  return [.titled "GraphQL Schema Operations" titleStyle]
    ++ OperationKind.all.flatMap (listKind examples)
    ++ [.titled "GraphQL Schema Type Counts" titleStyle, counts]

end GraphPaths
