import GraphPaths.ExampleValues
import GraphPaths.Schema
import GraphPaths.Text.Blank
import GraphPaths.Text.Case

/-!
# Operations

The two kinds of operations that paths are made for, and the text that asks for one field. Every
argument becomes a variable of its name and type.
-/

namespace GraphPaths

/-- The kinds of operations that have paths. -/
inductive OperationKind where
  | query
  | mutation
deriving Repr, DecidableEq, Inhabited

namespace OperationKind

/-- The keyword of a kind. -/
def keyword : OperationKind → String
  | .query => "query"
  | .mutation => "mutation"

/-- All kinds, in the order of their paths. -/
def all : List OperationKind := [.query, .mutation]

/-- The kind with a name, without regard to letter case and to white space around it. -/
def ofText? (text : String) : Option OperationKind :=
  all.find? fun k => k.keyword == Text.lower (String.ofList (Text.strip text.toList))

/-- The operation whose root a kind starts from. -/
def operation : OperationKind → Graphql.OperationType
  | .query => .query
  | .mutation => .mutation

end OperationKind

/-- The text in parentheses, or nothing for no parts. -/
def parenthesized (parts : List String) : String :=
  if parts.isEmpty then "" else "(" ++ ", ".intercalate parts ++ ")"

/-- The text that asks for a field. -/
def operationText (kind : OperationKind) (name : String) (arguments : List SchemaInput) : String :=
  let declared := arguments.map fun a => "$" ++ a.name ++ ": " ++ a.type.text
  let uses := arguments.map fun a => a.name ++ ": $" ++ a.name
  kind.keyword ++ " " ++ name ++ parenthesized declared ++ " \x7b " ++ name ++ parenthesized uses
    ++ " \x7d"

/-- The value of a variable for which no example value is known. -/
def defaultVariable : Value := .text "value"

/-- The variables of a field: for each argument its example value, or the default. -/
def variableValues (arguments : List SchemaInput) (values : ExampleValues) :
    Except LookupError (List (String × Value)) :=
  arguments.mapM fun a => do return (a.name, (← values.find? a.name).getD defaultVariable)

end GraphPaths
