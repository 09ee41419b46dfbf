import GraphPaths.Graphql.Document

/-!
# Errors of parts of a schema

A part of a schema may be marked as deprecated, with a reason, and a scalar may have the address of
its specification. Both are texts; `PartError` says why one cannot be had. What is wrong within the
fields of a type is told of the type.
-/

namespace GraphPaths

open Graphql (TypeExpr)

/-- What is wrong with an argument of a directive. -/
inductive PartFault where
  /-- The value is no text. -/
  | noText (argument value : String)
  | nullArgument (argument : String) (type : TypeExpr)
  | missingArgument (argument : String) (type : TypeExpr)
deriving Repr, DecidableEq

/-- The message about a value that excludes null and is null. -/
def nullMessage (type : TypeExpr) : String :=
  s!"Expected value of non-null type '{type.text}' not to be None."

/-- The message about a value that is no text. -/
def noTextMessage (value : String) : String :=
  "String cannot represent a non string value: " ++ value

/-- The message about a fault. -/
def PartFault.text : PartFault → String
  | .noText argument value => s!"Argument '{argument}' has invalid value: {noTextMessage value}"
  | .nullArgument argument type => s!"Argument '{argument}' has invalid value: {nullMessage type}"
  | .missingArgument argument type =>
    s!"Argument '{argument}' of required type '{type.text}' was not provided."

/-- A fault, the type whose fields it is in, and the lines around it. -/
structure PartError where
  fault : PartFault
  owner : Option String
  /-- Empty where no place is known. -/
  excerpt : String
deriving Repr, DecidableEq

/-- The message of an error. -/
def PartError.message (e : PartError) : String :=
  ((e.owner.map (· ++ " fields cannot be resolved. ")).getD "") ++ e.fault.text
    ++ if e.excerpt.isEmpty then "" else "\n\n" ++ e.excerpt

end GraphPaths
