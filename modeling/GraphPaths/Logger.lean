import GraphPaths.Console
import GraphPaths.Log
import GraphPaths.Template

/-!
# Loggers

A logger takes records and, unless it is the root of all loggers, shows text on the console. It is asked
by the name of a method and values: `Logger.call` gives what is shown, or a `CallError` that tells what
is wrong with the method, with the number of values, or with a message and the values for its places.

Loggers are told apart by their names. The records of the program are those of its own logger,
`Logger.program`, and of the loggers whose names continue its name after a point; a record below the
level of its logger is dropped before its message is made.
-/

namespace GraphPaths

/-- A logger. -/
inductive Logger where
  | root
  | named (name : String)
deriving Repr, DecidableEq, Inhabited

/-- The values that a method takes. -/
structure Parameters where
  /-- The method with the name of its owner. -/
  method : String
  /-- The names of the values that it needs. -/
  needed : List String
  /-- How many values more it takes, if there is a bound to them. -/
  further : Option Nat
deriving Repr, DecidableEq

/-- Why a logger cannot do what it is asked. -/
inductive CallError where
  /-- It has no such method. -/
  | unknown
  /-- Values are missing. -/
  | missing (method : String) (names : List String)
  /-- There are more values than the method takes. -/
  | surplus (parameters : Parameters) (given : Nat)
  /-- The level of a record is no integer. -/
  | level
  /-- The name of a logger is no text. -/
  | name
  | template (error : TemplateError)
  | json (error : Json.WriteError)
deriving Repr, DecidableEq

/-- The message of an error; a method's receiver counts among its values. -/
def CallError.message : CallError → String
  | .unknown => ""
  | .missing method names =>
    let shown := " and ".intercalate (names.map fun n => "'" ++ n ++ "'")
    let noun := if names.length == 1 then "argument" else "arguments"
    s!"{method}() missing {Text.decimal names.length} required positional {noun}: {shown}"
  | .surplus p given =>
    let least := Text.decimal (p.needed.length + 1)
    let taken := match p.further with
      | none | some 0 => least
      | some n => s!"from {least} to {Text.decimal (p.needed.length + 1 + n)}"
    s!"{p.method}() takes {taken} positional arguments but {Text.decimal (given + 1)} were given"
  | .level => "level must be an integer"
  | .name => "A logger name must be a string"
  | .template e => e.message
  | .json e => e.message

/-- Whether values are as many as a method takes. -/
def Parameters.check (p : Parameters) (values : List Value) : Except CallError Unit := do
  let missing := p.needed.drop values.length
  if !missing.isEmpty then throw (.missing p.method missing)
  match p.further with
  | some n => if p.needed.length + n < values.length then throw (.surplus p values.length)
  | none => pure ()

namespace Logger

/-! ## Names and levels -/

/-- The name of the root. -/
def rootName : String := "root"

/-- The logger with a name; no name is the root's. -/
def ofName (name : String) : Logger :=
  if name.isEmpty || name == rootName then .root else .named name

/-- The logger whose name is a value; an empty value is no name. -/
def ofValue (v : Value) : Except CallError Logger :=
  match v.bare with
  | .text n => .ok (ofName n)
  | v => if v.isEmpty then .ok .root else .error .name

/-- The name of a logger. -/
def name : Logger → String
  | .root => rootName
  | .named n => n

/-- The logger of the program. -/
def program : Logger := .named "gql2openapi"

/-- The level that a logger starts with. -/
def level : Logger → LogLevel
  | .root => .warning
  | .named _ => .info

/-- Whether the records of a logger are among those of the program. -/
def isProgram (l : Logger) : Bool :=
  l == program || ((program.name ++ ".").isPrefixOf l.name && l != .root)

/-! ## Methods -/

/-- The methods that add a record of a level. -/
def recordMethods : List (String × LogLevel) :=
  [("debug", .debug), ("info", .info), ("warning", .warning), ("warn", .warning),
   ("error", .error), ("exception", .error), ("critical", .critical), ("fatal", .critical)]

/-- The values that a method takes: first the methods that show something, then those for records. -/
def parameters? (l : Logger) (method : String) : Option Parameters :=
  let shows := fun (needed : List String) (further : Nat) =>
    match l with
    | .root => none
    | .named _ => some ⟨"GQL2OpenAPILogger." ++ method, needed, some further⟩
  match method with
  | "print" | "success" | "hint" => shows ["message"] 0
  | "rule" => shows ["title"] 1
  | "print_dict" => shows ["data"] 0
  | "key_value" => shows ["key", "value"] 1
  | "list_item" => shows ["text"] 1
  | "log" => some ⟨"Logger.log", ["level", "msg"], none⟩
  | _ => (recordMethods.lookup method).map fun _ => ⟨"Logger." ++ method, ["msg"], none⟩

/-- A record of a level: its message with values in its places. The logger of the program keeps
records from `floor` on. What is wrong with a message for the root counts for nothing. -/
def record (l : Logger) (floor : LogLevel) (level : LogLevel) (message : Value)
    (values : List Value) : Job CallError Unit := do
  let least := if l == program then floor else l.level
  if least.number ≤ level.number && l != .root then
    let text ← Job.ofExcept ((Template.fill message.shown values).mapError .template)
    if l.isProgram then Job.log level text

/-- What is shown by a method that shows something. -/
def show? (method : String) (values : List Value) : Option (Except CallError Shown) :=
  match method, values with
  | "print_dict", [v] => some ((Shown.data v).mapError .json)
  | _, _ =>
    match method, values.map Value.shown with
    | "print", [m] => some (.ok (.line m))
    | "success", [m] => some (.ok (.success m))
    | "hint", [m] => some (.ok (.hint m))
    | "rule", [t] => some (.ok (.titled t titleStyle))
    | "rule", [t, s] => some (.ok (.titled t s))
    | "key_value", [k, v] => some (.ok (.keyValue k v "dim"))
    | "key_value", [k, v, s] => some (.ok (.keyValue k v s))
    | "list_item", [t] => some (.ok (.item t "-"))
    | "list_item", [t, m] => some (.ok (.item t m))
    | _, _ => none

/-- The level that a value is. -/
def levelOf (v : Value) : Except CallError LogLevel :=
  match v.bare with
  | .int i => .ok ⟨i⟩
  | .bool b => .ok ⟨if b then 1 else 0⟩
  | _ => .error .level

/-- What is shown when a logger is asked. -/
def call (l : Logger) (floor : LogLevel) (method : String) (values : List Value) :
    Job CallError (List Shown) := do
  match l.parameters? method with
  | none => throw .unknown
  | some p =>
    Job.ofExcept (p.check values)
    match show? method values, recordMethods.lookup method, values with
    | some shown, _, _ => return [← Job.ofExcept shown]
    | none, some level, message :: values =>
      l.record floor level message values
      return []
    | none, none, level :: message :: values =>
      l.record floor (← Job.ofExcept (levelOf level)) message values
      return []
    | none, _, _ => throw .unknown

end Logger

end GraphPaths
