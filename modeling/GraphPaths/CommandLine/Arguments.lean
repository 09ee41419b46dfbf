import GraphPaths.CommandLine.Parameter
import GraphPaths.Text.Similarity

/-!
# Arguments

`readArguments` finds the parameters among the arguments of a command. A long spelling takes its value
from behind an equals sign or from the next argument, and short ones may stand together in one
argument, the last with its value. After `--` nothing is a parameter; in a command that only groups
others nothing is one after the first argument of another form.
-/

namespace GraphPaths

namespace CommandLine

/-- A parameter found among arguments, with its value; a switch has none. -/
abbrev Given := Parameter × String

/-- Parameters that were found, and the arguments left. -/
abbrev Found := Except UsageError (List Given × List String)

/-- The parameter with a spelling. -/
def findParameter (ps : List Parameter) (spelling : String) : Option Parameter :=
  ps.find? fun p => p.spellings.contains spelling

/-- A parameter with the next argument as its value. -/
def withNext (p : Parameter) (spelling : String) (rest : List String) : Found :=
  match rest with
  | value :: rest => .ok ([(p, value)], rest)
  | [] => .error (.needsArgument spelling)

/-- The parameters with short spellings that stand together in an argument. -/
def readShort (ps : List Parameter) : List Char → List String → Found
  | [], rest => .ok ([], rest)
  | c :: more, rest =>
    let spelling := String.ofList ['-', c]
    match findParameter ps spelling with
    | none => .error (.noParameter spelling [])
    | some p =>
      if p.kind == .switch then
        (readShort ps more rest).map fun (given, rest) => ((p, "") :: given, rest)
      else if more.isEmpty then withNext p spelling rest
      else .ok ([(p, String.ofList more)], rest)

/-- The part of an argument before an equals sign, and the part after it if there is one. -/
def splitValue (arg : String) : String × Option String :=
  let cs := arg.toList
  let before := String.ofList (cs.takeWhile (· != '='))
  match cs.dropWhile (· != '=') with
  | [] => (before, none)
  | _ :: value => (before, some (String.ofList value))

/-- Whether a spelling is a long one. -/
def isLongSpelling (spelling : String) : Bool := "--".isPrefixOf spelling

/-- The error of a long spelling that no parameter has. -/
def unknownSpelling (ps : List Parameter) (spelling : String) : UsageError :=
  let known := (ps.flatMap (·.spellings)).filter isLongSpelling
  .noParameter spelling (Text.nearest spelling known)

/-- The parameters in an argument that starts with a dash. -/
def readOne (ps : List Parameter) (arg : String) (rest : List String) : Found :=
  let (spelling, value) := splitValue arg
  let isLong := isLongSpelling arg
  match if isLong then findParameter ps spelling else none with
  | some p =>
    match p.kind == .switch, value with
    | true, none => .ok ([(p, "")], rest)
    | true, some _ => .error (.takesNoValue spelling)
    | false, some v => .ok ([(p, v)], rest)
    | false, none => withNext p spelling rest
  | none =>
    if isLong then .error (unknownSpelling ps spelling)
    else readShort ps (arg.toList.drop 1) rest

/-- Whether an argument holds parameters. -/
def startsWithDash (arg : String) : Bool := "-".isPrefixOf arg && 1 < arg.length

/-- The parameters among arguments, and the others; `mixed` says whether parameters may follow
others. -/
def readFrom (ps : List Parameter) (mixed : Bool) : Nat → List String → Found
  | 0, args => .ok ([], args)
  | _, [] => .ok ([], [])
  | fuel + 1, arg :: rest =>
    if arg == "--" then .ok ([], rest)
    else if startsWithDash arg then do
      let (given, rest) ← readOne ps arg rest
      let (more, others) ← readFrom ps mixed fuel rest
      return (given ++ more, others)
    else if mixed then
      (readFrom ps mixed fuel rest).map fun (given, others) => (given, arg :: others)
    else .ok ([], arg :: rest)

/-- The parameters among the arguments of a command, and the other arguments. -/
def readArguments (ps : List Parameter) (mixed : Bool) (args : List String) : Found :=
  readFrom ps mixed args.length args

end CommandLine

end GraphPaths
