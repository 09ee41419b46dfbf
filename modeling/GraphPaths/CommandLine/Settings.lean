import GraphPaths.CommandLine.Arguments
import GraphPaths.FileTree
import GraphPaths.Text.Blank
import GraphPaths.Text.Case

/-!
# Settings

The values of the parameters of a command: from the arguments, else from an environment variable that
is named for the command and the parameter and is not empty, else the default. Shortcuts are looked at
first, then parameters in the order in which they were given, then the others in theirs, and the first
error counts. `settle` gives the settings or says why there are none.
-/

namespace GraphPaths

namespace CommandLine

/-- The values of parameters, by name; a parameter without a value has none. -/
abbrev Settings := List (String × List String)

/-- Why a command does not run. -/
inductive Halt where
  | usage (error : UsageError)
  | shortcut (shortcut : Shortcut)
deriving Repr, DecidableEq

namespace Settings

/-- All values of a parameter. -/
def all (s : Settings) (name : String) : List String := (s.lookup name).getD []

/-- The value of a parameter. -/
def one? (s : Settings) (name : String) : Option String := (s.all name).head?

/-- Whether a switch is on. -/
def isOn (s : Settings) (name : String) : Bool := !(s.all name).isEmpty

end Settings

/-! ## Values -/

/-- Whether something is where a text leads to: a directory or not. A text that ends in a slash or in
the name `.` leads to a directory only. -/
def directoryAt? (t : FileTree) (text : String) : Option Bool :=
  let p := FilePath.parse text
  let last := ((Text.splitAt '/' text.toList).getLast?).getD []
  if text.isEmpty then none
  else if t.isDirectory p then some true
  else if t.isFile p && !last.isEmpty && last != ['.'] then some false
  else none

/-- The value of a parameter that a text is; a switch that is off has no value. -/
def convert (t : FileTree) (kind : ParameterKind) (text : String) :
    Except ValueFault (Option String) :=
  match kind with
  | .text => .ok (some text)
  | .choice names =>
    match names.find? fun n => Text.fold n == Text.fold text with
    | some n => .ok (some n)
    | none => .error (.notChoice (names.map Text.fold))
  | .path mustExist allowDirectory =>
    match directoryAt? t text with
    | none =>
      if mustExist then .error (if allowDirectory then .noPath else .noFile) else .ok (some text)
    | some isDirectory =>
      if isDirectory && !allowDirectory then .error .isDirectory else .ok (some text)
  | .switch =>
    match switchWords.lookup (Text.lower (String.ofList (Text.strip text.toList))) with
    | some b => .ok (if b then some text else none)
    | none => .error .notBool

/-- The texts that an environment variable gives: for a parameter that may be given more than once
several, with colons between paths and blanks between others. -/
def splitVariable (p : Parameter) (text : String) : List String :=
  if p.many then
    match p.kind with
    | .path .. => (Text.splitAt ':' text.toList).map String.ofList
    | _ => (Text.words text.toList).map String.ofList
  else [text]

/-- The name of the environment variable of a parameter of a command. -/
def variableName (command : List String) (p : Parameter) : String :=
  String.ofList (("_".intercalate ((command ++ [p.name]).map Text.upper)).toList.map
    fun c => if c == '-' then '_' else c)

/-- The texts of a parameter that was not given. -/
def ungiven (env : List (String × String)) (command : List String) (p : Parameter) : List String :=
  match env.lookup (variableName command p) with
  | some text => if text.isEmpty then p.default.toList else splitVariable p text
  | none => p.default.toList

/-- The values of a parameter, from the values it was given. -/
def valuesOf (t : FileTree) (env : List (String × String)) (command : List String) (p : Parameter)
    (given : List String) : Except UsageError (List String) :=
  if p.kind == .switch && !given.isEmpty then .ok ["true"]
  else do
    let texts := if given.isEmpty then ungiven env command p
      else if p.many then given else given.getLast?.toList
    let values ← texts.mapM fun text =>
      (convert t p.kind text).mapError fun fault => .badValue p text fault
    let values := values.filterMap id
    if p.required && values.isEmpty then throw (.missing p)
    return values

/-! ## Order -/

/-- Items without repetitions, each in its first place. -/
def firsts (ps : List Parameter) : List Parameter :=
  ps.foldl (fun acc p => if acc.contains p then acc else acc ++ [p]) []

/-- The parameters of a command in the order in which they are looked at. -/
def inspectionOrder (ps : List Parameter) (given : List Given) : List Parameter :=
  let order := firsts (given.map Prod.fst ++ ps)
  order.filter (·.shortcut.isSome) ++ order.filter (·.shortcut.isNone)

/-- The settings of a command from what was given. -/
def settingsOf (t : FileTree) (env : List (String × String)) (command : List String)
    (given : List Given) : List Parameter → Except Halt Settings
  | [] => .ok []
  | p :: rest => do
    let texts := (given.filter fun g => g.1 == p).map Prod.snd
    let values ← (valuesOf t env command p texts).mapError .usage
    match p.shortcut, values with
    | some s, _ :: _ => throw (.shortcut s)
    | _, _ => do
      let settings ← settingsOf t env command given rest
      return (p.name, values) :: settings

/-- The settings of a command and its other arguments. -/
def settle (t : FileTree) (env : List (String × String)) (command : List String)
    (ps : List Parameter) (mixed : Bool) (args : List String) :
    Except Halt (Settings × List String) := do
  let (given, others) ← (readArguments ps mixed args).mapError .usage
  let settings ← settingsOf t env command given (inspectionOrder ps given)
  return (settings, others)

/-- The settings of a command that takes no other arguments. -/
def settleAll (t : FileTree) (env : List (String × String)) (command : List String)
    (ps : List Parameter) (args : List String) : Except Halt Settings := do
  let (settings, others) ← settle t env command ps true args
  if others.isEmpty then return settings else throw (.usage (.extraArguments others))

/-! ## Groups -/

/-- The settings of a command that groups others, the one of them that is named, and its arguments. A
name that starts with a dash, which `--` in front allows, is read as a parameter once more. -/
def settleGroup (t : FileTree) (env : List (String × String)) (command : List String)
    (ps : List Parameter) (commands : List String) (args : List String) :
    Except Halt (Settings × String × List String) := do
  if args.isEmpty then throw (.usage .nothingGiven)
  let (settings, others) ← settle t env command ps false args
  match others with
  | [] => throw (.usage .missingCommand)
  | name :: rest =>
    if commands.contains name then return (settings, name, rest)
    if "-".isPrefixOf name then discard (settle t env command ps false others)
    throw (.usage (.noCommand name (Text.nearest name commands)))

end CommandLine

end GraphPaths
