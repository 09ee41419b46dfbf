import GraphPaths.CommandLine

/-!
# The program

The outer layer: it takes in the files that the arguments and the environment name, lets
`CommandLine.run` decide what comes of them, and then writes the files that changed and shows the rest.
-/

namespace GraphPaths

namespace Program

open CommandLine (programName variableName)

/-- The environment variables that can hold the value of a parameter. -/
def variableNames : List String :=
  CommandLine.rootParameters.map (variableName [programName])
    ++ CommandLine.commands.flatMap fun c =>
      variableName [programName, c.group] .help
        :: c.parameters.map (variableName [programName, c.group, c.name])

/-- The texts in an argument or a variable that may be paths: all of it, the part after an equals
sign, the part after a short spelling, and the parts between colons. -/
def pathTexts (text : String) : List String :=
  let cs := text.toList
  let value := (CommandLine.splitValue text).2.toList
  ([text, String.ofList (cs.drop 2)] ++ value
    ++ (Text.splitAt ':' cs).map String.ofList).filter (!·.isEmpty)

/-- The bytes of a file. -/
def readBytes (path : String) : IO (List Nat) := do
  return (← IO.FS.readBinFile path).toList.map UInt8.toNat

/-- Whether a link stands at a path. -/
def isLink (p : FilePath) : IO Bool := do
  match ← ((← IO.currentDir) / p.text).symlinkMetadata.toBaseIO with
  | .ok data => return data.type == .symlink
  | .error _ => return false

/-- The tree with what stands at a path: a link with what it leads to, a directory, or a file; of
files that are no documents only the names count. A link that leads nowhere is taken as one to
itself. -/
def takePlace (t : FileTree) (p : FilePath) (isRead : Bool) : IO FileTree := do
  let here := (← IO.currentDir) / p.text
  let mut t := t
  let mut place := p
  if ← isLink p then
    if ← here.pathExists then place := FilePath.parse (← IO.FS.realPath here).toString
    t := t.addLink p place
  if ← here.isDir then return t.addDirectory place
  if !(← here.pathExists) || t.isFile place && !isRead then return t
  return t.addFile place (← if isRead then readBytes p.text else pure [])

/-- The tree with what a directory holds, a given number of levels deep and not behind links. -/
def takeDirectory (t : FileTree) (p : FilePath) : Nat → IO FileTree
  | 0 => return t
  | depth + 1 => do
    let here := (← IO.currentDir) / p.text
    let mut t := t
    for entry in ← here.readDir do
      let q := p.child entry.fileName
      t ← takePlace t q (isDocumentName q)
      if (← entry.path.isDir) && !(← isLink q) then t ← takeDirectory t q depth
    return t

/-- The tree with what a path leads to and with all that leads there. -/
def takePath (t : FileTree) (p : FilePath) : IO FileTree := do
  let mut t := t
  for n in List.range p.names.length do
    t ← takePlace t { p with names := p.names.take n } false
  t ← takePlace t p true
  if ← ((← IO.currentDir) / p.text).isDir then takeDirectory t p 64 else return t

/-- The files that texts name. -/
def takeFiles (texts : List String) : IO FileTree := do
  let working := FilePath.parse (← IO.currentDir).toString
  let mut t := FileTree.empty working.names
  for text in texts.flatMap pathTexts do
    t ← takePath t (FilePath.parse text)
  return t

/-- Writes the files that differ from those before. -/
def writeChanges (before after : FileTree) : IO Unit := do
  for (names, bytes) in after.files do
    if before.fileAt names != some bytes then
      let p : FilePath := ⟨"/", names⟩
      IO.FS.createDirAll p.parent.text
      IO.FS.writeBinFile p.text (ByteArray.mk (bytes.map UInt8.ofNat).toArray)

/-- The line of a record. -/
def recordLine (r : LogRecord) : String := r.level.name ++ ":" ++ r.message

/-- The text of a piece of output. -/
def shownText : Shown → String
  | .line s | .json s => s
  | .rule title => "---- " ++ title

/-- Runs the program and gives its status. -/
def run (args : List String) : IO UInt32 := do
  let mut env := []
  for name in variableNames do
    if let some v ← IO.getEnv name then env := (name, v) :: env
  let before ← takeFiles (args ++ env.map Prod.snd)
  let o := CommandLine.run before env args
  writeChanges before o.files
  if let some p := o.logFile then
    IO.FS.writeFile p.text (String.join (o.records.map fun r => recordLine r ++ "\n"))
  for r in o.records do IO.println (recordLine r)
  for s in o.shown do IO.println (shownText s)
  IO.print o.output
  match o.ending with
  | .exit status => return status.toUInt32
  | .usage e =>
    IO.eprintln ("Error: " ++ e.message)
    return 2
  | .failed e =>
    IO.eprintln ("Error: " ++ e.report?.getD "the program cannot go on")
    return 1

end Program

end GraphPaths

/-- The program. -/
def main (args : List String) : IO UInt32 := GraphPaths.Program.run args
