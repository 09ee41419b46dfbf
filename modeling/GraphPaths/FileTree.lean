import GraphPaths.FilePath
import GraphPaths.Text.Utf8

/-!
# File trees

The files, directories and symbolic links that a program can reach, with a working directory that
paths without a root start from. A path is followed name by name: each directory on the way has to
be there, `..` goes back to the directory around one, and a link is gone through by the path that it
holds (`locate`). What stands at any depth in a directory is what is there without going through
links. `read`, `write` and `makeDirectories` say how they fail.
-/

namespace GraphPaths

/-- Why a file cannot be used. -/
inductive FileError where
  /-- Nothing is there. -/
  | notFound
  /-- A directory is there. -/
  | isDirectory
  /-- A part of the path is a file. -/
  | notDirectory
  /-- A file is where a directory is to be. -/
  | inTheWay
  /-- A path goes through more links than can be followed. -/
  | tooManyLinks
deriving Repr, DecidableEq

/-- The words for an error. -/
def FileError.message : FileError → String
  | .notFound => "No such file or directory"
  | .isDirectory => "Is a directory"
  | .notDirectory => "Not a directory"
  | .inTheWay => "File exists"
  | .tooManyLinks => "Too many levels of symbolic links"

/-- Files, directories and links, each by the names that lead to it from the root. -/
structure FileTree where
  files : List (List String × List Nat)
  /-- The directories but the root. -/
  directories : List (List String)
  /-- The symbolic links with the paths that they hold. -/
  links : List (List String × FilePath)
  workingDirectory : List String
deriving Repr, DecidableEq, Inhabited

namespace FileTree

/-- A tree with an empty working directory. -/
def empty (workingDirectory : List String) : FileTree :=
  ⟨[], (List.range workingDirectory.length).map fun n => workingDirectory.take (n + 1), [],
    workingDirectory⟩

/-- Whether names lead to a directory. -/
def isDirectoryAt (t : FileTree) (names : List String) : Bool :=
  names.isEmpty || t.directories.contains names

/-- The bytes of the file that names lead to. -/
def fileAt (t : FileTree) (names : List String) : Option (List Nat) := t.files.lookup names

/-- The path that the link holds that names lead to. -/
def linkAt (t : FileTree) (names : List String) : Option FilePath := t.links.lookup names

/-- The directory that a path starts from, read in another. -/
def startIn (here : List String) (p : FilePath) : List String := if p.root == "" then here else []

/-- The names that lead on from a directory, which has to be there at every step. From a link on,
`jump` goes its path and then the rest. -/
def walk (t : FileTree) (jump : List String → List String → Except FileError (List String)) :
    List String → List String → Except FileError (List String)
  | here, [] => .ok here
  | here, name :: rest =>
    if t.isDirectoryAt here then
      if name == ".." then walk t jump here.dropLast rest
      else match t.linkAt (here ++ [name]) with
        | some target => jump (startIn here target) (target.names ++ rest)
        | none => walk t jump (here ++ [name]) rest
    else if (t.fileAt here).isSome then .error .notDirectory
    else .error .notFound

/-- The names that lead on from a directory, through so many links at most. -/
def followLinks (t : FileTree) : Nat → List String → List String → Except FileError (List String)
  | 0 => t.walk fun _ _ => .error .tooManyLinks
  | n + 1 => t.walk (followLinks t n)

/-- How many links a path may go through. -/
def linkLimit : Nat := 40

/-- The names that lead on from a directory. -/
def follow (t : FileTree) (here rest : List String) : Except FileError (List String) :=
  t.followLinks linkLimit here rest

/-- The directory that a path starts from. -/
def base (t : FileTree) (p : FilePath) : List String := startIn t.workingDirectory p

/-- The names that lead to what a path names. -/
def locate (t : FileTree) (p : FilePath) : Except FileError (List String) :=
  t.follow (t.base p) p.names

/-- The path from the root that a path is when `..` takes the name before it away, whatever is
there. -/
def absolute (t : FileTree) (p : FilePath) : FilePath :=
  (⟨if p.root == "" then "/" else p.root, t.base p ++ p.names⟩ : FilePath).collapse

/-- Whether a path names a file. -/
def isFile (t : FileTree) (p : FilePath) : Bool :=
  match t.locate p with
  | .ok names => (t.fileAt names).isSome
  | .error _ => false

/-- Whether a path names a directory. -/
def isDirectory (t : FileTree) (p : FilePath) : Bool :=
  match t.locate p with
  | .ok names => t.isDirectoryAt names
  | .error _ => false

/-! ## Reading -/

/-- The bytes of a file. -/
def read (t : FileTree) (p : FilePath) : Except FileError (List Nat) := do
  let names ← t.locate p
  if t.isDirectoryAt names then throw .isDirectory
  match t.fileAt names with
  | some bytes => return bytes
  | none => throw .notFound

/-- What stands at any depth in a directory, by the names that lead to it from there. -/
def under (directory : List String) (names : List String) : Option (List String) :=
  if directory.isPrefixOf names && directory.length < names.length then
    some (names.drop directory.length)
  else none

/-- The paths to those of some places that are at any depth in a directory. -/
def placesUnder (t : FileTree) (p : FilePath) (places : List (List String)) : List FilePath :=
  match t.locate p with
  | .ok d => (places.filterMap (under d)).map p.below
  | .error _ => []

/-- The files at any depth in a directory. -/
def filesUnder (t : FileTree) (p : FilePath) : List FilePath :=
  t.placesUnder p (t.files.map Prod.fst)

/-- The directories at any depth in a directory. -/
def directoriesUnder (t : FileTree) (p : FilePath) : List FilePath := t.placesUnder p t.directories

/-- The links at any depth in a directory. -/
def linksUnder (t : FileTree) (p : FilePath) : List FilePath :=
  t.placesUnder p (t.links.map Prod.fst)

/-! ## Writing -/

/-- The files with one of them replaced or added. -/
def putFile (names : List String) (bytes : List Nat) :
    List (List String × List Nat) → List (List String × List Nat)
  | [] => [(names, bytes)]
  | (k, b) :: rest => if k == names then (k, bytes) :: rest else (k, b) :: putFile names bytes rest

/-- The tree with a file written; the directory that it is in has to be there. -/
def write (t : FileTree) (p : FilePath) (bytes : List Nat) : Except FileError FileTree := do
  let names ← t.locate p
  if t.isDirectoryAt names then throw .isDirectory
  return { t with files := putFile names bytes t.files }

/-- Whether a link stands under a name in a directory. -/
def isLink (t : FileTree) (start done : List String) (name : String) : Bool :=
  match t.follow start done with
  | .ok here => (t.linkAt (here ++ [name])).isSome
  | .error _ => false

/-- The tree with the directories made that are missing on the way from one. All names but the last
are gone through, and those after a directory that was `made` are each the last of a path. -/
def makeFrom (t : FileTree) (start : List String) (made : Bool) :
    List String → List String → Except FileError FileTree
  | _, [] => .ok t
  | done, name :: rest =>
    let last := made || rest.isEmpty
    match t.follow start (done ++ [name]) with
    | .error e => .error (if last || e == .notFound then .inTheWay else e)
    | .ok place =>
      if t.isDirectoryAt place then makeFrom t start made (done ++ [name]) rest
      else if (t.fileAt place).isSome then .error (if last then .inTheWay else .notDirectory)
      else if t.isLink start done name then .error .inTheWay
      else
        makeFrom { t with directories := t.directories ++ [place] } start true (done ++ [name]) rest

/-- The tree with a directory and all around it made. -/
def makeDirectories (t : FileTree) (p : FilePath) : Except FileError FileTree :=
  t.makeFrom (t.base p) false [] p.names

/-- The tree with a file in it whatever it takes: directories are made, and nothing else is in the
way. -/
def addFile (t : FileTree) (p : FilePath) (bytes : List Nat) : FileTree :=
  match t.makeDirectories p.parent with
  | .ok t' => (t'.write p bytes).toOption.getD t'
  | .error _ => t

/-- The tree with a directory in it, unless something is in the way. -/
def addDirectory (t : FileTree) (p : FilePath) : FileTree := (t.makeDirectories p).toOption.getD t

/-- The tree with a link in it, unless something else is there. -/
def addLink (t : FileTree) (p target : FilePath) : FileTree :=
  let t := t.addDirectory p.parent
  match t.locate p.parent with
  | .ok here =>
    let place := here ++ [p.name]
    if t.isDirectoryAt place || (t.fileAt place).isSome || (t.linkAt place).isSome then t
    else { t with links := t.links ++ [(place, target)] }
  | .error _ => t

/-! ## Texts -/

/-- The bytes of a text. -/
def bytesOf (text : String) : List Nat := text.toUTF8.toList.map UInt8.toNat

/-- The text of bytes, its line ends made one. -/
def textOf (bytes : List Nat) : Except Text.Utf8.DecodeError String :=
  (Text.Utf8.decode bytes).map fun s => String.ofList (Text.normalizeEnds s.toList)

end FileTree

/-- Why the text of a file cannot be had. -/
inductive TextError where
  | file (error : FileError)
  | encoding (error : Text.Utf8.DecodeError)
deriving Repr, DecidableEq

/-- The text of a file. -/
def FileTree.readText (t : FileTree) (p : FilePath) : Except TextError String := do
  let bytes ← (t.read p).mapError .file
  (FileTree.textOf bytes).mapError .encoding

end GraphPaths
