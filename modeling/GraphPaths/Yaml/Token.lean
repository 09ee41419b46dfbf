import GraphPaths.Yaml.LoadError

/-!
# Tokens

What a YAML text consists of: marks for documents and collections, the properties of nodes, and
scalars. Collections that show by their indentation alone have tokens for their start and their end
too, and a mapping's key has a token in front even where nothing in the text marks it.
-/

namespace GraphPaths

namespace Yaml

/-- A directive in front of a document. -/
inductive Directive where
  /-- The version of the notation. -/
  | version (major minor : Int)
  /-- What a handle at the start of a tag stands for. -/
  | handle (name expansion : String)
  /-- A directive without effect. -/
  | other
deriving Repr, DecidableEq

/-- A token. -/
inductive Token where
  | directive (d : Directive)
  | documentStart
  | documentEnd
  | streamEnd
  | blockSequenceStart
  | blockMappingStart
  | blockEnd
  | flowSequenceStart
  | flowSequenceEnd
  | flowMappingStart
  | flowMappingEnd
  | blockEntry
  | flowEntry
  | key
  | value
  | alias (name : String)
  | anchor (name : String)
  /-- A tag as it is written: a handle, if it has one, and what follows. -/
  | tag (handle : Option String) (suffix : String)
  | scalar (text : String) (plain : Bool)
  /-- The place where the text breaks the rules of tokens. -/
  | broken (error : LoadError)
deriving Repr, DecidableEq

end Yaml

end GraphPaths
