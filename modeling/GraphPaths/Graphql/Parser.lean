import GraphPaths.Graphql.Document
import GraphPaths.Graphql.Lexer

/-!
# Reading documents

`parse` reads a text as a document. A reader looks at the first token of those left and goes on
to the next; it stops at the first token that cannot stand where it is, or at a fault of the text
when it goes on to it. Selections, lists, objects and list types stand inside one another up to a
limit, which is `nestingLimit` for `parse`; `room` says how many more levels there may be. A
`SyntaxError` says what is wrong and in which line and column.
-/

namespace GraphPaths

namespace Graphql

/-! ## Errors -/

/-- What is wrong with a document. -/
inductive SyntaxFault where
  /-- The text cannot be read into tokens. -/
  | lexical (fault : LexicalFault)
  /-- Another token must stand here. -/
  | expected (what : String) (found : Token)
  /-- The token cannot stand here. -/
  | unexpected (found : Token)
  /-- A variable in a value that must be constant. -/
  | variable (name : String)
  /-- A reserved word as the name of an enumeration's value. -/
  | reserved (found : Token)
  /-- A description before a query without keyword. -/
  | describedQuery
  /-- A description before something that is no definition. -/
  | describedOther
  /-- Too many levels inside one another. -/
  | tooDeep
deriving Repr, DecidableEq

/-- The text about a fault. -/
def SyntaxFault.text : SyntaxFault → String
  | .lexical f => f.message
  | .expected what found => s!"Expected {what}, found {found.describe}."
  | .unexpected found => s!"Unexpected {found.describe}."
  | .variable name => s!"Unexpected variable '${name}' in constant value."
  | .reserved found => s!"{found.describe} is reserved and cannot be used for an enum value."
  | .describedQuery =>
    "Unexpected description, descriptions are not supported on shorthand queries."
  | .describedOther => "Unexpected description, only GraphQL definitions support descriptions."
  | .tooDeep => "Document is nested too deeply. Parsing aborted."

/-- A fault at a place, told by the length of the text from there on. -/
structure SyntaxStop where
  fault : SyntaxFault
  left : Nat

/-- Why a text is no document. -/
structure SyntaxError where
  fault : SyntaxFault
  line : Nat
  column : Nat
deriving Repr, DecidableEq

/-- The message of an error. -/
def SyntaxError.message (e : SyntaxError) : String := "Syntax Error: " ++ e.fault.text

/-! ## Steps -/

/-- A reader of tokens. -/
abbrev Reader := StateT (List Lexeme) (Except SyntaxStop)

/-- The next token. -/
def peek : Reader Lexeme := do
  return (← get).headD ⟨.eof, 0⟩

/-- The token after the next, or the fault that comes before it. -/
def peekSecond : Reader Lexeme := do
  match ← get with
  | _ :: l :: _ =>
    match l.token with
    | .broken f => throw ⟨.lexical f, l.left⟩
    | _ => return l
  | [l] => return l
  | [] => return ⟨.eof, 0⟩

/-- Goes on to the token after the next. -/
def advance : Reader Unit := do
  let _ ← peekSecond
  modify fun
    | _ :: l :: ls => l :: ls
    | ls => ls

/-- The fault of a token that cannot stand where it is. -/
def unexpected {α : Type} (l : Lexeme) : Reader α := throw ⟨.unexpected l.token, l.left⟩

/-- The fault of a token in place of another. -/
def expected {α : Type} (what : String) : Reader α := do
  let l ← peek
  throw ⟨.expected what l.token, l.left⟩

/-- How many levels may stand inside one another. -/
def nestingLimit : Nat := 200

/-- The fault of the next token, which stands too deep. -/
def tooDeep {α : Type} : Reader α := do
  throw ⟨.tooDeep, (← peek).left⟩

/-- Whether a punctuator comes next. -/
def sees (p : Punctuator) : Reader Bool := do
  return (← peek).token == .punct p

/-- Whether a name comes next. -/
def seesName : Reader Bool := do
  match (← peek).token with
  | .name _ => return true
  | _ => return false

/-- Leaves out a punctuator if it comes next, and tells whether it did. -/
def accept (p : Punctuator) : Reader Bool := do
  if ← sees p then
    advance
    return true
  else return false

/-- Goes past a punctuator that must come next. -/
def expect (p : Punctuator) : Reader Unit := do
  if ← sees p then advance else expected ("'" ++ p.text ++ "'")

/-- The name that must come next. -/
def name : Reader String := do
  match (← peek).token with
  | .name s =>
    advance
    return s
  | _ => expected "Name"

/-- Leaves out a keyword if it comes next, and tells whether it did. -/
def acceptWord (word : String) : Reader Bool := do
  if (← peek).token == .name word then
    advance
    return true
  else return false

/-- Goes past a keyword that must come next. -/
def expectWord (word : String) : Reader Unit := do
  if (← peek).token == .name word then advance else expected ("'" ++ word ++ "'")

/-- Items up to a closing punctuator. -/
def untilClosed {α : Type} (item : Reader α) (closing : Punctuator) : Nat → Reader (List α)
  | 0 => expected ("'" ++ closing.text ++ "'")
  | fuel + 1 => do
    if ← accept closing then return []
    else
      let x ← item
      let xs ← untilClosed item closing fuel
      return x :: xs

/-- One item or more between punctuators. -/
def many {α : Type} (fuel : Nat) (opening : Punctuator) (item : Reader α) (closing : Punctuator) :
    Reader (List α) := do
  expect opening
  let x ← item
  let xs ← untilClosed item closing fuel
  return x :: xs

/-- One item or more between punctuators, or nothing. -/
def optionalMany {α : Type} (fuel : Nat) (opening : Punctuator) (item : Reader α)
    (closing : Punctuator) : Reader (List α) := do
  if ← sees opening then many fuel opening item closing else return []

/-- Items after one another with a punctuator between. -/
def separated {α : Type} (separator : Punctuator) (item : Reader α) : Nat → Reader (List α)
  | 0 => return []
  | fuel + 1 => do
    let x ← item
    if ← accept separator then
      let xs ← separated separator item fuel
      return x :: xs
    else return [x]

/-- Items with a punctuator between them and perhaps one in front. -/
def delimited {α : Type} (fuel : Nat) (separator : Punctuator) (item : Reader α) :
    Reader (List α) := do
  let _ ← accept separator
  separated separator item fuel

/-! ## Values and types -/

/-- The fault of a variable where a constant must stand. -/
def refuseVariable {α : Type} : Reader α := do
  let dollar ← peek
  advance
  match (← peek).token with
  | .name s => throw ⟨.variable s, dollar.left⟩
  | _ => unexpected dollar

/-- A variable. -/
def variableName : Reader String := do
  expect .dollar
  name

/-- A value that holds no others. -/
def leafLiteral (constant : Bool) : Reader Literal := do
  let l ← peek
  match l.token with
  | .punct .dollar => if constant then refuseVariable else return .variable (← variableName)
  | .int s => advance; return .int s
  | .float s => advance; return .float s
  | .string s => advance; return .string s
  | .blockString s => advance; return .blockString s
  | .name s =>
    advance
    return match s with
      | "true" => .boolean true
      | "false" => .boolean false
      | "null" => .null
      | _ => .enumeration s
  | _ => unexpected l

/-- A value. -/
def literal (constant : Bool) (fuel : Nat) : Nat → Reader Literal
  | 0 => do
    if (← sees .bracketL) || (← sees .braceL) then tooDeep else leafLiteral constant
  | room + 1 => do
    if ← accept .bracketL then
      return .list (← untilClosed (literal constant fuel room) .bracketR fuel)
    else if ← accept .braceL then
      let field : Reader (String × Literal) := do
        let key ← name
        expect .colon
        return (key, ← literal constant fuel room)
      return .object (← untilClosed field .braceR fuel)
    else leafLiteral constant

/-- A type, without null if an exclamation mark follows. -/
def marked (type : TypeExpr) : Reader TypeExpr := do
  return if ← accept .bang then .nonNull type else type

/-- A type. -/
def typeExpr : Nat → Reader TypeExpr
  | 0 => do
    if ← accept .bracketL then tooDeep else marked (.named (← name))
  | room + 1 => do
    if ← accept .bracketL then
      let item ← typeExpr room
      expect .bracketR
      marked (.list item)
    else marked (.named (← name))

/-- An argument. -/
def argument (constant : Bool) (fuel room : Nat) : Reader Argument := do
  let key ← name
  expect .colon
  let left := (← peek).left
  return ⟨key, ← literal constant fuel room, left⟩

/-- Arguments in parentheses, if there are any. -/
def arguments (constant : Bool) (fuel room : Nat) : Reader (List Argument) :=
  optionalMany fuel .parenL (argument constant fuel room) .parenR

/-- The directives that come next. -/
def directivesWithin (constant : Bool) (room : Nat) : Nat → Reader (List Directive)
  | 0 => return []
  | fuel + 1 => do
    if ← sees .at then
      let left := (← peek).left
      advance
      let key ← name
      let args ← arguments constant fuel room
      let rest ← directivesWithin constant room fuel
      return ⟨key, args, left⟩ :: rest
    else return []

/-- The directives that come next, with constant arguments. -/
def directives (limit fuel : Nat) : Reader (List Directive) := directivesWithin true limit fuel

/-- Whether a description comes next. -/
def seesDescription : Reader Bool := do
  match (← peek).token with
  | .string _ | .blockString _ => return true
  | _ => return false

/-- Leaves out a description. -/
def description : Reader Unit := do
  if ← seesDescription then advance

/-- A default value, if there is one. -/
def defaultValue (limit fuel : Nat) : Reader (Option Literal) := do
  if ← accept .equals then return some (← literal true fuel limit) else return none

/-! ## Operations -/

/-- The keyword of an operation. -/
def operationType : Reader OperationType := do
  let l ← peek
  let word ← name
  match OperationType.ofKeyword word with
  | some o => return o
  | none => unexpected l

/-- The definition of a variable. -/
def variableDefinition (limit fuel : Nat) : Reader VariableDefinition := do
  description
  let key ← variableName
  expect .colon
  let type ← typeExpr limit
  let default ← defaultValue limit fuel
  return ⟨key, type, default, ← directives limit fuel⟩

/-- The name of a fragment, which is not `on`. -/
def fragmentName : Reader String := do
  let l ← peek
  if l.token.value? == some "on" then unexpected l else name

/-- The selections in braces, perhaps none. -/
def selections (fuel : Nat) : Nat → Reader (List Selection)
  | 0 => tooDeep
  | room + 1 =>
    let selection : Reader Selection := do
      if ← accept .spread then
        let conditional ← acceptWord "on"
        if !conditional && (← seesName) then
          let fragment ← fragmentName
          return .spread fragment (← directivesWithin false room fuel)
        else
          let condition ← if conditional then some <$> name else pure none
          let ds ← directivesWithin false room fuel
          return .inline condition ds (← selections fuel room)
      else
        let first ← name
        let (label, key) ← if ← accept .colon then do pure (some first, ← name)
          else pure (none, first)
        let args ← arguments false fuel room
        let ds ← directivesWithin false room fuel
        let inner ← if ← sees .braceL then selections fuel room else pure []
        return .field label key args ds inner
    do
      expect .braceL
      untilClosed selection .braceR fuel

/-- An operation. -/
def operation (limit fuel : Nat) : Reader Operation := do
  if ← sees .braceL then
    return ⟨.query, none, [], [], ← selections fuel limit⟩
  else
    description
    let type ← operationType
    let key ← if ← seesName then some <$> name else pure none
    let vs ← optionalMany fuel .parenL (variableDefinition limit fuel) .parenR
    let ds ← directivesWithin false limit fuel
    return ⟨type, key, vs, ds, ← selections fuel limit⟩

/-- A fragment. -/
def fragment (limit fuel : Nat) : Reader Fragment := do
  description
  expectWord "fragment"
  let key ← fragmentName
  expectWord "on"
  let condition ← name
  let ds ← directivesWithin false limit fuel
  return ⟨key, condition, ds, ← selections fuel limit⟩

/-! ## Definitions of types -/

/-- An argument or an input field. -/
def inputValue (limit fuel : Nat) : Reader InputValue := do
  description
  let key ← name
  expect .colon
  let type ← typeExpr limit
  let default ← defaultValue limit fuel
  return ⟨key, type, default, ← directives limit fuel⟩

/-- A field. -/
def fieldDefinition (limit fuel : Nat) : Reader FieldDefinition := do
  description
  let key ← name
  let args ← optionalMany fuel .parenL (inputValue limit fuel) .parenR
  expect .colon
  let type ← typeExpr limit
  return ⟨key, args, type, ← directives limit fuel⟩

/-- A value of an enumeration, which is none of the three reserved words. -/
def enumValue (limit fuel : Nat) : Reader EnumValue := do
  description
  let l ← peek
  if ["true", "false", "null"].any fun w => l.token.value? == some w then
    throw ⟨.reserved l.token, l.left⟩
  let key ← name
  return ⟨key, ← directives limit fuel⟩

/-- The interfaces that a type implements. -/
def implemented (fuel : Nat) : Reader (List String) := do
  if ← acceptWord "implements" then delimited fuel .amp name else return []

/-- The fields of a type. -/
def fieldsDefinition (limit fuel : Nat) : Reader (List FieldDefinition) :=
  optionalMany fuel .braceL (fieldDefinition limit fuel) .braceR

/-- The keywords of the kinds of types. -/
def TypeKind.keyword : TypeKind → String
  | .scalar => "scalar"
  | .object => "type"
  | .interface => "interface"
  | .union => "union"
  | .enumeration => "enum"
  | .inputObject => "input"

/-- The kind of type with a keyword. -/
def TypeKind.ofKeyword (word : String) : Option TypeKind :=
  [TypeKind.scalar, .object, .interface, .union, .enumeration, .inputObject].find? fun k =>
    k.keyword == word

/-- The name, directives and body of a type of a kind. -/
def typeDefinition (kind : TypeKind) (limit fuel : Nat) : Reader TypeDefinition := do
  expectWord kind.keyword
  let key ← name
  match kind with
  | .scalar =>
    let ds ← directives limit fuel
    return ⟨key, ds, .scalar⟩
  | .object =>
    let interfaces ← implemented fuel
    let ds ← directives limit fuel
    return ⟨key, ds, .object interfaces (← fieldsDefinition limit fuel)⟩
  | .interface =>
    let interfaces ← implemented fuel
    let ds ← directives limit fuel
    return ⟨key, ds, .interface interfaces (← fieldsDefinition limit fuel)⟩
  | .union =>
    let ds ← directives limit fuel
    let members ← if ← accept .equals then delimited fuel .pipe name else pure []
    return ⟨key, ds, .union members⟩
  | .enumeration =>
    let ds ← directives limit fuel
    return ⟨key, ds, .enumeration (← optionalMany fuel .braceL (enumValue limit fuel) .braceR)⟩
  | .inputObject =>
    let ds ← directives limit fuel
    return ⟨key, ds, .inputObject (← optionalMany fuel .braceL (inputValue limit fuel) .braceR)⟩

/-- Whether a body adds nothing. -/
def TypeBody.isEmpty : TypeBody → Bool
  | .scalar => true
  | .object interfaces fields | .interface interfaces fields => interfaces.isEmpty && fields.isEmpty
  | .union members => members.isEmpty
  | .enumeration values => values.isEmpty
  | .inputObject fields => fields.isEmpty

/-- The root type of an operation. -/
def rootDefinition : Reader (OperationType × String) := do
  let type ← operationType
  expect .colon
  return (type, ← name)

/-- The definition of the schema. -/
def schemaDefinition (limit fuel : Nat) : Reader Definition := do
  expectWord "schema"
  let ds ← directives limit fuel
  return .schema false ds (← many fuel .braceL rootDefinition .braceR)

/-- The names of the places where directives can stand. -/
def locationNames : List String :=
  ["QUERY", "MUTATION", "SUBSCRIPTION", "FIELD", "FRAGMENT_DEFINITION", "FRAGMENT_SPREAD",
   "INLINE_FRAGMENT", "VARIABLE_DEFINITION", "FRAGMENT_VARIABLE_DEFINITION", "SCHEMA", "SCALAR",
   "OBJECT", "FIELD_DEFINITION", "ARGUMENT_DEFINITION", "INTERFACE", "UNION", "ENUM", "ENUM_VALUE",
   "INPUT_OBJECT", "INPUT_FIELD_DEFINITION", "DIRECTIVE_DEFINITION"]

/-- The name of a place where a directive can stand. -/
def directiveLocation : Reader String := do
  let l ← peek
  let key ← name
  if locationNames.contains key then return key else unexpected l

/-- The definition of a directive. -/
def directiveDefinition (limit fuel : Nat) : Reader Definition := do
  expectWord "directive"
  expect .at
  let key ← name
  let args ← optionalMany fuel .parenL (inputValue limit fuel) .parenR
  let ds ← directives limit fuel
  let repeatable ← acceptWord "repeatable"
  expectWord "on"
  return .directive ⟨key, args, ds, repeatable, ← delimited fuel .pipe directiveLocation⟩

/-- An extension, which must add something. -/
def extensionOf (limit fuel : Nat) : Reader Definition := do
  let l ← peekSecond
  match l.token with
  | .name "schema" =>
    expectWord "extend"
    expectWord "schema"
    let ds ← directives limit fuel
    let roots ← optionalMany fuel .braceL rootDefinition .braceR
    if ds.isEmpty && roots.isEmpty then unexpected (← peek)
    return .schema true ds roots
  | .name "directive" =>
    expectWord "extend"
    expectWord "directive"
    expect .at
    let key ← name
    let ds ← directives limit fuel
    if ds.isEmpty then unexpected (← peek)
    return .directiveExtension key ds
  | .name word =>
    match TypeKind.ofKeyword word with
    | none => unexpected l
    | some kind =>
      expectWord "extend"
      let t ← typeDefinition kind limit fuel
      if t.directives.isEmpty && t.body.isEmpty then unexpected (← peek)
      return .type true t
  | _ => unexpected l

/-! ## Documents -/

/-- The definition that a keyword starts, description and all. -/
def definitionOf (word : String) (described : Bool) (at_ keyword : Lexeme)
    (limit fuel : Nat) :
    Reader Definition := do
  match TypeKind.ofKeyword word with
  | some kind =>
    description
    return .type false (← typeDefinition kind limit fuel)
  | none =>
    if word == "schema" then
      description
      schemaDefinition limit fuel
    else if word == "directive" then
      description
      directiveDefinition limit fuel
    else if (OperationType.ofKeyword word).isSome then return .operation (← operation limit fuel)
    else if word == "fragment" then return .fragment (← fragment limit fuel)
    else if described then throw ⟨.describedOther, at_.left⟩
    else if word == "extend" then extensionOf limit fuel
    else unexpected keyword

/-- A definition. -/
def definition (limit fuel : Nat) : Reader Definition := do
  let first ← peek
  if first.token == .punct .braceL then return .operation (← operation limit fuel)
  else
    let described ← seesDescription
    let keyword ← if described then peekSecond else pure first
    if described && keyword.token == .punct .braceL then throw ⟨.describedQuery, first.left⟩
    match keyword.token with
    | .name word => definitionOf word described first keyword limit fuel
    | _ => unexpected keyword

/-- The definitions up to the end of the text. -/
def definitions (limit : Nat) : Nat → Reader (List Definition)
  | 0 => return []
  | fuel + 1 => do
    let d ← definition limit fuel
    if (← peek).token == .eof then return [d]
    else
      let ds ← definitions limit fuel
      return d :: ds

/-- The document of some tokens. -/
def documentOf (limit : Nat) (tokens : List Lexeme) : Except SyntaxStop Document :=
  match tokens with
  | ⟨.broken f, left⟩ :: _ => .error ⟨.lexical f, left⟩
  | _ => (definitions limit (tokens.length + 1)).run' tokens

/-- The type that a text is, up to its end, with no more than `limit` lists inside one another. -/
def parseTypeWithin (limit : Nat) (text : String) : Option TypeExpr :=
  match (typeExpr limit).run (lex text.toList) with
  | .ok (t, [⟨.eof, _⟩]) => some t
  | _ => none

/-- The type that a text is, up to its end. -/
def parseType (text : String) : Option TypeExpr := parseTypeWithin nestingLimit text

/-- The document that a text is, with no more than `limit` levels inside one another. -/
def parseWithin (limit : Nat) (text : String) : Except SyntaxError Document :=
  let cs := text.toList
  match documentOf limit (lex cs) with
  | .ok d => .ok d
  | .error stop =>
    let (line, column) := Text.position (Text.normalizeEnds (cs.take (cs.length - stop.left)))
    .error ⟨stop.fault, line, column⟩

/-- The document that a text is. -/
def parse (text : String) : Except SyntaxError Document := parseWithin nestingLimit text

end Graphql

end GraphPaths
