import GraphPaths.Operation
import GraphPaths.Proofs.Graphql.Types

/-!
# The tokens of a request

A request for a field declares a variable for each argument and passes it on. `requestTokens` are
the tokens of its text, and they are read as one operation, the one that declares the arguments with
their types and selects the field with its arguments (`documentOf_request`).
-/

namespace GraphPaths

namespace Graphql

variable {t : Token} {rest : List Token}

/-! ## What is left out -/

theorem reads_description (ht : ∀ s, t ≠ .string s) (ht' : ∀ s, t ≠ .blockString s) :
    Reads description (t :: rest) (fun _ => True) (t :: rest) := by
  have hsees : Reads seesDescription (t :: rest) (fun b => b = false) (t :: rest) := by
    refine reads_peek.bind fun l hl => ?_
    rw [hl]
    split
    · exact absurd rfl (ht _)
    · exact absurd rfl (ht' _)
    · exact reads_pure rfl
  refine hsees.bind fun b hb => ?_
  rw [hb]
  exact reads_pure trivial

theorem reads_defaultValue (limit fuel : Nat) (ht : t ≠ .punct .equals) :
    Reads (defaultValue limit fuel) (t :: rest) (fun v => v = none) (t :: rest) := by
  refine (reads_accept_other ht).bind fun b hb => ?_
  rw [hb]
  exact reads_pure rfl

theorem reads_directives (constant : Bool) (room fuel : Nat) (ht : t ≠ .punct .at) :
    Reads (directivesWithin constant room fuel) (t :: rest) (fun ds => ds = []) (t :: rest) := by
  cases fuel with
  | zero => exact reads_pure rfl
  | succ fuel =>
    refine (reads_sees .at).bind fun b hb => ?_
    rw [hb, beq_eq_false_iff_ne.mpr ht]
    exact reads_pure rfl

/-! ## Variables -/

theorem reads_variableName {s : String} (h : goesOn rest) :
    Reads variableName (.punct .dollar :: .name s :: rest) (fun n => n = s) rest :=
  (reads_expect rfl).bind fun _ _ => reads_name h

/-- A variable as a value. -/
theorem reads_variable {s : String} (fuel room : Nat) (h : goesOn rest) :
    Reads (literal false fuel room) (.punct .dollar :: .name s :: rest)
      (fun v => v = .variable s) rest := by
  have hleaf : Reads (leafLiteral false) (.punct .dollar :: .name s :: rest)
      (fun v => v = .variable s) rest := by
    refine reads_peek.bind fun l hl => ?_
    rw [hl]
    exact (reads_variableName h).bind fun n hn => hn ▸ reads_pure rfl
  cases room with
  | zero =>
    refine (reads_sees .bracketL).bind fun b hb => ?_
    refine (reads_sees .braceL).bind fun b' hb' => ?_
    rw [hb, hb']
    exact hleaf
  | succ room =>
    have hother : ∀ p, p ≠ .dollar → Reads (accept p) (.punct .dollar :: .name s :: rest)
        (fun b => b = false) (.punct .dollar :: .name s :: rest) :=
      fun p hp => reads_accept_other fun h => hp (Token.punct.inj h).symm
    refine (hother .bracketL nofun).bind fun b hb => ?_
    rw [hb]
    refine (hother .braceL nofun).bind fun b' hb' => ?_
    rw [hb']
    exact hleaf

/-- The tokens that declare a variable for an argument. -/
def declarationTokens (a : SchemaInput) : List Token :=
  .punct .dollar :: .name a.name :: .punct .colon :: a.type.tokens

/-- The variable that is declared for an argument. -/
def declaration (a : SchemaInput) : VariableDefinition :=
  ⟨a.name, a.type, none, []⟩

/-- Whether a token may follow the declaration of a variable. -/
def followsDeclaration (t : Token) : Bool :=
  t == .punct .dollar || t == .punct .parenR

theorem reads_declaration {limit fuel : Nat} {a : SchemaInput} (hw : a.type.isWritable)
    (hdepth : a.type.depth ≤ limit) (ht : followsDeclaration t) :
    Reads (variableDefinition limit fuel) (declarationTokens a ++ t :: rest)
      (fun v => v = declaration a) (t :: rest) := by
  have ht : t = .punct .dollar ∨ t = .punct .parenR := by
    simpa [followsDeclaration] using ht
  have hgoes : goesOn (t :: rest) := by rcases ht with rfl | rfl <;> rfl
  have hbang : t ≠ .punct .bang := by rcases ht with rfl | rfl <;> nofun
  have hequals : t ≠ .punct .equals := by rcases ht with rfl | rfl <;> nofun
  have hat : t ≠ .punct .at := by rcases ht with rfl | rfl <;> nofun
  refine (reads_description (by simp) (by simp)).bind fun _ _ => ?_
  refine (reads_variableName rfl).bind fun n hn => ?_
  refine (reads_expect (goesOn_tokens a.type _)).bind fun _ _ => ?_
  refine (reads_typeExpr a.type hw hdepth hbang hgoes).bind fun type htype => ?_
  refine (reads_defaultValue limit fuel hequals).bind fun default hdefault => ?_
  refine (reads_directives true limit fuel hat).bind fun ds hds => ?_
  rw [hn, htype, hdefault, hds]
  exact reads_pure rfl

/-- The tokens that pass a variable on to the argument of its name. -/
def useTokens (a : SchemaInput) : List Token :=
  [.name a.name, .punct .colon, .punct .dollar, .name a.name]

/-- An argument passes on the variable of its name. -/
def PassesOn (a : SchemaInput) (x : Argument) : Prop :=
  x.name = a.name ∧ x.value = .variable a.name

/-- Whether a token may follow an argument. -/
def followsArgument : Token → Bool
  | .name _ | .punct .parenR => true
  | _ => false

theorem goesOn_of_followsArgument (ht : followsArgument t) : goesOn (t :: rest) := by
  unfold followsArgument at ht
  split at ht
  · rfl
  · rfl
  · contradiction

theorem reads_argument {fuel room : Nat} {a : SchemaInput} (ht : followsArgument t) :
    Reads (argument false fuel room) (useTokens a ++ t :: rest) (PassesOn a) (t :: rest) := by
  refine (reads_name rfl).bind fun n hn => (reads_expect rfl).bind fun _ _ => ?_
  refine reads_peek.bind fun l _ => ?_
  refine (reads_variable fuel room (goesOn_of_followsArgument ht)).bind fun v hv => ?_
  exact reads_pure ⟨hn, hv⟩

/-! ## The operation -/

/-- The tokens of a request for a field, after its keyword. -/
def requestTokens (field : String) (args : List SchemaInput) : List Token :=
  .name field :: (between .parenL .parenR declarationTokens args ++
    .punct .braceL :: .name field ::
      (between .parenL .parenR useTokens args ++ [.punct .braceR, .eof]))

/-- An operation declares arguments as its variables and passes them on to a field. -/
def Requests (type : OperationType) (field : String) (args : List SchemaInput) (o : Operation) :
    Prop :=
  ∃ xs, List.Forall₂ PassesOn args xs ∧
    o = ⟨type, some field, args.map declaration, [], [.field none field xs [] []]⟩

theorem readsItems_declarations {limit fuel : Nat} {args : List SchemaInput}
    (h : ∀ a ∈ args, a.type.isWritable ∧ a.type.depth ≤ limit) :
    ReadsItems (variableDefinition limit fuel) .parenR declarationTokens
      (fun a v => v = declaration a) followsDeclaration args where
  closes := rfl
  reads a ha _ _ ht := reads_declaration (h a ha).1 (h a ha).2 ht
  starts _ _ := ⟨_, _, rfl, rfl, nofun⟩

theorem readsItems_uses {fuel room : Nat} (args : List SchemaInput) :
    ReadsItems (argument false fuel room) .parenR useTokens PassesOn followsArgument args where
  closes := rfl
  reads _ _ _ _ ht := reads_argument ht
  starts _ _ := ⟨_, _, rfl, rfl, nofun⟩

theorem goesOn_of_followsDeclaration {t : Token} (ts : List Token) (h : followsDeclaration t) :
    goesOn (t :: ts) := by
  have ht : t = .punct .dollar ∨ t = .punct .parenR := by
    simpa [followsDeclaration] using h
  rcases ht with rfl | rfl <;> rfl

/-- The selection of a field with its arguments. -/
theorem reads_selections {fuel room : Nat} {field : String} {args : List SchemaInput}
    (hfuel : args.length < fuel + 2) :
    Reads (selections (fuel + 2) (room + 1)) (.punct .braceL :: .name field ::
        (between .parenL .parenR useTokens args ++ [.punct .braceR, .eof]))
      (fun ss => ∃ xs, List.Forall₂ PassesOn args xs ∧ ss = [.field none field xs [] []])
      [.eof] := by
  have hargs : Reads (arguments false (fuel + 2) room)
      (between .parenL .parenR useTokens args ++ [.punct .braceR, .eof])
      (List.Forall₂ PassesOn args) [.punct .braceR, .eof] :=
    reads_optionalMany (readsItems_uses args) (fun _ _ => goesOn_of_followsArgument) (by simp) rfl
      (by omega)
  have hgoing : goesOn (between .parenL .parenR useTokens args ++ [.punct .braceR, .eof]) := by
    cases args <;> rfl
  have hcolon : Reads (accept .colon)
      (between .parenL .parenR useTokens args ++ [.punct .braceR, .eof]) (fun b => b = false)
      (between .parenL .parenR useTokens args ++ [.punct .braceR, .eof]) := by
    cases args <;> exact reads_accept_other (by simp)
  unfold selections
  refine (reads_expect rfl).bind fun _ _ => ?_
  refine Reads.mono (P := fun ss => ∃ x, (∃ xs, List.Forall₂ PassesOn args xs ∧
    x = Selection.field none field xs [] []) ∧ ss = [x]) ?_ ?_
  · refine reads_single (by simp) ?_ rfl fuel
    refine (reads_accept_other (by simp)).bind fun b hb => ?_
    rw [hb]
    refine (reads_name hgoing).bind fun first hfirst => ?_
    refine hcolon.bind fun b hb => ?_
    rw [hb, if_neg Bool.false_ne_true]
    refine (reads_pure (P := fun x => x = (none, first)) rfl).bind fun x hx => ?_
    rw [hx]
    refine hargs.bind fun xs hxs => ?_
    refine (reads_directives false room (fuel + 2) (by simp)).bind fun ds hds => ?_
    refine (reads_sees .braceL).bind fun b hb => ?_
    rw [hb, hfirst, hds]
    exact reads_pure ⟨xs, hxs, rfl⟩
  · rintro ss ⟨x, ⟨xs, hxs, rfl⟩, rfl⟩
    exact ⟨xs, hxs, rfl⟩

theorem ofKeyword_keyword (type : OperationType) :
    OperationType.ofKeyword type.keyword = some type := by
  cases type <;> rfl

/-- The tokens of a request are read as its operation. -/
theorem reads_operation {limit fuel : Nat} {type : OperationType} {field : String}
    {args : List SchemaInput} (hlimit : 0 < limit)
    (hargs : ∀ a ∈ args, a.type.isWritable ∧ a.type.depth ≤ limit)
    (hfuel : args.length < fuel + 2) :
    Reads (operation limit (fuel + 2)) (.name type.keyword :: requestTokens field args)
      (Requests type field args) [.eof] := by
  have hdeclared : Reads (optionalMany (fuel + 2) .parenL (variableDefinition limit (fuel + 2))
      .parenR) (between .parenL .parenR declarationTokens args ++ .punct .braceL :: .name field ::
        (between .parenL .parenR useTokens args ++ [.punct .braceR, .eof]))
      (List.Forall₂ (fun a v => v = declaration a) args)
      (.punct .braceL :: .name field ::
        (between .parenL .parenR useTokens args ++ [.punct .braceR, .eof])) :=
    reads_optionalMany (readsItems_declarations hargs) (fun _ => goesOn_of_followsDeclaration)
      (by simp) rfl (by omega)
  have hgoing : ∀ more, goesOn (between .parenL .parenR declarationTokens args ++
      .punct .braceL :: more) := by
    intro more
    cases args <;> rfl
  have htype : Reads operationType (.name type.keyword :: requestTokens field args)
      (fun x => x = type) (requestTokens field args) := by
    refine reads_peek.bind fun l _ => (reads_name rfl).bind fun word hword => ?_
    rw [hword, ofKeyword_keyword]
    exact reads_pure rfl
  obtain ⟨room, rfl⟩ : ∃ n, limit = n + 1 := ⟨limit - 1, by omega⟩
  refine (reads_sees .braceL).bind fun b hb => ?_
  rw [hb]
  refine (reads_description (by simp) (by simp)).bind fun _ _ => htype.bind fun x hx => ?_
  have hname : Reads seesName (requestTokens field args) (fun b => b = true)
      (requestTokens field args) :=
    reads_peek.bind fun l hl => by
      rw [hl]
      exact reads_pure rfl
  refine hname.bind fun b hb => ?_
  rw [hb, if_pos rfl]
  have hkey : Reads (some <$> name) (requestTokens field args) (fun n => n = some field)
      (between .parenL .parenR declarationTokens args ++ .punct .braceL :: .name field ::
        (between .parenL .parenR useTokens args ++ [.punct .braceR, .eof])) := by
    rw [← bind_pure_comp]
    exact (reads_name (hgoing _)).bind fun n hn => reads_pure (by rw [hn])
  refine hkey.bind fun key hkey => hdeclared.bind fun vs hvs => ?_
  refine (reads_directives false (room + 1) (fuel + 2) (by simp)).bind fun ds hds => ?_
  refine (reads_selections hfuel).bind fun ss hss => ?_
  obtain ⟨xs, hxs, rfl⟩ := hss
  have hdefinitions : vs = args.map declaration := by
    have heq : List.Forall₂ Eq vs (args.map declaration) := by
      rw [List.forall₂_map_right_iff]
      exact (List.Forall₂.flip hvs).imp fun _ _ h => h
    rwa [List.forall₂_eq_eq_eq] at heq
  rw [hx, hkey, hdefinitions, hds]
  exact reads_pure ⟨xs, hxs, rfl⟩

/-! ## The document -/

theorem reads_definition {limit fuel : Nat} {type : OperationType} {field : String}
    {args : List SchemaInput} (hlimit : 0 < limit)
    (hargs : ∀ a ∈ args, a.type.isWritable ∧ a.type.depth ≤ limit)
    (hfuel : args.length < fuel + 2) :
    Reads (definition limit (fuel + 2)) (.name type.keyword :: requestTokens field args)
      (fun d => ∃ o, Requests type field args o ∧ d = .operation o) [.eof] := by
  have hof : ∀ first keyword, Reads
      (definitionOf type.keyword false first keyword limit (fuel + 2))
      (.name type.keyword :: requestTokens field args)
      (fun d => ∃ o, Requests type field args o ∧ d = .operation o) [.eof] := by
    intro first keyword
    have hreads : Reads (operation limit (fuel + 2))
        (.name type.keyword :: requestTokens field args) (Requests type field args) [.eof] :=
      reads_operation hlimit hargs hfuel
    cases type <;> exact hreads.bind fun o ho => reads_pure ⟨o, ho, rfl⟩
  refine reads_peek.bind fun first hfirst => ?_
  have hbrace : (first.token == Token.punct .braceL) = false := by
    rw [hfirst]
    rfl
  rw [hbrace]
  have hdescribed : Reads seesDescription (.name type.keyword :: requestTokens field args)
      (fun b => b = false) (.name type.keyword :: requestTokens field args) :=
    reads_peek.bind fun l hl => by
      rw [hl]
      exact reads_pure rfl
  refine hdescribed.bind fun described hd => ?_
  rw [hd]
  refine (reads_pure (P := fun x => x = first) rfl).bind fun keyword hkeyword => ?_
  rw [hkeyword]
  simp only [Bool.false_and, Bool.false_eq_true, if_false, hfirst]
  exact hof first first

theorem length_le_flatMap_useTokens (args : List SchemaInput) :
    args.length ≤ (args.flatMap useTokens).length := by
  induction args with
  | nil => exact Nat.le_refl 0
  | cons a args ih =>
    rw [List.flatMap_cons, List.length_append, List.length_cons]
    have : (useTokens a).length = 4 := rfl
    omega

theorem length_le_requestTokens (field : String) (args : List SchemaInput) :
    args.length + 2 ≤ (requestTokens field args).length := by
  have hargs := length_le_flatMap_useTokens args
  have hbetween : (args.flatMap useTokens).length ≤
      (between .parenL .parenR useTokens args).length := by
    cases args with
    | nil => exact Nat.le_refl 0
    | cons a args =>
      unfold between
      rw [List.length_append, List.length_cons]
      omega
  unfold requestTokens
  simp only [List.length_cons, List.length_append, List.length_nil]
  omega

/-- The tokens of a request are a document of one operation. -/
theorem documentOf_request {limit : Nat} {type : OperationType} {field : String}
    {args : List SchemaInput} (hlimit : 0 < limit)
    (hargs : ∀ a ∈ args, a.type.isWritable ∧ a.type.depth ≤ limit) {ls : List Lexeme}
    (hls : ls.map Lexeme.token = .name type.keyword :: requestTokens field args) :
    ∃ o, documentOf limit ls = .ok [.operation o] ∧ Requests type field args o := by
  have hlength : ls.length = (requestTokens field args).length + 1 := by
    rw [← List.length_map Lexeme.token, hls, List.length_cons]
  have hlong := length_le_requestTokens field args
  obtain ⟨fuel, hfuel⟩ : ∃ n, ls.length = n + 2 := ⟨ls.length - 2, by omega⟩
  have hdefinitions : Reads (definitions limit (ls.length + 1))
      (.name type.keyword :: requestTokens field args)
      (fun ds => ∃ o, Requests type field args o ∧ ds = [.operation o]) [.eof] := by
    rw [hfuel]
    refine (reads_definition hlimit hargs (by omega)).bind fun d hd => ?_
    refine reads_peek.bind fun l hl => ?_
    obtain ⟨o, ho, rfl⟩ := hd
    rw [hl]
    exact reads_pure ⟨o, ho, rfl⟩
  obtain ⟨ds, ls', hrun, ⟨o, ho, rfl⟩, -⟩ := hdefinitions ls hls
  refine ⟨o, ?_, ho⟩
  have hdocument : documentOf limit ls = (definitions limit (ls.length + 1)).run' ls := by
    unfold documentOf
    split
    · next f left _ =>
      have := (List.cons.inj hls).1
      contradiction
    · rfl
  rw [hdocument]
  show Prod.fst <$> definitions limit (ls.length + 1) ls = _
  rw [hrun]
  rfl

end Graphql

end GraphPaths
