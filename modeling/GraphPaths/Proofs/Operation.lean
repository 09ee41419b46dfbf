import GraphPaths.Proofs.Examples.Roots
import GraphPaths.Proofs.Graphql.Request

/-!
# Requests as operations

The text of a request is read into the tokens of the request (`lexes_operationText`), and so it is
read back as the operation that was meant (`parse_operationText`): the variables it declares, those it
passes on and those it has values for are the same.
-/

namespace GraphPaths

open Graphql

/-! ## The text of a request -/

/-- A row of parts between parentheses, character by character. -/
def row {ι : Type} (chars : ι → List Char) : List ι → List Char
  | [] => []
  | i :: is => '(' :: (chars i ++ is.flatMap fun j => ',' :: ' ' :: chars j) ++ [')']

theorem toList_intercalate_cons (part : String) : ∀ parts : List String,
    (", ".intercalate (part :: parts)).toList =
      part.toList ++ parts.flatMap fun p => ',' :: ' ' :: p.toList
  | [] => by simp [String.intercalate_singleton]
  | next :: parts => by
    rw [String.intercalate_cons_cons, String.toList_append, String.toList_append,
      toList_intercalate_cons next parts]
    simp

theorem toList_parenthesized {ι : Type} (text : ι → String) (is : List ι) :
    (parenthesized (is.map text)).toList = row (fun i => (text i).toList) is := by
  cases is with
  | nil => rfl
  | cons i is =>
    unfold parenthesized
    rw [List.map_cons, if_neg (by simp), String.toList_append, String.toList_append,
      toList_intercalate_cons, List.flatMap_map]
    rfl

/-- A row is read into the tokens of its parts. -/
theorem lexes_row {ι : Type} {chars : ι → List Char} {tokens : ι → List Token} {is : List ι}
    (hpart : ∀ i ∈ is, ∀ cs ts, endsName cs → Lexes cs ts → Lexes (chars i ++ cs) (tokens i ++ ts))
    {cs : List Char} {ts : List Token} (h : Lexes cs ts) :
    Lexes (row chars is ++ cs) (between .parenL .parenR tokens is ++ ts) := by
  have hmore : ∀ js : List ι, (∀ j ∈ js, j ∈ is) →
      endsName (js.flatMap (fun j => ',' :: ' ' :: chars j) ++ ')' :: cs) ∧
        Lexes (js.flatMap (fun j => ',' :: ' ' :: chars j) ++ ')' :: cs)
          (js.flatMap tokens ++ .punct .parenR :: ts) := by
    intro js hjs
    induction js with
    | nil => exact ⟨rfl, lexes_punct rfl h⟩
    | cons j js ih =>
      obtain ⟨hends, hlexes⟩ := ih fun j' hj' => hjs j' (List.mem_cons_of_mem j hj')
      refine ⟨rfl, ?_⟩
      have hj := hpart j (hjs j List.mem_cons_self) _ _ hends hlexes
      have := lexes_ignored (c := ',') rfl (lexes_ignored (c := ' ') rfl hj)
      simpa using this
  cases is with
  | nil => exact h
  | cons i is =>
    obtain ⟨hends, hlexes⟩ := hmore is fun j hj => List.mem_cons_of_mem i hj
    have hi := hpart i List.mem_cons_self _ _ hends hlexes
    have := lexes_punct (c := '(') (p := .parenL) rfl hi
    simpa [row, between] using this

theorem lexes_declaration {a : SchemaInput} (hname : isName a.name) (hw : a.type.isWritable)
    {cs : List Char} {ts : List Token} (hcs : endsName cs) (h : Lexes cs ts) :
    Lexes (("$" ++ a.name ++ ": " ++ a.type.text).toList ++ cs) (declarationTokens a ++ ts) := by
  have htype := lexes_type hw hcs h
  have hcolon := lexes_punct (c := ':') (p := .colon) rfl (lexes_ignored (c := ' ') rfl htype)
  have hvariable := lexes_punct (c := '$') (p := .dollar) rfl (lexes_name hname rfl hcolon)
  simpa [declarationTokens] using hvariable

theorem lexes_use {a : SchemaInput} (hname : isName a.name) {cs : List Char} {ts : List Token}
    (hcs : endsName cs) (h : Lexes cs ts) :
    Lexes ((a.name ++ ": $" ++ a.name).toList ++ cs) (useTokens a ++ ts) := by
  have hvariable := lexes_punct (c := '$') (p := .dollar) rfl (lexes_name hname hcs h)
  have hcolon := lexes_punct (c := ':') (p := .colon) rfl (lexes_ignored (c := ' ') rfl hvariable)
  simpa [useTokens] using lexes_name hname rfl hcolon

/-- Arguments whose names and types can be written. -/
def Writable (args : List SchemaInput) : Prop :=
  ∀ a ∈ args, isName a.name ∧ a.type.isWritable

theorem keyword_operation (kind : OperationKind) : kind.operation.keyword = kind.keyword := by
  cases kind <;> rfl

theorem toList_operationText (kind : OperationKind) (field : String) (args : List SchemaInput) :
    (operationText kind field args).toList =
      kind.keyword.toList ++ ' ' :: (field.toList ++
        (row (fun a => ("$" ++ a.name ++ ": " ++ a.type.text).toList) args ++
          ' ' :: '\x7b' :: ' ' :: (field.toList ++
            (row (fun a => (a.name ++ ": $" ++ a.name).toList) args ++ [' ', '\x7d'])))) := by
  unfold operationText
  simp only [String.toList_append, toList_parenthesized]
  simp

/-- The text of a request is read into its tokens. -/
theorem lexes_operationText {kind : OperationKind} {field : String} {args : List SchemaInput}
    (hfield : isName field) (hargs : Writable args) :
    Lexes (operationText kind field args).toList
      (.name kind.operation.keyword :: requestTokens field args) := by
  have hclose : Lexes [' ', '\x7d'] [.punct .braceR, .eof] :=
    lexes_ignored rfl (lexes_punct rfl lexes_nil)
  have huses := lexes_row (fun a ha _ _ => lexes_use (hargs a ha).1) hclose
  have hselected := lexes_name hfield (by cases args <;> rfl) huses
  have hopen := lexes_ignored (c := ' ') rfl (lexes_punct (c := '\x7b') (p := .braceL) rfl
    (lexes_ignored (c := ' ') rfl hselected))
  have hdeclared := lexes_row
    (fun a ha _ _ => lexes_declaration (hargs a ha).1 (hargs a ha).2) hopen
  have hnamed := lexes_name hfield (by cases args <;> rfl) hdeclared
  have hkeyword : isName kind.keyword := by cases kind <;> decide
  have := lexes_name hkeyword rfl (lexes_ignored (c := ' ') rfl hnamed)
  rw [toList_operationText, keyword_operation]
  exact this

/-! ## Reading it back -/

/-- The text of a request is read as its operation, where lists may stand deep enough. -/
theorem parse_operationText (kind : OperationKind) {field : String} {args : List SchemaInput}
    {limit : Nat} (hfield : isName field) (hargs : Writable args) (hlimit : 0 < limit)
    (hdepth : ∀ a ∈ args, a.type.depth ≤ limit) :
    ∃ o, parseWithin limit (operationText kind field args) = .ok [.operation o] ∧
      Requests kind.operation field args o := by
  have hlexes : Lexes (operationText kind field args).toList
      (.name kind.operation.keyword :: requestTokens field args) :=
    lexes_operationText hfield hargs
  obtain ⟨o, ho, hrequests⟩ := documentOf_request hlimit
    (fun a ha => ⟨(hargs a ha).2, hdepth a ha⟩) (hlexes _ (Nat.lt_succ_self _))
  refine ⟨o, ?_, hrequests⟩
  unfold parseWithin
  simp only [lex, ho]

/-- What an operation declares and passes on tells which arguments it was made for. -/
theorem requests_inj {kind kind' : OperationKind} {field field' : String}
    {args args' : List SchemaInput} {o : Operation}
    (h : Requests kind.operation field args o) (h' : Requests kind'.operation field' args' o) :
    kind = kind' ∧ field = field' ∧
      args.map (fun a => (a.name, a.type)) = args'.map fun a => (a.name, a.type) := by
  obtain ⟨xs, -, ho⟩ := h
  obtain ⟨xs', -, ho'⟩ := h'
  rw [ho] at ho'
  injection ho' with htype hname hdefinitions
  refine ⟨?_, Option.some.inj hname, ?_⟩
  · cases kind <;> cases kind' <;> first | rfl | contradiction
  · have := congrArg (List.map fun v : VariableDefinition => (v.name, v.type)) hdefinitions
    simpa [declaration, Function.comp_def] using this

/-- There is a limit that leaves room for all arguments. -/
theorem exists_limit : ∀ args : List SchemaInput,
    ∃ limit, 0 < limit ∧ ∀ a ∈ args, a.type.depth ≤ limit
  | [] => ⟨1, Nat.one_pos, nofun⟩
  | a :: args => by
    obtain ⟨limit, hpos, hlimit⟩ := exists_limit args
    refine ⟨max a.type.depth limit, by omega, fun b hb => ?_⟩
    rcases List.mem_cons.mp hb with rfl | hb
    · exact Nat.le_max_left _ _
    · exact Nat.le_trans (hlimit b hb) (Nat.le_max_right _ _)

/-- Different requests have different texts. -/
theorem operationText_inj {kind kind' : OperationKind} {field field' : String}
    {args args' : List SchemaInput} (hfield : isName field) (hfield' : isName field')
    (hargs : Writable args) (hargs' : Writable args')
    (h : operationText kind field args = operationText kind' field' args') :
    kind = kind' ∧ field = field' ∧
      args.map (fun a => (a.name, a.type)) = args'.map fun a => (a.name, a.type) := by
  obtain ⟨limit, hpos, hlimit⟩ := exists_limit (args ++ args')
  obtain ⟨o, ho, hrequests⟩ := parse_operationText kind hfield hargs hpos
    fun a ha => hlimit a (List.mem_append_left _ ha)
  obtain ⟨o', ho', hrequests'⟩ := parse_operationText kind' hfield' hargs' hpos
    fun a ha => hlimit a (List.mem_append_right _ ha)
  rw [h, ho'] at ho
  obtain rfl : o' = o := by
    injection ho with hdocument
    injection hdocument with hoperation
    injection hoperation
  exact requests_inj hrequests hrequests'

/-! ## Parentheses -/

theorem not_mem_of_isName {s : String} {c : Char} (hs : isName s) (hc : isNameChar c = false) :
    c ∉ s.toList := by
  unfold isName at hs
  split at hs
  · contradiction
  · next d r hchars =>
    simp only [Bool.and_eq_true, List.all_eq_true] at hs
    intro hmem
    rw [hchars] at hmem
    have : isNameChar c := by
      rcases List.mem_cons.mp hmem with rfl | hmem
      · exact (isNameStart_facts hs.1).2.2.2.2.2
      · exact hs.2 c hmem
    simp [hc] at this

/-- There are parentheses in the text of a request if there are arguments. -/
theorem mem_operationText_iff {kind : OperationKind} {field : String} {args : List SchemaInput}
    (hfield : isName field) {c : Char} (hc : c = '(' ∨ c = ')') :
    c ∈ (operationText kind field args).toList ↔ args ≠ [] := by
  rw [toList_operationText]
  cases args with
  | nil =>
    have hname : c ∉ field.toList := not_mem_of_isName hfield (by rcases hc with rfl | rfl <;> rfl)
    have hkeyword : c ∉ kind.keyword.toList := by
      rcases hc with rfl | rfl <;> cases kind <;> decide
    rcases hc with rfl | rfl <;> simp [row, hname, hkeyword]
  | cons a args => rcases hc with rfl | rfl <;> simp [row]

/-! ## The request for a field -/

/-- A request is an operation that agrees with its variables.

Its text is read as one operation of the kind and name that were asked for. The operation declares
each argument with its type, in order and without a default value, and selects the one field,
passing each variable on to the argument of its name. Parentheses stand where there are arguments.
The values are those given by name, whatever they are, or a default. So each variable is declared,
used and given a value once, and different requests have different texts. -/
theorem request_agrees (kind : OperationKind) (field : String) (args : List SchemaInput)
    (overrides : List (String × Value)) (hfield : isName field) (hargs : Writable args)
    (hdistinct : (args.map SchemaInput.name).Nodup) :
    (∀ limit, 0 < limit → (∀ a ∈ args, a.type.depth ≤ limit) → ∃ xs : List Argument,
      parseWithin limit (operationText kind field args) =
        .ok [.operation ⟨kind.operation, some field, args.map fun a => ⟨a.name, a.type, none, []⟩,
          [], [.field none field xs [] []]⟩] ∧
      xs.map (fun x => (x.name, x.value)) = args.map (fun a => (a.name, .variable a.name)) ∧
      ∀ a ∈ args, (xs.map Argument.name).count a.name = 1) ∧
    ('(' ∈ (operationText kind field args).toList ↔ args ≠ []) ∧
    (')' ∈ (operationText kind field args).toList ↔ args ≠ []) ∧
    (∃ given, variableValues args (.named overrides) = .ok given ∧
      given = args.map (fun a => (a.name, (overrides.lookup a.name).getD (.text "value"))) ∧
      ∀ a ∈ args, (given.map Prod.fst).count a.name = 1) ∧
    ∀ kind' field' args', isName field' → Writable args' →
      operationText kind field args = operationText kind' field' args' →
        kind = kind' ∧ field = field' ∧
          args.map (fun a => (a.name, a.type)) = args'.map fun a => (a.name, a.type) := by
  have hcount : ∀ a ∈ args, (args.map SchemaInput.name).count a.name = 1 := fun a ha =>
    List.count_eq_one_of_mem hdistinct (List.mem_map_of_mem ha)
  refine ⟨?_, mem_operationText_iff hfield (.inl rfl), mem_operationText_iff hfield (.inr rfl),
    ?_, ?_⟩
  · intro limit hlimit hdepth
    obtain ⟨o, ho, xs, hxs, rfl⟩ := parse_operationText kind hfield hargs hlimit hdepth
    have hpassed : xs.map (fun x => (x.name, x.value)) =
        args.map fun a => (a.name, .variable a.name) := by
      clear ho hdepth hargs hdistinct hcount
      induction hxs with
      | nil => rfl
      | cons hx _ ih => rw [List.map_cons, List.map_cons, ih, hx.1, hx.2]
    have hnames : xs.map Argument.name = args.map SchemaInput.name := by
      have := congrArg (List.map Prod.fst) hpassed
      simpa [Function.comp_def] using this
    exact ⟨xs, ho, hpassed, fun a ha => hnames ▸ hcount a ha⟩
  · refine ⟨_, Schema.variableValues_named args overrides, rfl, fun a ha => ?_⟩
    have hkeys : (args.map fun a => (a.name, (overrides.lookup a.name).getD defaultVariable)).map
        Prod.fst = args.map SchemaInput.name := by
      rw [List.map_map]
      rfl
    exact hkeys ▸ hcount a ha
  · exact fun kind' field' args' hfield' hargs' h =>
      operationText_inj hfield hfield' hargs hargs' h

/-- Two arguments, one of them under the name of a keyword. -/
def twoArguments : List SchemaInput :=
  [⟨"query", .nonNull (.list (.nonNull (.named "ID"))), none, false⟩,
   ⟨"on", .named "Int", none, false⟩]

/-- The request for a field with two arguments, one of which has a value that counts as absent. -/
theorem twoArguments_agree : isName "null" ∧ Writable twoArguments ∧
    (twoArguments.map SchemaInput.name).Nodup ∧
    (∃ xs : List Argument,
      parseWithin 1 (operationText .query "null" twoArguments) =
        .ok [.operation ⟨.query, some "null",
          [⟨"query", .nonNull (.list (.nonNull (.named "ID"))), none, []⟩,
           ⟨"on", .named "Int", none, []⟩], [], [.field none "null" xs [] []]⟩] ∧
      xs.map (fun x => (x.name, x.value)) =
        [("query", .variable "query"), ("on", .variable "on")]) ∧
    variableValues twoArguments (.named [("on", .null)]) =
      .ok [("query", .text "value"), ("on", .null)] := by
  have hwritable : Writable twoArguments := by
    unfold Writable
    decide
  have hdistinct : (twoArguments.map SchemaInput.name).Nodup := by decide
  obtain ⟨hparse, -, -, ⟨given, hgiven, hvalues, -⟩, -⟩ :=
    request_agrees .query "null" twoArguments [("on", .null)] (by decide) hwritable hdistinct
  obtain ⟨xs, hxs, hpassed, -⟩ := hparse 1 Nat.one_pos (by decide)
  refine ⟨by decide, hwritable, hdistinct, ⟨xs, hxs, hpassed⟩, ?_⟩
  rw [hgiven, hvalues]
  rfl

end GraphPaths
