import GraphPaths.Proofs.Paths

/-!
# Fields that have paths

The fields that an export makes paths for can be listed without going through the roots: those of
the query root, each replaced by the mutation of its name where there is one, and then the other
mutations (`Schema.exposed`). With values by name the examples are those of the listed fields
(`examples_eq_ok_iff`), and so the whole document can be written down (`transformWith_eq_ok_iff`).
-/

namespace GraphPaths

/-- A field of the root of a kind. -/
structure RootField where
  kind : OperationKind
  field : SchemaField

/-- The name of a field of a root. -/
def RootField.name (x : RootField) : String :=
  x.field.name

namespace Schema

/-- The fields of the root of a kind, if it is asked for. -/
def requestedFields (s : Schema) (requested : List OperationKind) (kind : OperationKind) :
    List RootField :=
  if kind ∈ requested then (s.rootFields kind).map (RootField.mk kind) else []

/-- The mutation of a name among those asked for. -/
def requestedMutation? (s : Schema) (requested : List OperationKind) (name : String) :
    Option RootField :=
  (s.requestedFields requested .mutation).find? fun m => m.name == name

/-- The names of the queries that are asked for. -/
def queryNames (s : Schema) (requested : List OperationKind) : List String :=
  (s.requestedFields requested .query).map RootField.name

/-- The fields that have paths, in the order of the paths. -/
def exposed (s : Schema) (requested : List OperationKind) : List RootField :=
  (s.requestedFields requested .query).map (fun x => (s.requestedMutation? requested x.name).getD x)
    ++ (s.requestedFields requested .mutation).filter fun m => m.name ∉ s.queryNames requested

/-- The example of a field of a root. -/
def exampleOf (s : Schema) (values : List (String × Value)) (withName : Bool) (x : RootField) :
    Example where
  summary := "Example " ++ (s.root? x.kind.operation).getD ""
  request := .record ([("query", .text (operationText x.kind x.name x.field.arguments)),
    ("variables", .record (x.field.arguments.map fun a =>
      (a.name, (values.lookup a.name).getD defaultVariable)))]
    ++ if withName then [("operationName", .text x.name)] else [])
  response := mockResponse (s.typeRef true x.field.type) x.name
  fieldName := x.name
  kind := x.kind
  returnType := some (s.typeRef true x.field.type)

/-- The example of a field of a root under its name. -/
def entryOf (s : Schema) (values : List (String × Value)) (withName : Bool) (x : RootField) :
    String × Example :=
  (x.name, s.exampleOf values withName x)

variable {s : Schema} {requested : List OperationKind} {kind : OperationKind}

/-! ## The list -/

theorem kind_of_requestedFields {x : RootField} (h : x ∈ s.requestedFields requested kind) :
    x.kind = kind := by
  unfold requestedFields at h
  split at h
  · obtain ⟨f, -, rfl⟩ := List.mem_map.mp h
    rfl
  · contradiction

theorem nodup_requestedFields (hs : s.Coherent) (requested : List OperationKind)
    (kind : OperationKind) : ((s.requestedFields requested kind).map RootField.name).Nodup := by
  unfold requestedFields
  split
  · rw [List.map_map]
    exact nodup_rootFields hs kind
  · exact List.nodup_nil

theorem name_of_requestedMutation {name : String} {m : RootField}
    (h : s.requestedMutation? requested name = some m) : m.name = name := by
  simpa using List.find?_some h

/-- A mutation in the place of a query has its name. -/
theorem name_getD_requestedMutation (x : RootField) :
    ((s.requestedMutation? requested x.name).getD x).name = x.name := by
  cases h : s.requestedMutation? requested x.name with
  | none => rfl
  | some m => exact name_of_requestedMutation h

/-- The fields that have paths are named like the queries and, after them, like the mutations that
are no queries. -/
theorem names_exposed (s : Schema) (requested : List OperationKind) :
    (s.exposed requested).map RootField.name = s.queryNames requested ++
      ((s.requestedFields requested .mutation).map RootField.name).filter
        (· ∉ s.queryNames requested) := by
  unfold exposed
  rw [List.map_append, List.map_map, List.filter_map]
  refine congrArg (· ++ _) (List.map_congr_left fun x _ => ?_)
  exact name_getD_requestedMutation x

theorem nodup_names_exposed (hs : s.Coherent) (requested : List OperationKind) :
    ((s.exposed requested).map RootField.name).Nodup := by
  rw [names_exposed, List.nodup_append]
  refine ⟨nodup_requestedFields hs requested .query,
    (nodup_requestedFields hs requested .mutation).filter _, fun a ha b hb hab => ?_⟩
  have := (List.mem_filter.mp hb).2
  exact absurd (hab ▸ ha) (by simpa using this)

/-- Under a name stands the mutation, or else the query. -/
theorem find?_exposed (s : Schema) (requested : List OperationKind) (name : String) :
    (s.exposed requested).find? (fun x => x.name == name) =
      (s.requestedMutation? requested name).or
        ((s.requestedFields requested .query).find? fun x => x.name == name) := by
  have hname : ((fun x : RootField => x.name == name) ∘
      fun x => (s.requestedMutation? requested x.name).getD x) = fun x => x.name == name := by
    funext x
    rw [Function.comp_apply, name_getD_requestedMutation]
  unfold exposed
  rw [List.find?_append, List.find?_map, hname]
  cases hquery : (s.requestedFields requested .query).find? fun x => x.name == name with
  | some x =>
    obtain rfl : x.name = name := by simpa using List.find?_some hquery
    rw [Option.map_some, Option.some_or]
    cases s.requestedMutation? requested x.name <;> rfl
  | none =>
    have hnew : name ∉ s.queryNames requested := by
      intro hmem
      obtain ⟨x, hx, rfl⟩ := List.mem_map.mp hmem
      exact absurd (List.find?_eq_none.mp hquery x hx) (by simp)
    rw [Option.map_none, Option.none_or, Option.or_none, List.find?_filter]
    unfold requestedMutation?
    refine congrArg (fun p => List.find? p _) (funext fun m => ?_)
    by_cases hm : m.name = name
    · simp [hm, hnew]
    · simp [hm]

theorem mem_exposed {x : RootField} (h : x ∈ s.exposed requested) :
    x ∈ s.requestedFields requested x.kind := by
  rcases List.mem_append.mp h with h | h
  · obtain ⟨q, hq, rfl⟩ := List.mem_map.mp h
    cases hm : s.requestedMutation? requested q.name with
    | none => exact kind_of_requestedFields hq ▸ hq
    | some m =>
      have hmem := List.mem_of_find?_eq_some hm
      exact kind_of_requestedFields hmem ▸ hmem
  · have hmem := (List.mem_filter.mp h).1
    exact kind_of_requestedFields hmem ▸ hmem

theorem field_mem_rootFields {x : RootField} (h : x ∈ s.exposed requested) :
    x.field ∈ s.rootFields x.kind := by
  have hx := mem_exposed h
  unfold requestedFields at hx
  split at hx
  · obtain ⟨f, hf, heq⟩ := List.mem_map.mp hx
    rw [← heq]
    exact hf
  · contradiction

/-! ## Examples -/

variable {values : List (String × Value)} {withName : Bool}

theorem exampleFor_eq_ok {x : RootField} {rootName : String}
    (hroot : s.root? x.kind.operation = some rootName) :
    exampleFor (s.typeRef true) x.kind rootName (.named values) withName x.field =
      .ok (s.exampleOf values withName x) := by
  unfold exampleFor requestFor exampleOf
  rw [variableValues_named, hroot]
  rfl

theorem query_exampleOf (s : Schema) (values : List (String × Value)) (withName : Bool)
    (x : RootField) : (s.exampleOf values withName x).request.get? "query" =
      some (.text (operationText x.kind x.name x.field.arguments)) := by
  simp [exampleOf]

/-- Examples that show fields are those of the fields. -/
theorem eq_of_shows {fields : List SchemaField} {ex : Examples}
    (h : List.Forall₂ (s.Shows (.named values) withName kind) fields ex) :
    ex = (fields.map (RootField.mk kind)).map (s.entryOf values withName) := by
  induction h with
  | nil => rfl
  | @cons f entry fields ex hf _ ih =>
    obtain ⟨key, e⟩ := entry
    obtain ⟨rfl, rootName, hroot, he⟩ := hf
    obtain rfl := Except.ok.inj ((exampleFor_eq_ok (x := ⟨kind, f⟩) hroot).symm.trans he)
    rw [ih, List.map_cons, List.map_cons]
    rfl

/-- A root that has examples can be asked for its fields. -/
theorem hasRootFields_of_rootExamples {values : ExampleValues} {ex : Examples}
    (h : rootExamples s.roots values withName kind = .ok ex) : s.hasRootFields kind := by
  unfold rootExamples at h
  rw [root?_roots] at h
  unfold hasRootFields
  cases hroot : s.root? kind.operation with
  | none => rfl
  | some name =>
    rw [hroot] at h
    simp only [Option.map_some, rootOf, fieldExamples] at h
    cases hshape : s.shape? name with
    | none =>
      rw [hshape] at h
      contradiction
    | some shape =>
      rw [hshape] at h
      cases shape with
      | object interfaces fields => simp [hshape]
      | interface interfaces fields => simp [hshape]
      | inputObject isOneOf fields =>
        cases fields with
        | nil => simp [hshape]
        | cons => contradiction
      | _ => contradiction

theorem requestedExamples_eq_ok_iff {ex : Examples} :
    requestedExamples s.roots (.named values) withName requested kind = .ok ex ↔
      (kind ∈ requested → s.hasRootFields kind) ∧
        ex = (s.requestedFields requested kind).map (s.entryOf values withName) := by
  unfold requestedExamples requestedFields
  split
  · next hk =>
    constructor
    · intro h
      exact ⟨fun _ => hasRootFields_of_rootExamples h, eq_of_shows (shows_of_rootExamples h)⟩
    · rintro ⟨hroot, rfl⟩
      obtain ⟨ex, hex⟩ := rootExamples_named withName values (hroot hk)
      rw [hex, eq_of_shows (shows_of_rootExamples hex)]
  · next hk => exact ⟨fun h => ⟨fun h => absurd h hk, (Except.ok.inj h).symm⟩, fun h => h.2 ▸ rfl⟩

theorem keys_map_entryOf (xs : List RootField) :
    Examples.keys (xs.map (s.entryOf values withName)) = xs.map RootField.name := by
  unfold Examples.keys
  rw [List.map_map]
  rfl

theorem lookup_map_entryOf (key : String) : ∀ xs : List RootField,
    (xs.map (s.entryOf values withName)).lookup key =
      (xs.find? fun x => x.name == key).map (s.exampleOf values withName)
  | [] => rfl
  | x :: xs => by
    rw [List.map_cons]
    by_cases hk : key = x.name
    · rw [List.find?_cons_of_pos (by simpa using hk.symm), hk]
      exact List.lookup_cons_self
    · rw [List.find?_cons_of_neg (by simpa using Ne.symm hk), ← lookup_map_entryOf key xs]
      exact lookup_cons_of_ne hk _ _

/-- The examples of both roots, merged, are those of the fields that have paths. -/
theorem merge_map_entryOf (hs : s.Coherent) (requested : List OperationKind) :
    Examples.merge ((s.requestedFields requested .query).map (s.entryOf values withName))
        ((s.requestedFields requested .mutation).map (s.entryOf values withName)) =
      (s.exposed requested).map (s.entryOf values withName) := by
  have hmutations : (Examples.keys ((s.requestedFields requested .mutation).map
      (s.entryOf values withName))).Nodup :=
    keys_map_entryOf (s := s) _ ▸ nodup_requestedFields hs requested .mutation
  refine Examples.eq_of_lookup ?_ ?_ fun key => ?_
  · rw [Examples.keys_merge _ hmutations, keys_map_entryOf, keys_map_entryOf, keys_map_entryOf,
      names_exposed]
    rfl
  · rw [keys_map_entryOf]
    exact nodup_names_exposed hs requested
  · rw [Examples.lookup_merge key _ hmutations, lookup_map_entryOf, lookup_map_entryOf,
      lookup_map_entryOf, find?_exposed]
    exact Option.map_or.symm

/-- With values by name the examples are those of the fields that have paths. There are some if
every root that is asked for has fields. -/
theorem examples_eq_ok_iff (hs : s.Coherent) {kinds : Kinds} {ex : Examples} :
    s.examples (.named values) withName kinds = .ok ex ↔
      ∃ requested, requestedKinds kinds = .ok requested ∧
        (∀ kind ∈ requested, s.hasRootFields kind) ∧
        ex = (s.exposed requested).map (s.entryOf values withName) := by
  have hqueries : ∀ requested, (Examples.keys ((s.requestedFields requested .query).map
      (s.entryOf values withName))).Nodup := fun requested =>
    keys_map_entryOf (s := s) _ ▸ nodup_requestedFields hs requested .query
  constructor
  · intro h
    unfold Schema.examples at h
    rw [(buildExamples_yields s.roots _ withName kinds).run_fst] at h
    obtain ⟨requested, hk, h⟩ := bind_eq_ok.mp h
    obtain ⟨q, hq, h⟩ := bind_eq_ok.mp h
    obtain ⟨m, hm, h⟩ := bind_eq_ok.mp h
    obtain rfl := Except.ok.inj h
    obtain ⟨hquery, rfl⟩ := requestedExamples_eq_ok_iff.mp hq
    obtain ⟨hmutation, rfl⟩ := requestedExamples_eq_ok_iff.mp hm
    refine ⟨requested, hk, fun kind => ?_, ?_⟩
    · cases kind with
      | query => exact hquery
      | mutation => exact hmutation
    · rw [Examples.nil_merge (hqueries requested), merge_map_entryOf hs]
  · rintro ⟨requested, hk, hroots, rfl⟩
    rw [examples_eq s _ withName hk,
      requestedExamples_eq_ok_iff.mpr ⟨hroots .query, rfl⟩,
      requestedExamples_eq_ok_iff.mpr ⟨hroots .mutation, rfl⟩]
    refine congrArg Except.ok ?_
    rw [Examples.nil_merge (hqueries requested), merge_map_entryOf hs]

/-! ## Documents -/

/-- The operation of a field of a root. -/
def operationOf (s : Schema) (o : Options) (x : RootField) : ApiOperation where
  id := x.name
  summary := "Example " ++ (s.root? x.kind.operation).getD ""
  query := .text (operationText x.kind x.name x.field.arguments)
  variableValues := if x.field.arguments.isEmpty then none
    else some (.record (x.field.arguments.map fun a =>
      (a.name, (o.exampleValues.fields.lookup a.name).getD defaultVariable)))
  operationName := if o.namesOperation && x.name ≠ "" then some (.text x.name) else none
  response := mockResponse (s.typeRef true x.field.type) x.name
  tag := (o.tag? x.name).map RouteTag.name

/-- The component of a field of a root. -/
def componentOf (s : Schema) (x : RootField) : ApiComponent where
  field := x.name
  properties :=
    (((mockResponse (s.typeRef true x.field.type) x.name).get? "data").bind
      Value.entries?).getD [] |>.map fun entry =>
        (entry.1, (s.exampleOf [] false x).declaredType x.name entry.1)

/-- What the example of a field of a root becomes. -/
def partOf (s : Schema) (o : Options) (x : RootField) : ApiPart :=
  ⟨s.componentOf x, s.operationOf o x⟩

/-- The document of the fields that have paths. -/
def exposedDocument (s : Schema) (o : Options) (requested : List OperationKind) : ApiDocument :=
  documentOf o ((s.exposed requested).map (s.entryOf o.exampleValues.fields o.namesOperation))
    ((s.exposed requested).map (s.partOf o))

/-- The operation of the example of a field. -/
theorem apiOperation_exampleOf (s : Schema) (o : Options) (x : RootField) :
    (s.exampleOf o.exampleValues.fields o.namesOperation x).apiOperation x.name (o.tag? x.name) =
      .ok (s.operationOf o x) := by
  have hvalues : (s.exampleOf o.exampleValues.fields o.namesOperation x).part? "variables" =
      (s.operationOf o x).variableValues := by
    unfold Example.part? exampleOf operationOf
    rw [Value.get?_record]
    cases x.field.arguments <;> rfl
  have hname : (s.exampleOf o.exampleValues.fields o.namesOperation x).part? "operationName" =
      (s.operationOf o x).operationName := by
    have hempty : (Value.text x.name).isEmpty = decide (x.name = "") := by
      show x.name.isEmpty = _
      rw [Bool.eq_iff_iff, String.isEmpty_iff, decide_eq_true_eq]
    unfold Example.part? exampleOf operationOf
    rw [Value.get?_record]
    cases o.namesOperation with
    | false => rfl
    | true =>
      show Option.filter _ (some (Value.text x.name)) = _
      rw [Option.filter_some, hempty]
      by_cases hx : x.name = "" <;> simp [hx]
  unfold Example.apiOperation
  rw [query_exampleOf, hvalues, hname]
  rfl

/-- The component of the example of a field. -/
theorem component_exampleOf (s : Schema) (values : List (String × Value)) (withName : Bool)
    (x : RootField) :
    (s.exampleOf values withName x).component x.name = .ok (s.componentOf x) := by
  obtain ⟨entries, hentries⟩ := exists_mockResponse (s.typeRef true x.field.type) x.name
  rw [component_of_response hentries, componentOf, hentries, Value.get?_record]
  rfl

theorem apiParts_exposed (s : Schema) (o : Options) (xs : List RootField) :
    apiParts o (xs.map (s.entryOf o.exampleValues.fields o.namesOperation)) =
      .ok (xs.map (s.partOf o)) := by
  refine mapM_of_forall₂ ?_
  rw [List.forall₂_map_left_iff, List.forall₂_map_right_iff]
  exact List.forall₂_same.mpr fun x _ =>
    apiPart_eq_ok.mpr ⟨component_exampleOf s _ _ x, apiOperation_exampleOf s o x⟩

/-- With values by name the document of a schema is that of the fields that have paths. There is one
if every root that is asked for has fields. -/
theorem transformWith_eq_ok_iff (hs : s.Coherent) {o : Options} {values : List (String × Value)}
    (hvalues : o.exampleValues = .named values) {kinds : Kinds} {d : ApiDocument} :
    (transformWith s o kinds).run.1 = .ok d ↔
      ∃ requested, requestedKinds kinds = .ok requested ∧
        (∀ kind ∈ requested, s.hasRootFields kind) ∧ d = s.exposedDocument o requested := by
  have hfields : o.exampleValues.fields = values := by rw [hvalues]; rfl
  rw [(transformWith_yields s o kinds).run_fst, bind_eq_ok]
  simp only [mapError_eq_ok]
  constructor
  · rintro ⟨ex, hex, h⟩
    obtain ⟨parts, hparts, h⟩ := bind_eq_ok.mp h
    rw [hvalues] at hex
    obtain ⟨requested, hk, hroots, rfl⟩ := (examples_eq_ok_iff hs).mp hex
    rw [← hfields, apiParts_exposed] at hparts
    obtain rfl := Except.ok.inj hparts
    refine ⟨requested, hk, hroots, ?_⟩
    rw [← Except.ok.inj h, ← hfields]
    rfl
  · rintro ⟨requested, hk, hroots, rfl⟩
    refine ⟨_, hvalues ▸ (examples_eq_ok_iff hs).mpr ⟨requested, hk, hroots, rfl⟩, ?_⟩
    rw [← hfields, apiParts_exposed]
    rfl

end Schema

end GraphPaths
