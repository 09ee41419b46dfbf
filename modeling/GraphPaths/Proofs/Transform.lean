import GraphPaths.Proofs.Examples.Roots
import GraphPaths.Proofs.Value.Record
import GraphPaths.Transform

/-!
# What a transformation comes to

A transformation comes to the document of the schema's examples (`transform_yields`). An example has
a place in a document if its request has a text and its data can be gone through (`Example.Fits`),
as it is with every example for a field (`fits_of_exampleFor`), and the paths of a document are
those of the examples, in order (`paths_toValue`). Example values count by what is found under each
name only (`transformWith_congr`).
-/

namespace GraphPaths

/-! ## Documents of examples -/

/-- What examples become. -/
def apiParts (o : Options) (ex : Examples) : Except AssembleError (List ApiPart) :=
  ex.mapM fun (field, e) => e.apiPart field (o.tag? field)

/-- The document of examples with what they become. -/
def documentOf (o : Options) (ex : Examples) (parts : List ApiPart) : ApiDocument where
  openapi := o.openapi
  info := o.info
  serverUrl := o.serverUrl
  operations := parts.map ApiPart.operation
  components := parts.map ApiPart.component
  tags := ex.foldl (fun tags (field, _) => addTag tags (o.tag? field)) []

theorem partsOf_yields (o : Options) : ∀ ex : Examples, (partsOf o ex).Yields (apiParts o ex)
  | [] => Job.yields_pure []
  | (field, e) :: ex => by
    unfold apiParts
    rw [List.mapM_cons]
    refine (Job.yields_ofExcept _).bind fun part _ => (Job.yields_log _ _).then ?_
    exact (partsOf_yields o ex).bind fun parts _ => Job.yields_pure _

theorem assemble_yields (o : Options) (ex : Examples) :
    (assemble o ex).Yields (apiParts o ex >>= fun parts => .ok (documentOf o ex parts)) :=
  (Job.yields_log _ _).then ((partsOf_yields o ex).bind fun _ _ => Job.yields_pure _)

/-- The document of a schema with checked options, without the records. -/
theorem transformWith_yields (s : Schema) (o : Options) (kinds : Kinds) :
    (transformWith s o kinds).Yields (do
      let ex ← ((buildExamples s.roots o.exampleValues kinds o.namesOperation).run.1).mapError
        TransformError.examples
      (apiParts o ex >>= fun parts => .ok (documentOf o ex parts)).mapError
        TransformError.assembly) := by
  refine (Job.yields_log _ _).then ?_
  have hex := buildExamples_yields s.roots o.exampleValues o.namesOperation kinds
  rw [hex.run_fst]
  refine (hex.mapError _).bind fun ex _ => ?_
  rw [← bind_pure (Except.mapError _ _)]
  refine ((assemble_yields o ex).mapError _).bind fun d _ => ?_
  exact (Job.yields_log _ _).then (Job.yields_pure d)

/-- The document of a schema, without the records. -/
theorem transform_yields (s : Schema) (options : Value) (kinds : Kinds) :
    (transform s options kinds).Yields (do
      let o ← (Options.ofValue options).mapError TransformError.options
      let ex ← ((buildExamples s.roots o.exampleValues kinds o.namesOperation).run.1).mapError
        TransformError.examples
      (apiParts o ex >>= fun parts => .ok (documentOf o ex parts)).mapError
        TransformError.assembly) :=
  ((Job.yields_ofExcept _).mapError _).bind fun o _ => transformWith_yields s o kinds

/-- Options given as data count as the options that they give. -/
theorem run_transform {options : Value} {o : Options} (h : Options.ofValue options = .ok o)
    (s : Schema) (kinds : Kinds) :
    (transform s options kinds).run.1 = (transformWith s o kinds).run.1 := by
  rw [(transform_yields s options kinds).run_fst, (transformWith_yields s o kinds).run_fst, h]
  rfl

/-! ## What an example becomes -/

theorem apiPart_eq_ok {e : Example} {field : String} {tag : Option RouteTag} {part : ApiPart} :
    e.apiPart field tag = .ok part ↔
      e.component field = .ok part.component ∧ e.apiOperation field tag = .ok part.operation := by
  unfold Example.apiPart
  constructor
  · intro h
    obtain ⟨component, hcomponent, h⟩ := bind_eq_ok.mp h
    obtain ⟨operation, hoperation, h⟩ := bind_eq_ok.mp h
    obtain rfl := Except.ok.inj h
    exact ⟨hcomponent, hoperation⟩
  · rintro ⟨hcomponent, hoperation⟩
    rw [hcomponent, hoperation]
    rfl

/-- A component has a property for each key of the data. -/
theorem component_eq_ok {e : Example} {field : String} {c : ApiComponent} :
    e.component field = .ok c ↔ ∃ keys, e.dataKeys = .ok keys ∧
      c = ⟨field, keys.map fun k => (k, e.declaredType field k)⟩ := by
  unfold Example.component
  rw [bind_eq_ok]
  exact exists_congr fun keys => and_congr_right fun _ =>
    ⟨fun h => (Except.ok.inj h).symm, fun h => congrArg _ h.symm⟩

/-- What an operation takes from its example, its field and its tag. -/
theorem apiOperation_eq_ok {e : Example} {field : String} {tag : Option RouteTag} {op : ApiOperation}
    (h : e.apiOperation field tag = .ok op) :
    op.id = field ∧ op.response = e.response ∧ op.tag = tag.map RouteTag.name := by
  unfold Example.apiOperation at h
  split at h
  · contradiction
  · obtain rfl := Except.ok.inj h
    exact ⟨rfl, rfl, rfl⟩

/-- A value that can be gone through: a mapping, or one whose members can be keys. -/
def Value.GivesKeys (v : Value) : Prop :=
  v.entries?.isSome ∨ ∃ xs, v.members? = some xs ∧ ∀ x ∈ xs, canBeKey x

/-- An example that has a place in documents: its request has a text, and its response is a mapping
whose data are absent, the response itself or something that can be gone through. -/
structure Example.Fits (e : Example) : Prop where
  query : (e.request.get? "query").isSome
  response : e.response.entries?.isSome
  data : ∀ data, e.response.get? "data" = some data → ¬data.isEmpty →
    (∃ l, data = .again l) ∨ data.GivesKeys

theorem Value.exists_keysOf_iff {v : Value} : (∃ keys, v.keysOf = .ok keys) ↔ v.GivesKeys := by
  unfold Value.GivesKeys Value.keysOf
  split
  · next hmap =>
    rw [Value.entries?_eq_some.mpr hmap]
    exact iff_of_true ⟨_, rfl⟩ (.inl rfl)
  · next hother =>
    have hnone : v.entries? = none :=
      Option.eq_none_iff_forall_ne_some.mpr fun es hes => hother es (Value.entries?_eq_some.mp hes)
    rw [hnone, Option.isSome_none]
    cases v.members? with
    | none => simp
    | some xs =>
      cases hfind : xs.find? fun x => !canBeKey x with
      | some x =>
        have hx : canBeKey x = false := by simpa using List.find?_some hfind
        simpa [hfind] using ⟨x, List.mem_of_find?_eq_some hfind, hx⟩
      | none => simpa [hfind] using List.find?_eq_none.mp hfind

-- A text is gone through by its characters, each once, and a number cannot be gone through.
example : (Value.text "xyx").keysOf = .ok [.text "x", .text "y"] ∧
    (Value.int 7).keysOf = .error (.notIterable "int") := ⟨by cbv, rfl⟩

/-- The data of a response that is a mapping have keys if they can be gone through. -/
theorem exists_dataKeys_iff {e : Example} (hresponse : e.response.entries?.isSome) :
    (∃ keys, e.dataKeys = .ok keys) ↔ ∀ data, e.response.get? "data" = some data →
      ¬data.isEmpty → (∃ l, data = .again l) ∨ data.GivesKeys := by
  have hself : ∃ keys, e.response.keysOf = .ok keys := Value.exists_keysOf_iff.mpr (.inl hresponse)
  unfold Example.dataKeys Example.data?
  rw [if_neg (by simpa using Option.isSome_iff_ne_none.mp hresponse)]
  cases e.response.get? "data" with
  | none => exact iff_of_true ⟨_, rfl⟩ nofun
  | some data =>
    rw [Option.filter_some]
    by_cases hempty : data.isEmpty
    · simp [hempty]
    · rw [if_pos (by simp [hempty])]
      cases data with
      | again l => exact iff_of_true hself fun _ h _ => .inl ⟨l, (Option.some.inj h).symm⟩
      | _ => simpa [hempty] using Value.exists_keysOf_iff

theorem exists_apiPart_iff {e : Example} {field : String} {tag : Option RouteTag} :
    (∃ part, e.apiPart field tag = .ok part) ↔ e.Fits := by
  constructor
  · rintro ⟨part, hpart⟩
    obtain ⟨hcomponent, hoperation⟩ := apiPart_eq_ok.mp hpart
    obtain ⟨keys, hkeys, -⟩ := component_eq_ok.mp hcomponent
    have hresponse : e.response.entries?.isSome := by
      by_contra hnone
      rw [Option.not_isSome_iff_eq_none, ← Option.isNone_iff_eq_none] at hnone
      rw [Example.dataKeys, if_pos hnone] at hkeys
      contradiction
    refine ⟨?_, hresponse, (exists_dataKeys_iff hresponse).mp ⟨keys, hkeys⟩⟩
    unfold Example.apiOperation at hoperation
    split at hoperation
    · contradiction
    · next hquery => rw [hquery, Option.isSome_some]
  · rintro ⟨hquery, hresponse, hdata⟩
    obtain ⟨keys, hkeys⟩ := (exists_dataKeys_iff hresponse).mpr hdata
    obtain ⟨query, hquery⟩ := Option.isSome_iff_exists.mp hquery
    unfold Example.apiPart Example.component Example.apiOperation
    rw [hkeys, hquery]
    exact ⟨_, rfl⟩

/-! ## Examples for fields -/

/-- The data of a mock response are a mapping. -/
theorem exists_mockResponse (t : TypeRef) (field : String) :
    ∃ entries, mockResponse t field = .record [("data", .map entries)] := by
  unfold mockResponse TypeRef.mockData
  split
  · exact ⟨_, rfl⟩
  · split <;> exact ⟨_, rfl⟩

/-- The component of an example whose data are a mapping. -/
theorem component_of_response {e : Example} {entries : List (Value × Value)}
    (h : e.response = .record [("data", .map entries)]) (field : String) :
    e.component field =
      .ok ⟨field, entries.map fun entry => (entry.1, e.declaredType field entry.1)⟩ := by
  have hkeys : e.dataKeys = .ok (entries.map Prod.fst) := by
    unfold Example.dataKeys Example.data?
    rw [h, Value.get?_record]
    cases entries <;> rfl
  rw [component_eq_ok]
  exact ⟨_, hkeys, by rw [List.map_map]; rfl⟩

/-- The request of an example has its text. -/
theorem query_of_exampleFor {refOf : Graphql.TypeExpr → TypeRef} {kind : OperationKind}
    {rootName : String} {values : ExampleValues} {withName : Bool} {f : SchemaField} {e : Example}
    (h : exampleFor refOf kind rootName values withName f = .ok e) :
    e.request.get? "query" = some (.text (operationText kind f.name f.arguments)) := by
  obtain ⟨request, hrequest, h⟩ := bind_eq_ok.mp h
  obtain rfl := Except.ok.inj h
  obtain ⟨given, -, hrequest⟩ := bind_eq_ok.mp hrequest
  obtain rfl := Except.ok.inj hrequest
  rw [Value.get?_record]
  rfl

/-- The response of an example is that of the type of its field. -/
theorem response_of_exampleFor {refOf : Graphql.TypeExpr → TypeRef} {kind : OperationKind}
    {rootName : String} {values : ExampleValues} {withName : Bool} {f : SchemaField} {e : Example}
    (h : exampleFor refOf kind rootName values withName f = .ok e) :
    e.response = mockResponse (refOf f.type) f.name := by
  obtain ⟨request, -, h⟩ := bind_eq_ok.mp h
  obtain rfl := Except.ok.inj h
  rfl

/-- An example for a field has a place in documents. -/
theorem fits_of_exampleFor {refOf : Graphql.TypeExpr → TypeRef} {kind : OperationKind}
    {rootName : String} {values : ExampleValues} {withName : Bool} {f : SchemaField} {e : Example}
    (h : exampleFor refOf kind rootName values withName f = .ok e) : e.Fits := by
  obtain ⟨entries, hentries⟩ := exists_mockResponse (refOf f.type) f.name
  refine ⟨by rw [query_of_exampleFor h]; rfl, ?_, fun data hdata _ => .inr (.inl ?_)⟩
  · rw [response_of_exampleFor h]
    rfl
  · rw [response_of_exampleFor h, hentries, Value.get?_record] at hdata
    rw [← Option.some.inj hdata]
    rfl

/-! ## Parts of documents -/

/-- Components and operations have the names of the fields of their examples, and the operations
their tags. -/
theorem names_of_parts {o : Options} {ex : Examples} {parts : List ApiPart}
    (h : apiParts o ex = .ok parts) :
    (parts.map fun part => part.component.field) = Examples.keys ex ∧
    (parts.map fun part => part.operation.id) = Examples.keys ex ∧
    (parts.map fun part => part.operation.tag) =
      ex.map fun entry => (o.tag? entry.1).map RouteTag.name := by
  have hall := forall₂_of_mapM h
  clear h
  induction hall with
  | nil => exact ⟨rfl, rfl, rfl⟩
  | @cons entry part ex parts hpart _ ih =>
    obtain ⟨hcomponent, hoperation⟩ := apiPart_eq_ok.mp hpart
    obtain ⟨hid, -, htag⟩ := apiOperation_eq_ok hoperation
    obtain ⟨keys, -, hkeys⟩ := component_eq_ok.mp hcomponent
    simp only [Examples.keys, List.map_cons, hid, htag, hkeys, List.cons.injEq, true_and]
    exact ih

/-- Examples that fit become parts of a document. -/
theorem exists_apiParts (o : Options) {ex : Examples} (h : ∀ entry ∈ ex, entry.2.Fits) :
    ∃ parts, apiParts o ex = .ok parts :=
  exists_mapM_ok fun entry hentry => exists_apiPart_iff.mpr (h entry hentry)

/-! ## Example values by name -/

/-- Options with the same values under all names, alike otherwise, give the same document. -/
theorem transformWith_congr (s : Schema) (o : Options) {values values' : ExampleValues}
    (h : ∀ name, values.find? name = values'.find? name) (kinds : Kinds) :
    (transformWith s { o with exampleValues := values } kinds).run.1 =
      (transformWith s { o with exampleValues := values' } kinds).run.1 := by
  have hbuild : ∀ withName, (buildExamples s.roots values kinds withName).run.1 =
      (buildExamples s.roots values' kinds withName).run.1 := by
    intro withName
    rw [(buildExamples_yields s.roots values withName kinds).run_fst,
      (buildExamples_yields s.roots values' withName kinds).run_fst]
    simp only [requestedExamples_congr h]
  rw [(transformWith_yields s _ kinds).run_fst, (transformWith_yields s _ kinds).run_fst]
  show ((buildExamples s.roots values kinds o.namesOperation).run.1).mapError _ >>= _ =
    ((buildExamples s.roots values' kinds o.namesOperation).run.1).mapError _ >>= _
  rw [hbuild]
  rfl

/-! ## Paths -/

/-- The keys of the paths are the operations' names with a slash. -/
theorem paths_toValue (d : ApiDocument) :
    ((d.toValue.get? "paths").bind Value.entries?).map (List.map Prod.fst) =
      some (d.operations.map fun op => .text ("/" ++ op.id)) := by
  unfold ApiDocument.toValue
  rw [Value.get?_record]
  simp [List.lookup, Value.entries?_record]

end GraphPaths
