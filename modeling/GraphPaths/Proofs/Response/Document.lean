import GraphPaths.Proofs.Paths
import GraphPaths.Proofs.Response.Data

/-!
# Responses in documents

For every path of a document there is a root field that the path stands for, a mutation before a
query (`Schema.exposedField?`). The document holds the component of the field and the response of
its example, and both are as the type of the field demands (`responses_agree`).
-/

namespace GraphPaths

/-! ## The field of a path -/

namespace Schema

/-- The field of a name among the fields of a root that is asked for. -/
def requestedField? (s : Schema) (requested : List OperationKind) (kind : OperationKind)
    (name : String) : Option SchemaField :=
  if kind ∈ requested then (s.rootFields kind).find? fun f => f.name == name else none

/-- The field that a path stands for: that of the mutation root, or else that of the query root. -/
def exposedField? (s : Schema) (requested : List OperationKind) (name : String) :
    Option SchemaField :=
  (s.requestedField? requested .mutation name).or (s.requestedField? requested .query name)

variable {s : Schema} {values : ExampleValues} {withName : Bool} {kind : OperationKind}

/-- An example is found under a key where a field is found under that name. -/
theorem lookup_of_shows (key : String) {fields : List SchemaField} {ex : Examples}
    (h : List.Forall₂ (s.Shows values withName kind) fields ex) :
    Option.Rel (fun f e => s.Shows values withName kind f (key, e))
      (fields.find? fun f => f.name == key) (ex.lookup key) := by
  induction h with
  | nil => exact .none
  | @cons f entry fields ex hf _ ih =>
    obtain ⟨k, e⟩ := entry
    obtain rfl : k = f.name := hf.1
    by_cases hk : key = f.name
    · rw [List.find?_cons_of_pos (by simpa using hk.symm), hk, List.lookup_cons_self]
      exact .some hf
    · rw [List.find?_cons_of_neg (by simpa using Ne.symm hk), lookup_cons_of_ne hk]
      exact ih

theorem lookup_requestedExamples (key : String) {requested : List OperationKind} {ex : Examples}
    (h : requestedExamples s.roots values withName requested kind = .ok ex) :
    Option.Rel (fun f e => s.Shows values withName kind f (key, e))
      (s.requestedField? requested kind key) (ex.lookup key) := by
  unfold requestedExamples at h
  unfold requestedField?
  split at h
  · next hk =>
    rw [if_pos hk]
    exact lookup_of_shows key (shows_of_rootExamples h)
  · next hk =>
    obtain rfl := Except.ok.inj h
    rw [if_neg hk]
    exact .none

theorem nodup_requestedExamples (hs : s.Coherent) {requested : List OperationKind} {ex : Examples}
    (h : requestedExamples s.roots values withName requested kind = .ok ex) :
    (Examples.keys ex).Nodup := by
  unfold requestedExamples at h
  split at h
  · exact nodup_of_rootExamples hs h
  · obtain rfl := Except.ok.inj h
    exact List.nodup_nil

/-- The example under a key is that for the field that the path stands for. -/
theorem lookup_examples (hs : s.Coherent) {kinds : Kinds} {requested : List OperationKind}
    (hk : requestedKinds kinds = .ok requested) {ex : Examples}
    (h : s.examples values withName kinds = .ok ex) (key : String) :
    Option.Rel (fun f e => ∃ kind, s.Shows values withName kind f (key, e))
      (s.exposedField? requested key) (ex.lookup key) := by
  rw [examples_eq s values withName hk] at h
  obtain ⟨q, hq, h⟩ := bind_eq_ok.mp h
  obtain ⟨m, hm, h⟩ := bind_eq_ok.mp h
  obtain rfl := Except.ok.inj h
  have hquery := lookup_requestedExamples key hq
  have hmutation := lookup_requestedExamples key hm
  rw [Examples.lookup_merge key _ (nodup_requestedExamples hs hm),
    Examples.nil_merge (nodup_requestedExamples hs hq)]
  unfold exposedField?
  generalize s.requestedField? requested .mutation key = field, m.lookup key = e at hmutation
  generalize s.requestedField? requested .query key = field', q.lookup key = e' at hquery
  cases hmutation with
  | some hf => exact .some ⟨_, hf⟩
  | none =>
    cases hquery with
    | some hf => exact .some ⟨_, hf⟩
    | none => exact .none

theorem exposedField_of_lookup (hs : s.Coherent) {kinds : Kinds} {requested : List OperationKind}
    (hk : requestedKinds kinds = .ok requested) {ex : Examples}
    (h : s.examples values withName kinds = .ok ex) {key : String} {e : Example}
    (he : ex.lookup key = some e) :
    ∃ f kind, s.exposedField? requested key = some f ∧ s.Shows values withName kind f (key, e) := by
  have hrel := lookup_examples hs hk h key
  rw [he] at hrel
  generalize s.exposedField? requested key = field at hrel ⊢
  cases hrel with
  | some hf => exact ⟨_, hf.choose, rfl, hf.choose_spec⟩

/-- The keys of examples are distinct. -/
theorem nodup_examples (hs : s.Coherent) {kinds : Kinds} {ex : Examples}
    (h : s.examples values withName kinds = .ok ex) : (Examples.keys ex).Nodup := by
  unfold Schema.examples at h
  rw [(buildExamples_yields s.roots values withName kinds).run_fst] at h
  obtain ⟨requested, -, h⟩ := bind_eq_ok.mp h
  obtain ⟨q, hq, h⟩ := bind_eq_ok.mp h
  obtain ⟨m, hm, h⟩ := bind_eq_ok.mp h
  obtain rfl := Except.ok.inj h
  have hquery := nodup_requestedExamples hs hq
  rw [Examples.nil_merge hquery]
  exact Examples.nodup_keys_merge hquery (nodup_requestedExamples hs hm)

end Schema

/-! ## Places in a document -/

/-- Where a document has the properties of the data of a field. -/
def propertiesPlace (key : String) : List String :=
  ["components", "schemas", componentName key, "properties", "data", "properties"]

/-- Where a document has the data of the response to a field. -/
def dataPlace (key : String) : List String :=
  ["paths", "/" ++ key, "post", "responses", "200", "content", "application/json", "example", "data"]

theorem componentName_injective : Function.Injective componentName := by
  intro a b h
  have := congrArg String.toList h
  simp only [componentName, String.toList_append, List.append_cancel_right_eq] at this
  exact String.toList_inj.mp this

theorem slash_injective : Function.Injective fun key : String => "/" ++ key := by
  intro a b h
  have := congrArg String.toList h
  simp only [String.toList_append, List.append_cancel_left_eq] at this
  exact String.toList_inj.mp this

section Places

variable {o : Options} {ex : Examples} {parts : List ApiPart} {key : String}

/-- What examples become stands under their keys. -/
theorem lookup_apiPart (key : String) (h : apiParts o ex = .ok parts) :
    Option.Rel (fun e part => e.apiPart key (o.tag? key) = .ok part) (ex.lookup key)
      ((parts.map fun part => (part.operation.id, part)).lookup key) := by
  have hall := forall₂_of_mapM h
  clear h
  induction hall with
  | nil => exact .none
  | @cons entry part ex parts hpart _ ih =>
    obtain ⟨k, e⟩ := entry
    obtain ⟨rfl, -⟩ : part.operation.id = k ∧ _ := apiOperation_eq_ok (apiPart_eq_ok.mp hpart).2
    rw [List.map_cons]
    by_cases hk : key = part.operation.id
    · rw [hk, List.lookup_cons_self, List.lookup_cons_self]
      exact .some hpart
    · rw [lookup_cons_of_ne hk, lookup_cons_of_ne hk]
      exact ih

/-- Whatever the examples become, under a key there is what the example becomes. -/
theorem exists_apiPart_of_lookup {e : Example} (hparts : apiParts o ex = .ok parts)
    (he : ex.lookup key = some e) :
    ∃ part, e.apiPart key (o.tag? key) = .ok part ∧
      (parts.map fun part => (part.operation.id, part)).lookup key = some part := by
  have hrel := lookup_apiPart key hparts
  rw [he] at hrel
  generalize (parts.map fun part => (part.operation.id, part)).lookup key = found at hrel ⊢
  cases hrel with
  | some hpart => exact ⟨_, hpart, rfl⟩

/-- The path of a field, by what its example became. -/
theorem paths_at? (path : List String) :
    (documentOf o ex parts).toValue.at? ("paths" :: ("/" ++ key) :: path) =
      ((parts.map fun part => (part.operation.id, part)).lookup key).bind fun part =>
        (Value.record [("post", part.operation.toValue)]).at? path := by
  unfold ApiDocument.toValue
  rw [Value.at?_record_cons]
  have hmap : ((documentOf o ex parts).operations.map fun op =>
        ("/" ++ op.id, Value.record [("post", op.toValue)])) =
      (parts.map fun part => (part.operation.id, part)).map
        fun (k, part) => ("/" ++ k, Value.record [("post", part.operation.toValue)]) := by
    rw [documentOf, List.map_map, List.map_map]
    rfl
  show (Value.record ((documentOf o ex parts).operations.map fun op =>
    ("/" ++ op.id, Value.record [("post", op.toValue)]))).at? (("/" ++ key) :: path) = _
  rw [Value.at?_record_cons, hmap, lookup_map_of_injective slash_injective
    fun (_ : String) (part : ApiPart) => Value.record [("post", part.operation.toValue)]]
  cases (parts.map fun part => (part.operation.id, part)).lookup key <;> rfl

/-- The component and the operation of an example belong to one field. -/
theorem field_of_parts (hparts : apiParts o ex = .ok parts) :
    ∀ part ∈ parts, part.component.field = part.operation.id := by
  obtain ⟨hfields, hids, -⟩ := names_of_parts hparts
  exact List.map_inj_left.mp (hfields.trans hids.symm)

/-- The component of a field, by what its example became. -/
theorem components_at? (hparts : apiParts o ex = .ok parts) (path : List String) :
    (documentOf o ex parts).toValue.at? ("components" :: "schemas" :: componentName key :: path) =
      ((parts.map fun part => (part.operation.id, part)).lookup key).bind fun part =>
        part.component.toValue.at? path := by
  unfold ApiDocument.toValue
  rw [Value.at?_record_cons]
  have hmap : ((documentOf o ex parts).components.map
        fun c => (componentName c.field, c.toValue)) =
      (parts.map fun part => (part.operation.id, part)).map
        fun (k, part) => (componentName k, part.component.toValue) := by
    rw [documentOf, List.map_map, List.map_map]
    refine List.map_congr_left fun part hpart => ?_
    rw [Function.comp_apply, field_of_parts hparts part hpart]
    rfl
  show (Value.record [("schemas", Value.record ((documentOf o ex parts).components.map
    fun c => (componentName c.field, c.toValue)))]).at? _ = _
  rw [Value.at?_record_cons, List.lookup_cons_self, Option.bind_some, Value.at?_record_cons, hmap,
    lookup_map_of_injective componentName_injective
      fun (_ : String) (part : ApiPart) => part.component.toValue]
  cases (parts.map fun part => (part.operation.id, part)).lookup key <;> rfl

/-- The properties of the data of an example. -/
theorem properties_at? {e : Example} (hparts : apiParts o ex = .ok parts)
    (he : ex.lookup key = some e) {properties : List (String × String)}
    (h : e.component key = .ok ⟨key, properties.map fun (k, t) => (.text k, t)⟩) :
    (documentOf o ex parts).toValue.at? (propertiesPlace key) =
      some (.record (properties.map fun (k, t) => (k, .record [("type", .text t)]))) := by
  obtain ⟨part, hpart, hlookup⟩ := exists_apiPart_of_lookup hparts he
  have hcomponent := Except.ok.inj ((apiPart_eq_ok.mp hpart).1.symm.trans h)
  unfold propertiesPlace
  rw [components_at? hparts, hlookup, Option.bind_some, hcomponent]
  unfold ApiComponent.toValue
  rw [Value.at?_record_cons]
  show (some (Value.map _)) = _
  rw [List.map_map]
  show _ = some (Value.map (List.map _ (List.map _ _)))
  rw [List.map_map]
  rfl

/-- The data of the response of an example. -/
theorem data_at? {e : Example} (hparts : apiParts o ex = .ok parts) (he : ex.lookup key = some e)
    {data : Value} (h : e.response = .record [("data", data)]) :
    (documentOf o ex parts).toValue.at? (dataPlace key) = some data := by
  obtain ⟨part, hpart, hlookup⟩ := exists_apiPart_of_lookup hparts he
  obtain ⟨-, hresponse, -⟩ := apiOperation_eq_ok (apiPart_eq_ok.mp hpart).2
  unfold dataPlace
  rw [paths_at?, hlookup, Option.bind_some, Value.at?_record_cons, List.lookup_cons_self,
    Option.bind_some]
  unfold ApiOperation.toValue
  rw [Value.at?_record_cons, hresponse, h]
  rfl

end Places

/-- A document comes of examples. -/
theorem examples_of_transformWith {s : Schema} {o : Options} {kinds : Kinds} {d : ApiDocument}
    (h : (transformWith s o kinds).run.1 = .ok d) :
    ∃ ex parts, s.examples o.exampleValues o.namesOperation kinds = .ok ex ∧
      apiParts o ex = .ok parts ∧ d = documentOf o ex parts := by
  rw [(transformWith_yields s o kinds).run_fst] at h
  obtain ⟨ex, hex, h⟩ := bind_eq_ok.mp h
  obtain ⟨parts, hparts, h⟩ := bind_eq_ok.mp (mapError_eq_ok.mp h)
  exact ⟨ex, parts, mapError_eq_ok.mp hex, hparts, (Except.ok.inj h).symm⟩

theorem examples_of_transform {s : Schema} {options : Value} {kinds : Kinds} {d : ApiDocument}
    (h : (transform s options kinds).run.1 = .ok d) :
    ∃ o ex parts, Options.ofValue options = .ok o ∧
      s.examples o.exampleValues o.namesOperation kinds = .ok ex ∧
      apiParts o ex = .ok parts ∧ d = documentOf o ex parts := by
  have hoptions := h
  rw [(transform_yields s options kinds).run_fst] at hoptions
  obtain ⟨o, ho, -⟩ := bind_eq_ok.mp hoptions
  have ho := mapError_eq_ok.mp ho
  rw [run_transform ho] at h
  obtain ⟨ex, parts, hex, hparts, hd⟩ := examples_of_transformWith h
  exact ⟨o, ex, parts, ho, hex, hparts, hd⟩

/-- The fields of a root are those of one of the types. -/
theorem exists_type_of_rootFields {s : Schema} {kind : OperationKind} {f : SchemaField}
    (hf : f ∈ s.rootFields kind) : ∃ t ∈ s.types, f ∈ t.shape.fields := by
  unfold Schema.rootFields at hf
  cases hshape : (s.root? kind.operation).bind s.shape? with
  | none => simp [hshape] at hf
  | some shape =>
    rw [hshape] at hf
    obtain ⟨name, -, hname⟩ := Option.bind_eq_some_iff.mp hshape
    obtain ⟨t, ht, rfl⟩ := Schema.mem_of_shape? hname
    exact ⟨t, ht, hf⟩

/-- The fields of a root have types that the schema has. -/
theorem isSome_shape?_of_rootFields {s : Schema} (hs : s.Coherent) {kind : OperationKind}
    {f : SchemaField} (hf : f ∈ s.rootFields kind) : (s.shape? f.type.leaf).isSome := by
  obtain ⟨t, ht, hf⟩ := exists_type_of_rootFields hf
  exact hs.fieldTypes t ht f hf

theorem mem_rootFields_of_requestedField? {s : Schema} {requested : List OperationKind}
    {kind : OperationKind} {name : String} {f : SchemaField}
    (h : s.requestedField? requested kind name = some f) : f ∈ s.rootFields kind := by
  unfold Schema.requestedField? at h
  split at h
  · exact List.mem_of_find?_eq_some h
  · contradiction

/-- Responses, their components and the types of the fields agree.

A path of a document stands for a root field, a mutation before a query. If the type of the field is
an object and stands bare, the data of its component has the fields of the object, in order, with
the JSON types of their types, and else the field itself. The data of the response has the same
keys, and under each of them null or a literal of the JSON type that the component names, or, under
the name of a field whose type is neither a bare object nor a scalar, an empty object. -/
theorem responses_agree (s : Schema) (hs : s.Coherent) (options : Value) (kinds : Kinds)
    (d : ApiDocument) (hd : (transform s options kinds).run.1 = .ok d)
    (requested : List OperationKind) (hk : requestedKinds kinds = .ok requested) (key : String)
    (hkey : (d.toValue.at? ["paths", "/" ++ key]).isSome) :
    ∃ f, s.exposedField? requested key = some f ∧
      d.toValue.at? (propertiesPlace key) = some (.record ((s.responseTypes key f.type).map
        fun (k, t) => (k, .record [("type", .text t.jsonType)]))) ∧
      ∃ entries : List (String × Value),
        d.toValue.at? (dataPlace key) = some (.record entries) ∧
        List.Forall₂ (fun declared entry => entry.1 = declared.1 ∧
          s.Mocks key f.type declared.1 declared.2 entry.2) (s.responseTypes key f.type)
          entries := by
  obtain ⟨o, ex, parts, -, hex, hparts, rfl⟩ := examples_of_transform hd
  rw [paths_at?] at hkey
  have hpart := lookup_apiPart key hparts
  cases he : ex.lookup key with
  | none =>
    rw [he] at hpart
    generalize (parts.map fun part => (part.operation.id, part)).lookup key = found at hpart hkey
    cases hpart
    contradiction
  | some e =>
    obtain ⟨f, kind, hexposed, hname, rootName, -, hexample⟩ :=
      Schema.exposedField_of_lookup hs hk hex he
    obtain rfl : key = f.name := hname
    have hknown : (s.shape? f.type.leaf).isSome := by
      rcases Option.or_eq_some_iff.mp hexposed with h | ⟨-, h⟩
      · exact isSome_shape?_of_rootFields hs (mem_rootFields_of_requestedField? h)
      · exact isSome_shape?_of_rootFields hs (mem_rootFields_of_requestedField? h)
    obtain ⟨hcomponent, entries, hresponse, hall⟩ := component_of_exampleFor hs hknown hexample
    refine ⟨f, hexposed, ?_, entries, data_at? hparts he hresponse, hall⟩
    have hproperties : e.component f.name = .ok ⟨f.name, ((s.responseTypes f.name f.type).map
        fun (k, t) => (k, t.jsonType)).map fun (k, type) => (.text k, type)⟩ := by
      rw [hcomponent, List.map_map]
      rfl
    rw [properties_at? hparts he hproperties, List.map_map]
    rfl

/-- A schema with a type that refers to itself through a field that is named like a root field. -/
def nodes : Schema where
  types :=
    [⟨"Query", .object [] [⟨"node", [], .named "Node", false⟩,
      ⟨"nodes", [], .list (.named "Node"), false⟩]⟩,
     ⟨"Node", .object [] [⟨"node", [], .nonNull (.named "Node"), false⟩,
      ⟨"rank", [], .named "Int", false⟩]⟩,
     ⟨"Int", .scalar⟩]
  query := some "Query"
  mutation := none
  subscription := none
  directives := []

theorem coherent_nodes : nodes.Coherent := by
  constructor <;> decide

/-- The response to a field whose type has a field of the same name. -/
theorem nodes_agree : nodes.Coherent ∧ ∃ d, (transform nodes (.map []) .absent).run.1 = .ok d ∧
    (d.toValue.at? ["paths", "/" ++ "node"]).isSome ∧
    d.toValue.at? (propertiesPlace "node") = some (.record
      [("node", .record [("type", .text "unknown")]),
       ("rank", .record [("type", .text "integer")])]) := by
  have hpath : ((transform nodes (.map []) .absent).run.1.toOption.bind
      fun d => d.toValue.at? ["paths", "/" ++ "node"]).isSome := by decide +kernel
  obtain ⟨v, hv⟩ := Option.isSome_iff_exists.mp hpath
  obtain ⟨d, hd, hkey⟩ := Option.bind_eq_some_iff.mp hv
  have hd := toOption_eq_some.mp hd
  have hkey : (d.toValue.at? ["paths", "/" ++ "node"]).isSome := by rw [hkey, Option.isSome_some]
  obtain ⟨f, hf, hproperties, -⟩ := responses_agree nodes coherent_nodes (.map []) .absent d hd
    [.query, .mutation] rfl "node" hkey
  obtain rfl : ⟨"node", [], .named "Node", false⟩ = f := Option.some.inj hf
  exact ⟨coherent_nodes, d, hd, hkey, hproperties⟩

end GraphPaths
