import GraphPaths.Proofs.Schema.Coherence
import GraphPaths.Proofs.Transform

/-!
# Responses

The component of an example names the JSON types of what its response holds. Both come of the type
of the field, the one by looking the fields up again by name (`declaredType`), the other by going
through them (`mockData`), and in a coherent schema they agree (`mockData_agrees`,
`component_of_exampleFor`).
-/

namespace GraphPaths

open Graphql

/-! ## JSON types -/

/-- The JSON type of a scalar that needs no definition. -/
def scalarJsonType : String → String
  | "String" | "ID" => "string"
  | "Int" => "integer"
  | "Float" => "number"
  | "Boolean" => "boolean"
  | _ => "unknown"

/-- The JSON type of a type: null makes no difference, a list is an array, and of the named types
only standard scalars are known. -/
def Graphql.TypeExpr.jsonType : TypeExpr → String
  | .nonNull inner => inner.jsonType
  | .list _ => "array"
  | .named name => scalarJsonType name

namespace Schema

/-- The fields of a type that is an object and stands bare. -/
def bareObjectFields? (s : Schema) : TypeExpr → Option (List SchemaField)
  | .named name =>
    match s.shape? name with
    | some (.object _ fields) => some fields
    | _ => none
  | _ => none

/-- What the response to a field of a type holds: the fields of a bare object, else the field
itself, with their types. -/
def responseTypes (s : Schema) (key : String) (type : TypeExpr) : List (String × TypeExpr) :=
  match s.bareObjectFields? type with
  | some fields => fields.map fun f => (f.name, f.type)
  | none => [(key, type)]

end Schema

theorem scalarTypes_lookup (name : String) :
    (TypeRef.scalarTypes.lookup name).getD TypeRef.unknownType = scalarJsonType name := by
  unfold scalarJsonType
  split
  · rfl
  · rfl
  · rfl
  · rfl
  · rfl
  · next h1 h2 h3 h4 h5 =>
    simp [TypeRef.scalarTypes, List.lookup, TypeRef.unknownType, beq_eq_false_iff_ne.mpr h1, beq_eq_false_iff_ne.mpr h2,
      beq_eq_false_iff_ne.mpr h3, beq_eq_false_iff_ne.mpr h4, beq_eq_false_iff_ne.mpr h5]

theorem scalarJsonType_of_notMem {name : String} (h : name ∉ standardScalars) :
    scalarJsonType name = "unknown" := by
  unfold scalarJsonType
  split <;> first | rfl | exact absurd (by decide) h

section Shapes

variable (s : Schema)

/-- The class of a named type that the schema has is its JSON type. -/
theorem classify_leafRef {s : Schema} (hs : s.Coherent) {name : String}
    (h : (s.shape? name).isSome) : (s.leafRef name).classify = scalarJsonType name := by
  obtain ⟨shape, hshape⟩ := Option.isSome_iff_exists.mp h
  have hother : shape.kind ≠ .scalar → "unknown" = scalarJsonType name := by
    intro hne
    refine (scalarJsonType_of_notMem fun hname => hne ?_).symm
    obtain ⟨t, ht, rfl⟩ := Option.map_eq_some_iff.mp hshape
    have htname : t.name = name := by simpa using List.find?_some ht
    exact hs.scalars t (List.mem_of_find?_eq_some ht) (htname ▸ hname)
  unfold Schema.leafRef
  rw [hshape]
  cases shape with
  | scalar => exact scalarTypes_lookup name
  | _ => exact hother nofun

theorem classify_expandedRef (name : String) :
    (s.expandedRef name).classify = (s.leafRef name).classify := by
  unfold Schema.expandedRef Schema.leafRef
  cases s.shape? name with
  | none => rfl
  | some shape => cases shape <;> rfl

/-- The class of a shape is the JSON type of the type. -/
theorem classify_wrapRef {leaf : String → TypeRef} :
    ∀ {t : TypeExpr}, (leaf t.leaf).classify = scalarJsonType t.leaf →
      (Schema.wrapRef leaf t).classify = t.jsonType
  | .named _, h => h
  | .list _, _ => rfl
  | .nonNull inner, h => classify_wrapRef (t := inner) h

theorem isScalarLike_wrapRef {leaf : String → TypeRef}
    (h : ∀ name, (leaf name).isScalarLike = decide (s.kind? name = some .scalar)) :
    ∀ t : TypeExpr, (Schema.wrapRef leaf t).isScalarLike = decide (s.kind? t.leaf = some .scalar)
  | .named name => h name
  | .list item => isScalarLike_wrapRef h item
  | .nonNull inner => isScalarLike_wrapRef h inner

theorem isScalarLike_leafRef (name : String) :
    (s.leafRef name).isScalarLike = decide (s.kind? name = some .scalar) := by
  unfold Schema.leafRef Schema.kind?
  cases s.shape? name with
  | none => rfl
  | some shape => cases shape <;> rfl

theorem isScalarLike_expandedRef (name : String) :
    (s.expandedRef name).isScalarLike = decide (s.kind? name = some .scalar) := by
  rw [← isScalarLike_leafRef]
  unfold Schema.expandedRef Schema.leafRef
  cases s.shape? name with
  | none => rfl
  | some shape => cases shape <;> rfl

end Shapes

/-! ## Mock values -/

/-- The JSON type of a literal. -/
def Value.jsonType? : Value → Option String
  | .text _ => some "string"
  | .int _ => some "integer"
  | .float _ => some "number"
  | .bool _ => some "boolean"
  | _ => none

/-- No wrapped type has a mock value. -/
theorem mockScalars_lookup_wrapped {text : String}
    (h : text.toList.head? = some '[' ∨ text.toList.getLast? = some '!') :
    mockScalars.lookup text = none := by
  rw [List.lookup_eq_none_iff]
  intro p hp
  have hnames : p.1.toList.head? ≠ some '[' ∧ p.1.toList.getLast? ≠ some '!' := by
    have hp' : p.1 ∈ mockScalars.map Prod.fst := List.mem_map_of_mem hp
    generalize p.1 = name at hp'
    have hname : name = "String" ∨ name = "Int" ∨ name = "Float" ∨ name = "Boolean" := by
      simpa [mockScalars] using hp'
    rcases hname with rfl | rfl | rfl | rfl <;> decide
  have hne : text ≠ p.1 := by
    rintro rfl
    rcases h with h | h
    · exact hnames.1 h
    · exact hnames.2 h
  simpa using hne

/-- A list has no mock value. -/
theorem mock_list (item : TypeRef) : (TypeRef.list item).mock = .null := by
  have htext : (TypeRef.list item).text.toList.head? = some '[' := by simp [TypeRef.text]
  rw [TypeRef.mock, mockScalars_lookup_wrapped (.inl htext)]
  exact ite_self _

/-- A type that must not be null has no mock value. -/
theorem mock_nonNull (inner : TypeRef) : (TypeRef.nonNull inner).mock = .null := by
  have htext : (TypeRef.nonNull inner).text.toList.getLast? = some '!' := by simp [TypeRef.text]
  rw [TypeRef.mock, mockScalars_lookup_wrapped (.inr htext)]
  exact ite_self _

theorem mock_scalar (name : String) :
    (TypeRef.scalar name).mock = .null ∨
      (TypeRef.scalar name).mock.jsonType? = some (scalarJsonType name) := by
  have hmock : (TypeRef.scalar name).mock = (mockScalars.lookup name).getD .null := rfl
  rw [hmock]
  cases h : mockScalars.lookup name with
  | none => exact .inl rfl
  | some v =>
    have hmem := mem_of_lookup h
    simp only [mockScalars, List.mem_cons, Prod.mk.injEq, List.not_mem_nil, or_false] at hmem
    rcases hmem with ⟨rfl, rfl⟩ | ⟨rfl, rfl⟩ | ⟨rfl, rfl⟩ | ⟨rfl, rfl⟩ <;> exact .inr rfl

/-- The mock value of a type is null or a literal of the type's JSON type. -/
theorem mock_wrapRef {leaf : String → TypeRef}
    (h : ∀ name, leaf name = .scalar name ∨ (leaf name).isScalarLike = false) :
    ∀ t : TypeExpr, (Schema.wrapRef leaf t).mock = .null ∨
      (Schema.wrapRef leaf t).mock.jsonType? = some t.jsonType
  | .named name => by
    rcases h name with hleaf | hleaf
    · rw [Schema.wrapRef, hleaf]
      exact mock_scalar name
    · left
      rw [Schema.wrapRef, TypeRef.mock, hleaf]
      rfl
  | .list item => .inl (mock_list _)
  | .nonNull inner => .inl (mock_nonNull _)

theorem leafRef_scalar (s : Schema) (name : String) :
    s.leafRef name = .scalar name ∨ (s.leafRef name).isScalarLike = false := by
  unfold Schema.leafRef
  split
  · exact .inl rfl
  · exact .inr rfl
  · exact .inr rfl

theorem expandedRef_scalar (s : Schema) (name : String) :
    s.expandedRef name = .scalar name ∨ (s.expandedRef name).isScalarLike = false := by
  unfold Schema.expandedRef
  split
  · exact .inr rfl
  · exact leafRef_scalar s name

/-! ## The data of a response -/

/-- A value that a response may hold under a key for a type: null, a literal of the type's JSON
type, or, for the field itself, an empty object in place of something that is no scalar. -/
def Schema.Mocks (s : Schema) (key : String) (type : TypeExpr) (k : String) (t : TypeExpr)
    (v : Value) : Prop :=
  v = .null ∨ v.jsonType? = some t.jsonType ∨
    (v = .map [] ∧ k = key ∧ s.bareObjectFields? type = none ∧ s.kind? type.leaf ≠ some .scalar)

/-- The type of a field as its example sees it, in a schema that has the type. -/
theorem typeRef_of_known {s : Schema} {type : TypeExpr} (h : (s.shape? type.leaf).isSome) :
    s.typeRef true type = Schema.wrapRef s.expandedRef type := by
  unfold Schema.typeRef
  rw [if_neg (by simpa using Option.isSome_iff_ne_none.mp h)]
  rfl

section Bare

variable {s : Schema} {type : TypeExpr}

/-- A bare object with its fields. -/
theorem wrapRef_of_bareObject {fields : List SchemaField}
    (h : s.bareObjectFields? type = some fields) :
    ∃ name, type = .named name ∧ Schema.wrapRef s.expandedRef type =
      .object name (fields.map fun f => (f.name, Schema.wrapRef s.leafRef f.type)) := by
  unfold Schema.bareObjectFields? at h
  split at h
  · next name =>
    split at h
    · next interfaces fields' hshape =>
      obtain rfl := Option.some.inj h
      refine ⟨name, rfl, ?_⟩
      rw [Schema.wrapRef, Schema.expandedRef, hshape]
    · contradiction
  · contradiction

/-- Anything else than a bare object is no object with fields. -/
theorem wrapRef_of_noBareObject (h : s.bareObjectFields? type = none) (name : String)
    (fields : List (String × TypeRef)) :
    Schema.wrapRef s.expandedRef type ≠ .object name fields := by
  cases type with
  | named n =>
    unfold Schema.bareObjectFields? at h
    rw [Schema.wrapRef]
    unfold Schema.expandedRef Schema.leafRef
    cases hshape : s.shape? n with
    | none => simp
    | some shape => cases shape <;> simp_all
  | list item => nofun
  | nonNull inner => nofun

/-- The fields of a bare object are those of a type of the schema. -/
theorem mem_types_of_bareObject {fields : List SchemaField}
    (h : s.bareObjectFields? type = some fields) : ∃ t ∈ s.types, t.shape.fields = fields := by
  unfold Schema.bareObjectFields? at h
  split at h
  · split at h
    · next hshape =>
      obtain rfl := Option.some.inj h
      obtain ⟨t, ht, hfields⟩ := Schema.mem_of_shape? hshape
      exact ⟨t, ht, by rw [hfields]; rfl⟩
    · contradiction
  · contradiction

theorem nodup_bareObjectFields (hs : s.Coherent) {fields : List SchemaField}
    (h : s.bareObjectFields? type = some fields) : (fields.map SchemaField.name).Nodup := by
  obtain ⟨t, ht, rfl⟩ := mem_types_of_bareObject h
  exact hs.fieldNames t ht

theorem mockData_object (name : String) (fields : List (String × TypeRef)) (key : String) :
    (TypeRef.object name fields).mockData key =
      .map (Value.ofEntries (fields.map fun p => (.text p.1, p.2.mock))) :=
  rfl

/-- The data of a response holds a mock value for each of its types, under the same keys. -/
theorem mockData_agrees (hs : s.Coherent) (type : TypeExpr) (key : String) :
    ∃ entries : List (String × Value),
      (Schema.wrapRef s.expandedRef type).mockData key = .record entries ∧
      List.Forall₂ (fun declared entry => entry.1 = declared.1 ∧
        s.Mocks key type declared.1 declared.2 entry.2) (s.responseTypes key type) entries := by
  have hlike := isScalarLike_wrapRef s (isScalarLike_expandedRef s) type
  cases hbare : s.bareObjectFields? type with
  | some fields =>
    obtain ⟨name, rfl, hobject⟩ := wrapRef_of_bareObject hbare
    have hdistinct := nodup_bareObjectFields hs hbare
    refine ⟨fields.map fun f => (f.name, (Schema.wrapRef s.leafRef f.type).mock), ?_, ?_⟩
    · rw [hobject, mockData_object, List.map_map]
      exact Value.map_ofEntries SchemaField.name _ hdistinct
    · unfold Schema.responseTypes
      rw [hbare]
      simp only [List.forall₂_map_left_iff, List.forall₂_map_right_iff]
      refine List.forall₂_same.mpr fun f _ => ⟨rfl, ?_⟩
      rcases mock_wrapRef (leafRef_scalar s) f.type with h | h
      · exact .inl h
      · exact .inr (.inl h)
  | none =>
    have htypes : s.responseTypes key type = [(key, type)] := by
      unfold Schema.responseTypes
      rw [hbare]
    rw [htypes]
    unfold TypeRef.mockData
    by_cases hscalar : s.kind? type.leaf = some .scalar
    · rw [hlike, decide_eq_true hscalar, if_pos rfl]
      refine ⟨[(key, _)], rfl, .cons ⟨rfl, ?_⟩ .nil⟩
      rcases mock_wrapRef (expandedRef_scalar s) type with h | h
      · exact .inl h
      · exact .inr (.inl h)
    · rw [hlike, decide_eq_false hscalar, if_neg Bool.false_ne_true]
      refine ⟨[(key, .map [])], ?_, .cons ⟨rfl, .inr (.inr ⟨rfl, rfl, hbare, hscalar⟩)⟩ .nil⟩
      split
      · next name fields hobject => exact absurd hobject (wrapRef_of_noBareObject hbare name fields)
      · rfl

/-! ## The component of a response -/

/-- The component of an example has the JSON types of what the response holds. -/
theorem declaredType_agrees (hs : s.Coherent) {e : Example} {key : String}
    (hknown : (s.shape? type.leaf).isSome)
    (he : e.returnType = some (Schema.wrapRef s.expandedRef type)) {k : String} {t : TypeExpr}
    (h : (k, t) ∈ s.responseTypes key type) :
    e.declaredType key (.text k) = t.jsonType := by
  unfold Example.declaredType
  rw [he]
  unfold Schema.responseTypes at h
  cases hbare : s.bareObjectFields? type with
  | some fields =>
    rw [hbare] at h
    obtain ⟨f, hf, hkt⟩ := List.mem_map.mp h
    obtain ⟨rfl, rfl⟩ := Prod.mk.inj hkt
    obtain ⟨name, rfl, hobject⟩ := wrapRef_of_bareObject hbare
    have hlookup : (fields.map fun f => (f.name, Schema.wrapRef s.leafRef f.type)).lookup f.name =
        some (Schema.wrapRef s.leafRef f.type) := by
      refine lookup_of_mem ?_ (List.mem_map.mpr ⟨f, hf, rfl⟩)
      rw [List.map_map]
      exact nodup_bareObjectFields hs hbare
    rw [hobject]
    have hfield : ((Value.text f.name).text?.bind (TypeRef.object name (fields.map fun f =>
        (f.name, Schema.wrapRef s.leafRef f.type))).fieldType?) =
        some (Schema.wrapRef s.leafRef f.type) := hlookup
    simp only [hfield]
    obtain ⟨t, ht, rfl⟩ := mem_types_of_bareObject hbare
    exact classify_wrapRef (classify_leafRef hs (hs.fieldTypes t ht f hf))
  | none =>
    rw [hbare] at h
    obtain ⟨rfl, rfl⟩ := Prod.mk.inj (List.mem_singleton.mp h)
    have hfield : ((Value.text k).text?.bind
        (Schema.wrapRef s.expandedRef t).fieldType?) = none := by
      show (Schema.wrapRef s.expandedRef t).fieldType? k = none
      unfold TypeRef.fieldType?
      split
      · next name fields hobject => exact absurd hobject (wrapRef_of_noBareObject hbare name fields)
      · rfl
    simp only [hfield]
    rw [if_pos (by simp [Value.text?])]
    refine classify_wrapRef ?_
    rw [classify_expandedRef]
    exact classify_leafRef hs hknown

end Bare

/-- The response of an example and its component, both by the types that the response is to have. -/
theorem component_of_exampleFor {s : Schema} (hs : s.Coherent) {kind : OperationKind}
    {rootName : String} {values : ExampleValues} {withName : Bool} {f : SchemaField} {e : Example}
    (hf : (s.shape? f.type.leaf).isSome)
    (h : exampleFor (s.typeRef true) kind rootName values withName f = .ok e) :
    e.component f.name = .ok ⟨f.name, (s.responseTypes f.name f.type).map
      fun (k, t) => (.text k, t.jsonType)⟩ ∧
    ∃ entries : List (String × Value), e.response = .record [("data", .record entries)] ∧
      List.Forall₂ (fun declared entry => entry.1 = declared.1 ∧
        s.Mocks f.name f.type declared.1 declared.2 entry.2) (s.responseTypes f.name f.type)
        entries := by
  obtain ⟨request, -, h⟩ := bind_eq_ok.mp h
  have he := Except.ok.inj h
  rw [typeRef_of_known hf] at he
  obtain ⟨entries, hentries, hall⟩ := mockData_agrees hs f.type f.name
  have hresponse : e.response = .record [("data", .record entries)] := by
    rw [← he, ← hentries]
    rfl
  have hreturn : e.returnType = some (Schema.wrapRef s.expandedRef f.type) := by
    rw [← he]
  refine ⟨?_, entries, hresponse, hall⟩
  have hproperties : ∀ {declared : List (String × TypeExpr)} {entries : List (String × Value)},
      (∀ x ∈ declared, x ∈ s.responseTypes f.name f.type) →
      List.Forall₂ (fun declared entry => entry.1 = declared.1 ∧
        s.Mocks f.name f.type declared.1 declared.2 entry.2) declared entries →
      (entries.map fun x => (Value.text x.1, e.declaredType f.name (.text x.1))) =
        declared.map fun x => (.text x.1, x.2.jsonType) := by
    intro declared entries hmem hall
    induction hall with
    | nil => rfl
    | @cons x entry xs entries hx _ ih =>
      obtain ⟨k, v⟩ := entry
      obtain rfl : k = x.1 := hx.1
      rw [List.map_cons, List.map_cons, ih fun y hy => hmem y (List.mem_cons_of_mem x hy)]
      show (Value.text x.1, e.declaredType f.name (.text x.1)) :: _ = _
      rw [declaredType_agrees hs hf hreturn (hmem x List.mem_cons_self)]
  rw [component_of_response hresponse, List.map_map]
  exact congrArg (fun properties => Except.ok (ApiComponent.mk f.name properties))
    (hproperties (fun _ hx => hx) hall)

end GraphPaths
