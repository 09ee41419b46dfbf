import GraphPaths.Proofs.Json.Reading
import GraphPaths.Proofs.Options
import GraphPaths.Proofs.Response.Document
import GraphPaths.Proofs.Value.Sharing

/-!
# What documents hold

All of a document but the example values that stand for arguments are texts, truth values and the
literals of mock responses, in lists and in mappings whose keys are texts. So what such a value has if
its parts have it (`Permits`), a document has just if the example values have it that it uses
(`Permits.transform`). Values for arguments that no field has do not matter.
-/

namespace GraphPaths

/-- What holds of a value if it holds of its parts, and of all that documents hold on their own; `Q` is
what the keys of a mapping need. -/
structure Permits (P : Value → Prop) (Q : List Value → Prop) : Prop where
  list : ∀ {xs : List Value}, P (.list xs) ↔ ∀ x ∈ xs, P x
  map : ∀ {es : List (Value × Value)}, P (.map es) ↔ Q (es.map Prod.fst) ∧ ∀ e ∈ es, P e.2
  bare : ∀ {v : Value}, P v → P v.bare
  keys : ∀ {names : List String}, names.Nodup → Q (names.map Value.text)
  text : ∀ s, P (.text s)
  bool : ∀ b, P (.bool b)
  null : P .null
  int : P (.int 123)
  float : P (.float (Binary64.ofRatio false 12345 100))

/-- What is asked of the parts and of the keys one by one. -/
theorem permits_all {p : Value → Bool} {q : List Value → Bool} (htext : ∀ s, p (.text s))
    (hkeys : ∀ {names : List String}, names.Nodup → q (names.map Value.text))
    (hbool : ∀ b, p (.bool b)) (hnull : p .null) (hint : p (.int 123))
    (hfloat : p (.float (Binary64.ofRatio false 12345 100))) :
    Permits (fun v => v.all p q) fun ks => q (ks.map Value.bare) where
  list := Value.all_list
  map := by
    intro es
    rw [Value.all_map, Value.keys, List.map_map]
    exact Iff.rfl
  bare := fun {v} h => (Value.all_bare v).trans h
  keys := fun {names} h => by
    rw [List.map_map]
    exact hkeys h
  text := htext
  bool := hbool
  null := hnull
  int := hint
  float := hfloat

theorem permits_writable :
    Permits (fun v => v.isWritable) fun ks => (ks.map Value.bare).all Json.hasForm :=
  permits_all (fun _ => rfl)
    (fun _ => List.all_eq_true.mpr (List.forall_mem_map.mpr fun _ _ => rfl)) (fun _ => rfl) rfl rfl rfl

theorem permits_readable :
    Permits (fun v => v.isReadable) fun ks => Json.areNames (ks.map Value.bare) :=
  permits_all (fun _ => rfl) (fun h => Json.areNames_iff.mpr ⟨_, h, rfl⟩) (fun _ => rfl) rfl rfl rfl

theorem permits_exact : Permits (fun v => v.isExact) fun _ => true :=
  permits_all (fun _ => rfl) (fun _ => rfl) (fun _ => rfl) rfl rfl rfl

theorem permits_labelledBy (env : Nat → Value) :
    Permits (Value.LabelledBy env) fun ks => ∀ k ∈ ks, k.bare = k where
  list := Value.labelledBy_list
  map := Value.labelledBy_map
  bare := Value.labelledBy_bare
  keys := fun _ => List.forall_mem_map.mpr fun _ _ => rfl
  text := fun _ => trivial
  bool := fun _ => trivial
  null := trivial
  int := trivial
  float := trivial

namespace Permits

variable {P : Value → Prop} {Q : List Value → Prop} (h : Permits P Q)
include h

/-- A record has it if its fields have it and no name comes twice. -/
theorem record {fields : List (String × Value)} (hnames : (fields.map Prod.fst).Nodup) :
    P (.record fields) ↔ ∀ f ∈ fields, P f.2 := by
  have hkeys := h.keys hnames
  rw [List.map_map] at hkeys
  unfold Value.record
  rw [h.map, List.forall_mem_map, List.map_map]
  exact and_iff_right hkeys

theorem of_entries? {v : Value} {es : List (Value × Value)} (hv : P v)
    (hes : v.entries? = some es) : Q (es.map Prod.fst) ∧ ∀ e ∈ es, P e.2 := by
  have hbare := h.bare hv
  rw [Value.entries?_eq_some.mp hes] at hbare
  exact h.map.mp hbare

end Permits

/-! ## Parts of documents -/

/-- The parts that an optional value gives. -/
theorem forall_mem_toList_map {α β : Type} {o : Option α} {g : α → β} {P : β → Prop} :
    (∀ x ∈ (o.map g).toList, P x) ↔ ∀ a ∈ o, P (g a) := by
  cases o <;> simp

/-- A field that may be left out has a name of its own. -/
theorem nodup_optional {α : Type} {fields : List (String × Value)} {name : String} {g : α → Value}
    (o : Option α) (hfields : (fields.map Prod.fst).Nodup) (hnew : name ∉ fields.map Prod.fst) :
    ((fields ++ (o.map fun a => (name, g a)).toList).map Prod.fst).Nodup := by
  cases o with
  | none => simpa using hfields
  | some a => simpa using List.concat_eq_append ▸ hfields.concat hnew

section

variable {P : Value → Prop} {Q : List Value → Prop} (h : Permits P Q)
include h

theorem Permits.mock (t : TypeRef) : P t.mock := by
  have hscalars : ∀ x ∈ mockScalars, P x.2 := by
    simp only [mockScalars, List.forall_mem_cons]
    exact ⟨h.text _, h.int, h.float, h.bool _, List.forall_mem_nil _⟩
  unfold TypeRef.mock
  split
  · cases hlookup : mockScalars.lookup t.text with
    | none => exact h.null
    | some v => exact hscalars _ (mem_of_lookup hlookup)
  · exact h.null

theorem Permits.mockData (t : TypeRef) (field : String) : P (t.mockData field) := by
  unfold TypeRef.mockData
  split
  · refine (h.record (by simp)).mpr ?_
    exact List.forall_mem_singleton.mpr (h.mock t)
  split
  · next fields _ =>
    -- the fields make a record without namesakes, and all values are mocks
    obtain ⟨mocks, hmocks, hnames⟩ :=
      Value.exists_record_ofEntries (fields.map fun f => (f.1, f.2.mock))
    have hall : ∀ e ∈ Value.ofEntries (fields.map fun f => (Value.text f.1, f.2.mock)),
        True ∧ P e.2 :=
      Value.forall_ofEntries (K := fun _ => True) (V := P)
        (List.forall_mem_map.mpr fun f _ => ⟨trivial, h.mock f.2⟩)
    rw [List.map_map] at hmocks
    have hentries : Value.ofEntries (fields.map fun f => (Value.text f.1, f.2.mock)) = _ :=
      Value.map.inj hmocks
    rw [hentries, List.forall_mem_map] at hall
    have hrecord : P (Value.record mocks) :=
      (h.record hnames).mpr fun f hf => (hall f hf).2
    rw [← hmocks] at hrecord
    exact hrecord
  · refine (h.record (by simp)).mpr ?_
    refine List.forall_mem_singleton.mpr (h.map.mpr ⟨?_, List.forall_mem_nil _⟩)
    exact h.keys List.nodup_nil

theorem Permits.mockResponse (t : TypeRef) (field : String) : P (mockResponse t field) := by
  refine (h.record (by simp)).mpr ?_
  exact List.forall_mem_singleton.mpr (h.mockData t field)

theorem Permits.info {i : ApiInfo} (htitle : P i.title) (hversion : P i.version)
    (hdescription : P i.description) (hsummary : ∀ s ∈ i.summary, P s) :
    P i.toValue := by
  refine (h.record (nodup_optional i.summary (by simp) (by simp))).mpr ?_
  simp only [List.forall_mem_append, List.forall_mem_cons, forall_mem_toList_map]
  exact ⟨⟨htitle, hversion, hdescription, List.forall_mem_nil _⟩, hsummary⟩

theorem Permits.tag (t : RouteTag) : P t.toValue := by
  have hnames := @nodup_optional _ [("name", Value.text t.name)] "description" Value.text
    (t.description.filter fun d => !d.isEmpty) (by simp) (by simp)
  refine (h.record hnames).mpr ?_
  rw [List.forall_mem_append, List.forall_mem_singleton, forall_mem_toList_map]
  exact ⟨h.text _, fun d _ => h.text d⟩

theorem Permits.component {c : ApiComponent}
    (hkeys : Q (c.properties.map Prod.fst)) : P c.toValue := by
  unfold ApiComponent.toValue
  simp (disch := simp) only [h.record, h.text, h.map, 
    List.forall_mem_cons, List.forall_mem_map, List.map_map, List.not_mem_nil, false_implies,
    implies_true, and_true, true_and]
  exact hkeys

/-- What an operation holds apart from the values of its variables. -/
structure Plain (P : Value → Prop) (o : ApiOperation) : Prop where
  query : P o.query
  operationName : ∀ v ∈ o.operationName, P v
  response : P o.response

/-- The schema of a request holds the values of its variables. -/
theorem Permits.requestSchema {o : ApiOperation} (ho : Plain P o) :
    P o.requestSchema ↔ ∀ v ∈ o.variableValues, P v := by
  refine (h.record (by simp)).trans ?_
  rw [List.forall_mem_cons, List.forall_mem_cons, List.forall_mem_singleton, h.record]
  · simp (disch := simp) only [h.record, h.list, h.text,
      h.bool, ho.query, List.forall_mem_cons, List.forall_mem_append, List.not_mem_nil,
      false_implies, implies_true, forall_mem_toList_map, true_and, and_true]
    exact and_iff_left ho.operationName
  · -- no two of the properties have one name
    cases o.variableValues <;> cases o.operationName <;> simp

theorem Permits.operation {o : ApiOperation} (ho : Plain P o) :
    P o.toValue ↔ ∀ v ∈ o.variableValues, P v := by
  refine (h.record (nodup_optional o.tag (by simp) (by simp))).trans ?_
  unfold jsonContent
  simp (disch := simp) only [h.record, h.list, h.text,
    h.bool, ho.response, h.requestSchema ho, List.forall_mem_cons,
    List.forall_mem_append, List.not_mem_nil, false_implies, implies_true, forall_mem_toList_map,
    true_and, and_true]

/-- All of a document but the values of variables is as it should be. -/
theorem Permits.document {o : Options} (ho : o.HasTexts) {ex : Examples} {parts : List ApiPart}
    (hnames : (Examples.keys ex).Nodup) (hparts : apiParts o ex = .ok parts)
    (hplain : ∀ part ∈ parts, Plain P part.operation)
    (hkeys : ∀ part ∈ parts, Q (part.component.properties.map Prod.fst)) :
    P (documentOf o ex parts).toValue ↔
      ∀ part ∈ parts, ∀ v ∈ part.operation.variableValues, P v := by
  obtain ⟨hfields, hids, -⟩ := names_of_parts hparts
  have htext : ∀ {v : Value}, (∃ s, v = .text s) → P v := fun ⟨s, hs⟩ => hs ▸ h.text s
  have hinfo : P o.info.toValue := by
    refine h.info (htext ho.title) (htext ho.version) (htext ho.description) fun s hs => ?_
    unfold Options.info at hs
    obtain ⟨-, hs⟩ := Option.ite_none_right_eq_some.mp hs
    exact Option.some.inj hs ▸ htext ho.summary
  have hpaths : (parts.map fun part => "/" ++ part.operation.id).Nodup := by
    have hnames := hnames.map slash_injective
    rwa [← hids, List.map_map] at hnames
  have hcomponents : (parts.map fun part => componentName part.component.field).Nodup := by
    have hnames := hnames.map componentName_injective
    rwa [← hfields, List.map_map] at hnames
  have htags : ∀ tags : List RouteTag, ∀ x ∈ (if tags.isEmpty then []
      else [("tags", Value.list (tags.map RouteTag.toValue))]), P x.2 := by
    intro tags
    split
    · exact List.forall_mem_nil _
    · rw [List.forall_mem_singleton, h.list, List.forall_mem_map]
      exact fun t _ => h.tag t
  unfold ApiDocument.toValue documentOf
  refine (h.record ?_).trans ?_
  · split <;> simp
  rw [List.forall_mem_append, and_iff_left (htags _)]
  simp (disch := simp [Function.comp_def, hpaths, hcomponents]) only [h.record,
    h.list, h.text, hinfo, htext ho.serverUrl, List.forall_mem_cons,
    List.not_mem_nil, false_implies, implies_true, List.forall_mem_map, true_and, and_true]
  rw [and_iff_left fun part hpart => h.component (hkeys part hpart)]
  exact forall₂_congr fun part hpart => h.operation (hplain part hpart)

end

/-! ## Documents of examples -/

/-- The component of an example for a field has the keys of the data of the response. -/
theorem keys_component {P : Value → Prop} {Q : List Value → Prop} (h : Permits P Q)
    {refOf : Graphql.TypeExpr → TypeRef} {kind : OperationKind} {rootName : String}
    {values : ExampleValues} {withName : Bool} {f : SchemaField} {e : Example}
    (he : exampleFor refOf kind rootName values withName f = .ok e) {key : String}
    {c : ApiComponent} (hc : e.component key = .ok c) : Q (c.properties.map Prod.fst) := by
  obtain ⟨entries, hentries⟩ := exists_mockResponse (refOf f.type) f.name
  have hmock := h.mockResponse (refOf f.type) f.name
  rw [hentries, h.record (by simp), List.forall_mem_singleton, h.map] at hmock
  obtain rfl := Except.ok.inj
    ((component_of_response ((response_of_exampleFor he).trans hentries) key).symm.trans hc)
  rw [List.map_map]
  exact hmock.1

/-- The request and the response of an example for a field. -/
theorem parts_of_exampleFor {refOf : Graphql.TypeExpr → TypeRef} {kind : OperationKind}
    {rootName : String} {named : List (String × Value)} {withName : Bool} {f : SchemaField}
    {e : Example} (h : exampleFor refOf kind rootName (.named named) withName f = .ok e) :
    e.request = .record ([("query", .text (operationText kind f.name f.arguments)),
      ("variables", .record (f.arguments.map fun a =>
        (a.name, (named.lookup a.name).getD defaultVariable)))] ++
          if withName then [("operationName", .text f.name)] else []) ∧
    e.response = mockResponse (refOf f.type) f.name := by
  unfold exampleFor requestFor at h
  rw [Schema.variableValues_named] at h
  obtain rfl := Except.ok.inj h
  exact ⟨rfl, rfl⟩

section

variable {P : Value → Prop} {Q : List Value → Prop} (h : Permits P Q)
include h

/-- No entries count as absent. -/
theorem forall_mem_part? {e : Example} {key : String} {fields : List (String × Value)}
    (hkey : e.request.get? key = some (.record fields)) (hnames : (fields.map Prod.fst).Nodup) :
    (∀ v ∈ e.part? key, P v) ↔ ∀ x ∈ fields, P x.2 := by
  unfold Example.part?
  rw [hkey]
  cases fields with
  | nil => exact ⟨nofun, nofun⟩
  | cons x xs =>
    rw [← h.record hnames]
    exact ⟨fun hv => hv _ rfl, fun hv _ heq => Option.some.inj heq ▸ hv⟩

/-- The operation of an example holds nothing but texts, the mock response and the values of the
arguments. -/
theorem plain_of_exampleFor {refOf : Graphql.TypeExpr → TypeRef} {kind : OperationKind}
    {rootName : String} {named : List (String × Value)} {withName : Bool} {f : SchemaField}
    (hnames : (f.arguments.map SchemaInput.name).Nodup) {e : Example}
    (he : exampleFor refOf kind rootName (.named named) withName f = .ok e)
    {field : String} {tag : Option RouteTag} {op : ApiOperation}
    (hop : e.apiOperation field tag = .ok op) : Plain P op ∧
      ((∀ v ∈ op.variableValues, P v) ↔
        ∀ a ∈ f.arguments, ∀ v, named.lookup a.name = some v → P v) := by
  obtain ⟨hrequest, hresponse⟩ := parts_of_exampleFor he
  have hquery : e.request.get? "query" =
      some (.text (operationText kind f.name f.arguments)) := by
    rw [hrequest, Value.get?_record]
    rfl
  have hvariables : e.request.get? "variables" = some (.record (f.arguments.map fun a =>
      (a.name, (named.lookup a.name).getD defaultVariable))) := by
    rw [hrequest, Value.get?_record]
    rfl
  have hname : ∀ v ∈ e.request.get? "operationName", P v := by
    rw [hrequest, Value.get?_record]
    cases withName with
    | false => exact nofun
    | true => exact fun v hv => Option.some.inj hv ▸ h.text f.name
  unfold Example.apiOperation at hop
  rw [hquery] at hop
  obtain rfl := Except.ok.inj hop
  refine ⟨⟨h.text _, fun v hv => hname v (Option.mem_filter_iff.mp hv).1, ?_⟩, ?_⟩
  · show P e.response
    rw [hresponse]
    exact h.mockResponse _ _
  · show (∀ v ∈ e.part? "variables", P v) ↔ _
    rw [forall_mem_part? h hvariables (by rwa [List.map_map]), List.forall_mem_map]
    refine forall₂_congr fun a _ => ?_
    show P ((named.lookup a.name).getD defaultVariable) ↔ _
    cases named.lookup a.name with
    | none => exact ⟨nofun, fun _ => h.text _⟩
    | some v => exact ⟨fun hv _ heq => Option.some.inj heq ▸ hv, fun hv => hv v rfl⟩

end

/-! ## Documents of schemas -/

/-- Whether a value stands for an argument of a field that has a path. -/
def Schema.Uses (s : Schema) (requested : List OperationKind) (o : Options) (v : Value) : Prop :=
  ∃ key f, s.exposedField? requested key = some f ∧
    ∃ a ∈ f.arguments, o.exampleValues.fields.lookup a.name = some v

/-! ### Operations and fields -/

/-- The arguments of a field that has a path have different names. -/
theorem nodup_of_exposedField {s : Schema} (hs : s.Coherent) {requested : List OperationKind}
    {key : String} {f : SchemaField} (h : s.exposedField? requested key = some f) :
    (f.arguments.map SchemaInput.name).Nodup := by
  obtain ⟨kind, hf⟩ : ∃ kind, f ∈ s.rootFields kind := by
    rcases Option.or_eq_some_iff.mp h with h | ⟨-, h⟩
    · exact ⟨.mutation, mem_rootFields_of_requestedField? h⟩
    · exact ⟨.query, mem_rootFields_of_requestedField? h⟩
  obtain ⟨t, ht, hf⟩ := exists_type_of_rootFields hf
  exact hs.argumentNames t ht f hf

section

variable {s : Schema} (hs : s.Coherent) {kinds : Kinds} {requested : List OperationKind}
  (hk : requestedKinds kinds = .ok requested) {o : Options} {withName : Bool}
  {values : ExampleValues} {ex : Examples} (hex : s.examples values withName kinds = .ok ex)
include hs hk hex

theorem exposedField_of_mem {entry : String × Example} (h : entry ∈ ex) :
    ∃ f kind, s.exposedField? requested entry.1 = some f ∧ s.Shows values withName kind f entry :=
  Schema.exposedField_of_lookup hs hk hex (lookup_of_mem (Schema.nodup_examples hs hex) h)

variable {parts : List ApiPart} (hparts : apiParts o ex = .ok parts)
include hparts

/-- Every part is that of a field that has a path. -/
theorem exposedField_of_part {part : ApiPart} (h : part ∈ parts) :
    ∃ entry f kind, s.exposedField? requested entry.1 = some f ∧
      s.Shows values withName kind f entry ∧
      entry.2.apiPart entry.1 (o.tag? entry.1) = .ok part := by
  obtain ⟨entry, hentry, hpart⟩ := exists_of_forall₂ (forall₂_of_mapM hparts) h
  obtain ⟨f, kind, hf, hshows⟩ := exposedField_of_mem hs hk hex hentry
  exact ⟨entry, f, kind, hf, hshows, hpart⟩

/-- Every field that has a path has its part. -/
theorem part_of_exposedField {key : String} {f : SchemaField}
    (h : s.exposedField? requested key = some f) :
    ∃ e kind, s.Shows values withName kind f (key, e) ∧
      ∃ part ∈ parts, e.apiPart key (o.tag? key) = .ok part := by
  have hrel := Schema.lookup_examples hs hk hex key
  rw [h] at hrel
  cases hlookup : ex.lookup key with
  | none =>
    rw [hlookup] at hrel
    cases hrel
  | some e =>
    rw [hlookup] at hrel
    cases hrel with
    | some hshows =>
      obtain ⟨kind, hshows⟩ := hshows
      exact ⟨e, kind, hshows,
        exists_right_of_forall₂ (forall₂_of_mapM hparts) (mem_of_lookup hlookup)⟩

end

/-- Of a document the values that stand for arguments count, and nothing else. -/
theorem Permits.transformWith {P : Value → Prop} {Q : List Value → Prop} (h : Permits P Q)
    {s : Schema} (hs : s.Coherent) {kinds : Kinds} {o : Options}
    (ho : o.HasTexts) {named : List (String × Value)} (hnamed : o.exampleValues = .named named)
    {requested : List OperationKind} (hk : requestedKinds kinds = .ok requested) {d : ApiDocument}
    (hd : (transformWith s o kinds).run.1 = .ok d) : P d.toValue ↔ ∀ v, s.Uses requested o v → P v := by
  obtain ⟨ex, parts, hex, hparts, rfl⟩ := examples_of_transformWith hd
  rw [hnamed] at hex
  -- each part is that of a field: its component has the keys of a mock response, and its operation
  -- holds the values of the field's arguments
  have hpart : ∀ part ∈ parts, Q (part.component.properties.map Prod.fst) ∧
      Plain P part.operation := by
    intro part hpart
    obtain ⟨entry, f, kind, hf, ⟨-, rootName, -, he⟩, hpart⟩ :=
      exposedField_of_part hs hk hex hparts hpart
    obtain ⟨hcomponent, hop⟩ := apiPart_eq_ok.mp hpart
    exact ⟨keys_component h he hcomponent,
      (plain_of_exampleFor h (nodup_of_exposedField hs hf) he hop).1⟩
  rw [h.document ho (Schema.nodup_examples hs hex) hparts (fun part hp => (hpart part hp).2)
    fun part hp => (hpart part hp).1]
  unfold Schema.Uses
  rw [hnamed]
  constructor
  · rintro hall v ⟨key, f, hf, a, ha, hv⟩
    obtain ⟨e, kind, ⟨-, rootName, -, he⟩, part, hpart, hmade⟩ :=
      part_of_exposedField hs hk hex hparts hf
    exact (plain_of_exampleFor h (nodup_of_exposedField hs hf) he (apiPart_eq_ok.mp hmade).2).2.mp
      (hall part hpart) a ha v hv
  · intro hall part hpart
    obtain ⟨entry, f, kind, hf, ⟨-, rootName, -, he⟩, hmade⟩ :=
      exposedField_of_part hs hk hex hparts hpart
    exact (plain_of_exampleFor h (nodup_of_exposedField hs hf) he (apiPart_eq_ok.mp hmade).2).2.mpr
      fun a ha v hv => hall v ⟨entry.1, f, hf, a, ha, hv⟩

/-- So it is with options that were checked. -/
theorem Permits.transform {P : Value → Prop} {Q : List Value → Prop} (h : Permits P Q) {s : Schema}
    (hs : s.Coherent) {options : Value} {kinds : Kinds} {o : Options}
    (ho : Options.ofValue options = .ok o) {requested : List OperationKind}
    (hk : requestedKinds kinds = .ok requested) {d : ApiDocument}
    (hd : (transform s options kinds).run.1 = .ok d) :
    P d.toValue ↔ ∀ v, s.Uses requested o v → P v := by
  obtain ⟨named, hnamed⟩ := exampleValues_ofValue ho
  exact h.transformWith hs (hasTexts_ofValue ho) hnamed hk (run_transform ho s kinds ▸ hd)

end GraphPaths
