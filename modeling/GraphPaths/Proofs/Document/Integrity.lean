import GraphPaths.Proofs.Document.Pointer
import GraphPaths.Proofs.Document.Tags
import GraphPaths.Proofs.Response.Document

/-!
# Documents refer to what they hold

A document of examples has a path and a component for each, and nothing but names ties them
together: the reference of a path to its component, the tags of operations to the tags the document
declares. `Intact` says that these names fit, of the document's data alone, and `assemble_intact`
that they fit whatever the options and the examples are, as long as the keys are names.

An example is data of its own, which may hold a `$ref` that leads nowhere. So the references that
fit are those outside the examples, and all if no example holds one.
-/

namespace GraphPaths

/-! ## References and operations in a document's data -/

namespace Value

mutual

/-- The references in a value, which stand under `$ref` in its mappings, without those below some
keys. -/
def references (skipped : List String) : Value → List Value
  | .list xs | .set xs => referencesItems skipped xs
  | .map es => referencesEntries skipped es
  | .shared _ v => references skipped v
  | _ => []

/-- The references in the items. -/
def referencesItems (skipped : List String) : List Value → List Value
  | [] => []
  | x :: xs => references skipped x ++ referencesItems skipped xs

/-- The references in the entries. -/
def referencesEntries (skipped : List String) : List (Value × Value) → List Value
  | [] => []
  | (k, v) :: es =>
    (if k.text? == some "$ref" then [v] else []) ++
      (if k.text?.any (· ∈ skipped) then [] else references skipped v) ++
        referencesEntries skipped es

end

/-- The keys of a mapping, in order. -/
def keys? (v : Value) : Option (List Value) := v.entries?.map (List.map Prod.fst)

/-- The operations of a document, in the order of its paths. -/
def operations (document : Value) : List Value :=
  (((document.get? "paths").bind entries?).getD []).filterMap fun (_, item) => item.get? "post"

theorem keys?_record (fields : List (String × Value)) :
    (record fields).keys? = some (fields.map fun (k, _) => .text k) := by
  rw [keys?, entries?_record, Option.map_some, List.map_map]
  rfl

@[simp] theorem references_text (skipped : List String) (s : String) :
    (text s).references skipped = [] :=
  rfl

@[simp] theorem references_bool (skipped : List String) (b : Bool) :
    (bool b).references skipped = [] :=
  rfl

@[simp] theorem references_list (skipped : List String) (xs : List Value) :
    (list xs).references skipped = xs.flatMap fun x => x.references skipped := by
  show referencesItems skipped xs = _
  induction xs with
  | nil => rfl
  | cons x xs ih => rw [referencesItems, ih, List.flatMap_cons]

@[simp] theorem references_record_nil (skipped : List String) :
    (record []).references skipped = [] :=
  rfl

@[simp] theorem references_record_cons (skipped : List String) (key : String) (v : Value)
    (fields : List (String × Value)) : (record ((key, v) :: fields)).references skipped =
      (if key = "$ref" then [v] else []) ++
        (if key ∈ skipped then [] else v.references skipped) ++
          (record fields).references skipped := by
  have hhead : (record ((key, v) :: fields)).references skipped =
      (if some key == some "$ref" then [v] else []) ++
        (if (some key).any (· ∈ skipped) then [] else v.references skipped) ++
          (record fields).references skipped := rfl
  simpa using hhead

/-- The references of a record of which no field is a reference, and none is skipped. -/
theorem references_record {skipped : List String} : ∀ {fields : List (String × Value)},
    (∀ field ∈ fields, field.1 ≠ "$ref" ∧ field.1 ∉ skipped) →
      (record fields).references skipped = fields.flatMap fun field => field.2.references skipped
  | [], _ => rfl
  | (k, v) :: fields, h => by
    obtain ⟨href, hskipped⟩ := h (k, v) List.mem_cons_self
    have ih := references_record fun field hfield => h field (List.mem_cons_of_mem _ hfield)
    rw [references_record_cons, if_neg href, if_neg hskipped, ih, List.flatMap_cons,
      List.nil_append]

theorem referencesEntries_eq_nil {skipped : List String} {es : List (Value × Value)}
    (h : referencesEntries skipped es = []) {e : Value × Value} (he : e ∈ es)
    (hkey : ¬e.1.text?.any (· ∈ skipped)) : e.2.references skipped = [] := by
  induction es with
  | nil => contradiction
  | cons e' es ih =>
    obtain ⟨hhead, hrest⟩ := List.append_eq_nil_iff.mp h
    rcases List.mem_cons.mp he with rfl | he
    · have hvalue := (List.append_eq_nil_iff.mp hhead).2
      rwa [if_neg hkey] at hvalue
    · exact ih hrest he

theorem references_bare (skipped : List String) (v : Value) :
    v.bare.references skipped = v.references skipped := by
  induction v using bare.induct with
  | case1 l v ih => exact ih
  | case2 v hv =>
    cases v with
    | shared l w => exact absurd rfl (hv l w)
    | _ => rfl

/-- What stands in a value without references has none. -/
theorem references_get? {v w : Value} {key : String} (h : v.references [] = [])
    (hget : v.get? key = some w) : w.references [] = [] := by
  obtain ⟨es, hes, hfind⟩ := Option.bind_eq_some_iff.mp hget
  obtain ⟨e, he, rfl⟩ := Option.map_eq_some_iff.mp hfind
  rw [← references_bare, entries?_eq_some.mp hes] at h
  exact referencesEntries_eq_nil h (List.mem_of_find?_eq_some he) (by simp)

end Value

/-! ## What holds of a document -/

/-- The keys of the data of an example's response, where the data is a mapping or null. -/
def Example.dataKeys? (e : Example) : Option (List Value) :=
  match e.response.get? "data" with
  | none | some .null => some []
  | some data => data.keys?

/-- An example with the text of its request, whose response is a mapping and has data that is a
mapping or null. -/
structure Example.Complete (e : Example) : Prop where
  query : ∃ text, e.request.get? "query" = some (.text text)
  response : e.response.entries?.isSome
  data : e.dataKeys?.isSome

/-- An example that holds no reference. -/
structure Example.Closed (e : Example) : Prop where
  request : e.request.references [] = []
  response : e.response.references [] = []

/-- Where a document has the component of a field. -/
def componentPlace (key : String) : List String := ["components", "schemas", componentName key]

/-- A document declares the tags of its operations. -/
structure TagsDeclared (document : Value) (used : List (Option String)) (declared : List String) :
    Prop where
  /-- The operations have these tags, one or none each. -/
  operationTags : document.operations.map (·.get? "tags") =
    used.map (Option.map fun name => Value.list [.text name])
  /-- The declared tags have these names; where nothing is declared there is no list of tags. -/
  topTags : (document.get? "tags").map (fun tags => tags.items?.map (List.map (·.get? "name"))) =
    if declared = [] then none else some (some (declared.map fun name => some (.text name)))
  nodup : declared.Nodup
  mem : ∀ name, name ∈ declared ↔ some name ∈ used
  /-- A tag stands before another if its first use is before that of the other. -/
  order : declared.Pairwise fun a b => used.idxOf (some a) < used.idxOf (some b)
  present : (document.get? "tags").isSome ↔ ∃ operation ∈ document.operations,
    (operation.get? "tags").isSome

/-- The names in a document of examples fit together. -/
structure Intact (ex : Examples) (document : Value) : Prop where
  paths : (document.get? "paths").bind Value.keys? =
    some ((Examples.keys ex).map fun key => .text ("/" ++ key))
  nodup_paths : ((Examples.keys ex).map fun key => "/" ++ key).Nodup
  components : (document.at? ["components", "schemas"]).bind Value.keys? =
    some ((Examples.keys ex).map fun key => .text (componentName key))
  nodup_components : ((Examples.keys ex).map componentName).Nodup
  /-- The references in the paths outside the examples, in order. -/
  references : (document.get? "paths").map (Value.references ["example"]) =
    some ((Examples.keys ex).map fun key => .text (componentRef key))
  /-- These are all if the examples hold none. -/
  all_references : (∀ entry ∈ ex, entry.2.Closed) →
    (document.get? "paths").map (Value.references []) =
      (document.get? "paths").map (Value.references ["example"])
  /-- The path of an example has one reference, which leads to the component of that example. -/
  resolves : ∀ entry ∈ ex,
    (document.at? ["paths", "/" ++ entry.1]).map (Value.references ["example"]) =
      some [.text (componentRef entry.1)] ∧
    ∃ component, document.resolve? (.text (componentRef entry.1)) = some component ∧
      document.at? (componentPlace entry.1) = some component ∧
      (component.at? ["properties", "data", "properties"]).bind Value.keys? = entry.2.dataKeys?
  /-- A component is where exactly one reference leads. -/
  once : ∀ references,
    (document.get? "paths").map (Value.references ["example"]) = some references →
    ∀ key ∈ Examples.keys ex, references.countP (fun reference =>
      reference.text?.bind Pointer.ofReference == some (componentPlace key)) = 1
  operationIds : (document.operations.map (·.get? "operationId")) =
    (Examples.keys ex).map fun key => some (.text key)
  nodup_operationIds : (document.operations.map (·.get? "operationId")).Nodup
  tags : ∃ used declared, TagsDeclared document used declared

/-! ## References -/

/-- A name is the token of the reference to its component. -/
theorem ofReference_componentRef {key : String} (h : Graphql.isName key) :
    Pointer.ofReference (componentRef key) = some (componentPlace key) := by
  have hkey : key.toList.all Graphql.isNameChar := by
    unfold Graphql.isName at h
    cases hchars : key.toList with
    | nil => rfl
    | cons c r =>
      rw [hchars, Bool.and_eq_true] at h
      rw [List.all_cons, Bool.and_eq_true]
      exact ⟨(Graphql.isNameStart_facts h.1).2.2.2.2.2, h.2⟩
  have hcomponent : (componentName key).toList.all Graphql.isNameChar := by
    rw [componentName, String.toList_append, List.all_append, hkey, Bool.true_and]
    decide
  have hstart : "#/components/schemas/".toList =
      '#' :: '/' :: "components".toList ++ '/' :: "schemas".toList ++ ['/'] := by decide +kernel
  have hchars : (componentRef key).toList = '#' :: Pointer.chars (componentPlace key) :=
    calc (componentRef key).toList
      _ = "#/components/schemas/".toList ++ (componentName key).toList := String.toList_append
      _ = '#' :: '/' :: "components".toList ++ '/' :: "schemas".toList ++ ['/']
            ++ (componentName key).toList := congrArg (· ++ (componentName key).toList) hstart
      _ = '#' :: Pointer.chars (componentPlace key) := by
        simp only [Pointer.chars, componentPlace, List.flatMap_cons, List.flatMap_nil,
          List.append_nil, List.cons_append, List.append_assoc, List.nil_append]
  rw [← String.ofList_toList (s := componentRef key), hchars]
  refine Pointer.ofReference_names fun token htoken => ?_
  rcases List.mem_cons.mp htoken with rfl | htoken
  · rfl
  · rcases List.mem_cons.mp htoken with rfl | htoken
    · rfl
    · rwa [List.mem_singleton.mp htoken]

/-- The examples of an operation are skipped, or hold no reference. -/
def ApiOperation.Hides (skipped : List String) (op : ApiOperation) : Prop :=
  skipped = ["example"] ∨ skipped = [] ∧
    ∀ v ∈ op.query :: op.response :: (op.variableValues.toList ++ op.operationName.toList),
      v.references [] = []

section

variable {skipped : List String}

/-- The only reference of an operation is that to its component. -/
theorem references_operation {op : ApiOperation} (h : op.Hides skipped) :
    op.toValue.references skipped = [.text (componentRef op.id)] := by
  obtain ⟨id, summary, query, variableValues, operationName, response, tag⟩ := op
  unfold ApiOperation.toValue ApiOperation.requestSchema jsonContent
  rcases h with rfl | ⟨rfl, h⟩
  · cases variableValues <;> cases operationName <;> cases tag <;> rfl
  · rw [List.forall_mem_cons, List.forall_mem_cons] at h
    cases variableValues <;> cases operationName <;> cases tag <;> simp_all

/-- The only reference of a path is that to the component of its operation. -/
theorem references_path {op : ApiOperation} (h : op.Hides skipped) :
    (Value.record [("post", op.toValue)]).references skipped = [.text (componentRef op.id)] := by
  have hpost : "post" ∉ skipped := by
    rcases h with rfl | ⟨rfl, -⟩ <;> simp
  simp [hpost, references_operation h]

end

section

variable {o : Options} {ex : Examples} {parts : List ApiPart} {skipped : List String}

theorem get?_paths (d : ApiDocument) : d.toValue.get? "paths" =
    some (.record (d.operations.map fun op => ("/" ++ op.id, .record [("post", op.toValue)]))) := by
  unfold ApiDocument.toValue
  rw [Value.get?_record]
  rfl

theorem get?_schemas (d : ApiDocument) : d.toValue.at? ["components", "schemas"] =
    some (.record (d.components.map fun c => (componentName c.field, c.toValue))) := by
  unfold ApiDocument.toValue
  rw [Value.at?_record_cons]
  rfl

theorem references_paths {d : ApiDocument} (h : ∀ op ∈ d.operations, op.Hides skipped) :
    (d.toValue.get? "paths").map (Value.references skipped) =
      some (d.operations.map fun op => .text (componentRef op.id)) := by
  have hne : ∀ (op : ApiOperation) (name : String), name.toList.head? ≠ some '/' →
      "/" ++ op.id ≠ name := by
    rintro op _ hname rfl
    exact hname (by simp)
  rw [get?_paths, Option.map_some, Value.references_record, List.flatMap_map, List.map_eq_flatMap]
  · exact congrArg some (List.flatMap_congr fun op hop => references_path (h op hop))
  · intro field hfield
    obtain ⟨op, hop, rfl⟩ := List.mem_map.mp hfield
    refine ⟨hne op _ (by decide), fun hmem => ?_⟩
    rcases h op hop with rfl | ⟨rfl, -⟩
    · exact hne op _ (by decide) (List.mem_singleton.mp hmem)
    · exact List.not_mem_nil hmem

/-- The operations of a document have the keys of the examples. -/
theorem map_ids {α : Type} (hparts : apiParts o ex = .ok parts) (f : String → α) :
    (documentOf o ex parts).operations.map (fun op => f op.id) = (Examples.keys ex).map f := by
  obtain ⟨-, hids, -⟩ := names_of_parts hparts
  rw [← hids, documentOf, List.map_map, List.map_map]
  rfl

/-- The references of a document are those to the components of its examples. -/
theorem references_documentOf (hparts : apiParts o ex = .ok parts)
    (h : ∀ part ∈ parts, part.operation.Hides skipped) :
    ((documentOf o ex parts).toValue.get? "paths").map (Value.references skipped) =
      some ((Examples.keys ex).map fun key => .text (componentRef key)) := by
  rw [references_paths (List.forall_mem_map.mpr h)]
  exact congrArg some (map_ids hparts fun id => Value.text (componentRef id))

/-- The path of an example refers to the component of that example. -/
theorem path_references {key : String} {e : Example} (hparts : apiParts o ex = .ok parts)
    (he : ex.lookup key = some e) :
    ((documentOf o ex parts).toValue.at? ["paths", "/" ++ key]).map (Value.references ["example"]) =
      some [.text (componentRef key)] := by
  obtain ⟨part, hpart, hlookup⟩ := exists_apiPart_of_lookup hparts he
  obtain ⟨rfl, -⟩ := apiOperation_eq_ok (apiPart_eq_ok.mp hpart).2
  rw [paths_at?, hlookup]
  exact congrArg some (references_path (.inl rfl))

/-- The operations of examples without references show none. -/
theorem hides_of_closed (hparts : apiParts o ex = .ok parts) (h : ∀ entry ∈ ex, entry.2.Closed) :
    ∀ part ∈ parts, part.operation.Hides [] := by
  intro part hpart
  obtain ⟨⟨key, e⟩, hentry, hmade⟩ := exists_of_forall₂ (forall₂_of_mapM hparts) hpart
  obtain ⟨hrequest, hresponse⟩ := h _ hentry
  have hget : ∀ {name : String} {v : Value}, e.part? name = some v → v.references [] = [] :=
    fun hv => Value.references_get? hrequest (Option.mem_filter_iff.mp hv).1
  have hop := (apiPart_eq_ok.mp hmade).2
  unfold Example.apiOperation at hop
  split at hop
  · contradiction
  · next query hquery =>
    obtain hop := Except.ok.inj hop
    refine .inr ⟨rfl, ?_⟩
    rw [← hop]
    simp only [List.forall_mem_cons, List.forall_mem_append, Option.mem_toList]
    exact ⟨Value.references_get? hrequest hquery, hresponse, fun v hv => hget hv,
      fun v hv => hget hv⟩

/-- A document with distinct names has one reference to each component. -/
theorem countP_references {keys : List String} (hkeys : keys.Nodup)
    (hnames : ∀ key ∈ keys, Graphql.isName key) {key : String} (hkey : key ∈ keys) :
    (keys.map fun key => Value.text (componentRef key)).countP (fun reference =>
      reference.text?.bind Pointer.ofReference == some (componentPlace key)) = 1 := by
  have hplace : ∀ k ∈ keys, ((Value.text (componentRef k)).text?.bind Pointer.ofReference ==
      some (componentPlace key)) = (k == key) := by
    intro k hk
    rw [Value.text?, Option.bind_some, ofReference_componentRef (hnames k hk)]
    apply Bool.eq_iff_iff.mpr
    rw [beq_iff_eq, beq_iff_eq]
    refine ⟨fun h => componentName_injective ?_, fun h => h ▸ rfl⟩
    simpa [componentPlace] using h
  rw [List.countP_map, List.countP_congr fun k hk => by rw [Function.comp_apply, hplace k hk]]
  exact List.count_eq_one_of_mem hkeys hkey

/-! ## Operations -/

theorem operations_toValue (d : ApiDocument) :
    d.toValue.operations = d.operations.map ApiOperation.toValue := by
  have hpost : ∀ op : ApiOperation,
      (Value.record [("post", op.toValue)]).get? "post" = some op.toValue := fun op => by
    rw [Value.get?_record, List.lookup_cons_self]
  rw [Value.operations, get?_paths, Option.bind_some, Value.entries?_record, Option.getD_some,
    List.map_map, List.filterMap_map, ← List.filterMap_eq_map]
  exact List.filterMap_congr fun op _ => hpost op

theorem get?_operationId (op : ApiOperation) :
    op.toValue.get? "operationId" = some (.text op.id) := by
  unfold ApiOperation.toValue
  rw [Value.get?_record]
  rfl

theorem operationIds_documentOf (hparts : apiParts o ex = .ok parts) :
    (documentOf o ex parts).toValue.operations.map (·.get? "operationId") =
      (Examples.keys ex).map fun key => some (.text key) := by
  rw [operations_toValue, List.map_map, ← map_ids hparts fun id => some (Value.text id)]
  exact List.map_congr_left fun op _ => get?_operationId op

theorem get?_operationTags (op : ApiOperation) :
    op.toValue.get? "tags" = op.tag.map fun name => .list [.text name] := by
  unfold ApiOperation.toValue
  rw [Value.get?_record]
  cases op.tag <;> rfl

/-! ## Tags -/

theorem get?_tags (d : ApiDocument) : d.toValue.get? "tags" =
    if d.tags.isEmpty then none else some (.list (d.tags.map RouteTag.toValue)) := by
  unfold ApiDocument.toValue
  rw [Value.get?_record]
  cases d.tags.isEmpty <;> rfl

theorem get?_name (t : RouteTag) : t.toValue.get? "name" = some (.text t.name) := by
  rw [RouteTag.toValue, Value.get?_record, List.lookup_cons_self]

/-- The operations of a document have the tags of their fields. -/
theorem operationTags_documentOf (hparts : apiParts o ex = .ok parts) :
    (documentOf o ex parts).toValue.operations.map (·.get? "tags") =
      (tagNames o ex).map (Option.map fun name => Value.list [.text name]) := by
  have htags : parts.map (fun part => part.operation.tag) = tagNames o ex :=
    (names_of_parts hparts).2.2
  rw [operations_toValue, ← htags, documentOf, List.map_map, List.map_map, List.map_map]
  exact List.map_congr_left fun part _ => get?_operationTags part.operation

/-- The names of the tags that a document declares. -/
theorem topTags_toValue (d : ApiDocument) :
    (d.toValue.get? "tags").map (fun tags => tags.items?.map (List.map (·.get? "name"))) =
      if d.tags.map RouteTag.name = [] then none
      else some (some ((d.tags.map RouteTag.name).map fun name => some (.text name))) := by
  rw [get?_tags]
  generalize d.tags = declared
  cases declared with
  | nil => rfl
  | cons t ts =>
    have hnames : (t :: ts).map (fun x => x.toValue.get? "name") =
        ((t :: ts).map RouteTag.name).map fun name => some (.text name) := by
      rw [List.map_map]
      exact List.map_congr_left fun x _ => get?_name x
    rw [if_neg (by simp), if_neg (by simp), ← hnames, Option.map_some]
    show some (some (((t :: ts).map RouteTag.toValue).map _)) = _
    rw [List.map_map]
    rfl

/-- A document has an operation with tags just if a field has one. -/
theorem exists_operationTags_iff (hparts : apiParts o ex = .ok parts) :
    (∃ operation ∈ (documentOf o ex parts).toValue.operations, (operation.get? "tags").isSome) ↔
      ∃ name, some name ∈ tagNames o ex := by
  have htags := operationTags_documentOf hparts
  constructor
  · rintro ⟨operation, hmem, hsome⟩
    obtain ⟨tag, htag, heq⟩ := List.mem_map.mp (htags ▸ List.mem_map_of_mem hmem)
    rw [← heq, Option.isSome_map] at hsome
    obtain ⟨name, rfl⟩ := Option.isSome_iff_exists.mp hsome
    exact ⟨name, htag⟩
  · rintro ⟨name, hmem⟩
    have hlisted : some (Value.list [.text name]) ∈
        (documentOf o ex parts).toValue.operations.map (·.get? "tags") := by
      rw [htags]
      exact List.mem_map_of_mem hmem
    obtain ⟨operation, hoperation, heq⟩ := List.mem_map.mp hlisted
    exact ⟨operation, hoperation, by rw [heq]; rfl⟩

/-- A document declares the tags of its operations. -/
theorem tagsDeclared_documentOf (hparts : apiParts o ex = .ok parts) :
    TagsDeclared (documentOf o ex parts).toValue (tagNames o ex)
      ((documentOf o ex parts).tags.map RouteTag.name) where
  operationTags := operationTags_documentOf hparts
  topTags := topTags_toValue _
  nodup := (declares_documentOf o ex parts).nodup
  mem := (declares_documentOf o ex parts).mem
  order := (declares_documentOf o ex parts).order
  present := by
    have hmem := (declares_documentOf o ex parts).mem
    rw [get?_tags, exists_operationTags_iff hparts]
    generalize (documentOf o ex parts).tags = declared at hmem ⊢
    cases declared with
    | nil => simpa using fun name => (hmem name).not.mp List.not_mem_nil
    | cons t ts => simpa using ⟨t.name, (hmem t.name).mp List.mem_cons_self⟩

/-! ## Documents of examples -/

theorem keys?_properties (c : ApiComponent) :
    (c.toValue.at? ["properties", "data", "properties"]).bind Value.keys? =
      some (c.properties.map Prod.fst) := by
  unfold ApiComponent.toValue
  rw [Value.at?_record_cons]
  show some (List.map _ (List.map _ _)) = _
  rw [List.map_map]
  rfl

/-- The keys of data that is a mapping or null are those that there are properties for. -/
theorem Example.Complete.dataKeys {e : Example} (h : e.Complete) :
    ∃ keys, e.dataKeys? = some keys ∧ e.dataKeys = .ok keys := by
  obtain ⟨keys, hkeys⟩ := Option.isSome_iff_exists.mp h.data
  refine ⟨keys, hkeys, ?_⟩
  unfold Example.dataKeys? at hkeys
  unfold Example.dataKeys Example.data?
  rw [if_neg (by simpa using Option.isSome_iff_ne_none.mp h.response)]
  split at hkeys
  · next hnone => rw [hnone, ← Option.some.inj hkeys]; rfl
  · next hnull => rw [hnull, ← Option.some.inj hkeys]; rfl
  · next data _ hdata =>
    obtain ⟨es, hes, rfl⟩ := Option.map_eq_some_iff.mp hkeys
    have hbare := Value.entries?_eq_some.mp hes
    have hall : data.keysOf = .ok (es.map Prod.fst) := by rw [Value.keysOf, hbare]
    rw [hdata, Option.filter_some, Value.isEmpty, hbare]
    cases es with
    | nil => rfl
    | cons e es =>
      cases data with
      | again l => contradiction
      | _ => exact hall

theorem Example.Complete.fits {e : Example} (h : e.Complete) : e.Fits := by
  obtain ⟨text, htext⟩ := h.query
  obtain ⟨keys, -, hkeys⟩ := h.dataKeys
  exact ⟨by rw [htext]; rfl, h.response, (exists_dataKeys_iff h.response).mp ⟨keys, hkeys⟩⟩

/-- The component of an example has the keys of the data of the example. -/
theorem keys?_component {e : Example} (h : e.Complete) {key : String} {c : ApiComponent}
    (hc : e.component key = .ok c) :
    (c.toValue.at? ["properties", "data", "properties"]).bind Value.keys? = e.dataKeys? := by
  obtain ⟨keys, hkeys?, hkeys⟩ := h.dataKeys
  obtain ⟨keys', hkeys', rfl⟩ := component_eq_ok.mp hc
  obtain rfl := Except.ok.inj (hkeys.symm.trans hkeys')
  rw [keys?_properties, hkeys?, List.map_map]
  exact congrArg some (List.map_id' keys)

/-- The names in a document fit together.

Whatever the options, examples under distinct names of GraphQL, each with the text of a request and
with data that is a mapping or null, give a document. It has a path and a component for each, under
names of their own. Outside the examples the only references are those of the paths, each to the
component of its own example, whose data has the keys of that example's data; no component is
referred to twice. If the examples hold no references these are all. Every operation has its own id.
The tags of operations are declared, each once and in order of first use, and nothing else is. -/
theorem assemble_intact (o : Options) (ex : Examples) (hkeys : (Examples.keys ex).Nodup)
    (hnames : ∀ entry ∈ ex, Graphql.isName entry.1) (hcomplete : ∀ entry ∈ ex, entry.2.Complete) :
    ∃ d, (assemble o ex).run.1 = .ok d ∧ Intact ex d.toValue := by
  obtain ⟨parts, hparts⟩ := exists_apiParts o fun entry hentry => (hcomplete entry hentry).fits
  obtain ⟨hfields, -, -⟩ := names_of_parts hparts
  have hnames' : ∀ key ∈ Examples.keys ex, Graphql.isName key := by
    intro key hkey
    obtain ⟨entry, hentry, rfl⟩ := List.mem_map.mp hkey
    exact hnames entry hentry
  have houtside := references_documentOf hparts fun part _ => .inl (rfl : ["example"] = _)
  have hoperationIds := operationIds_documentOf hparts
  have hlookup : ∀ entry ∈ ex, ex.lookup entry.1 = some entry.2 := fun entry hentry =>
    lookup_of_mem hkeys hentry
  refine ⟨documentOf o ex parts, ?_, ?_⟩
  · rw [(assemble_yields o ex).run_fst, hparts]
    rfl
  · exact {
      paths := by
        rw [get?_paths, Option.bind_some, Value.keys?_record, List.map_map]
        exact congrArg some (map_ids hparts fun id => Value.text ("/" ++ id))
      nodup_paths := hkeys.map slash_injective
      components := by
        rw [get?_schemas, Option.bind_some, Value.keys?_record, ← hfields, documentOf,
          List.map_map, List.map_map, List.map_map]
        rfl
      nodup_components := hkeys.map componentName_injective
      references := houtside
      all_references := fun hclosed =>
        (references_documentOf hparts (hides_of_closed hparts hclosed)).trans houtside.symm
      resolves := fun entry hentry => by
        obtain ⟨part, hpart, hfound⟩ := exists_apiPart_of_lookup hparts (hlookup entry hentry)
        have hcomponent : (documentOf o ex parts).toValue.at? (componentPlace entry.1) =
            some part.component.toValue := by
          rw [componentPlace, components_at? hparts, hfound]
          rfl
        refine ⟨path_references hparts (hlookup entry hentry), _,
          Value.resolve?_of_at? (ofReference_componentRef (hnames entry hentry)) hcomponent,
          hcomponent, keys?_component (hcomplete entry hentry) (apiPart_eq_ok.mp hpart).1⟩
      once := fun references href key hkey => by
        obtain rfl := Option.some.inj (houtside.symm.trans href)
        exact countP_references hkeys hnames' hkey
      operationIds := hoperationIds
      nodup_operationIds := by
        rw [hoperationIds]
        exact hkeys.map fun a b h => by simpa using h
      tags := ⟨_, _, tagsDeclared_documentOf hparts⟩ }

end

/-- Two examples, one named like the component of the other. -/
def namesakes : Examples :=
  [("a", ⟨"Example Query", .record [("query", .text "query a { a }")],
      .record [("data", .record [("$ref", .null), ("b", .null)])], "a", .query, none⟩),
   ("aResponse", ⟨"Example Mutation", .record [("query", .text "mutation aResponse { aResponse }")],
      .record [("data", .null)], "aResponse", .mutation, none⟩)]

/-- Options that give both fields of `namesakes` one tag, and a field that is not there another. -/
def sharedTag : Options :=
  { Options.standard with
    routeMap := [("ghost", ⟨some ⟨"ghosts", none⟩⟩), ("a", ⟨some ⟨"t", none⟩⟩),
      ("aResponse", ⟨some ⟨"t", some "The same tag."⟩⟩)] }

/-- Fields that are named like components, and fields that share a tag. -/
theorem namesakes_intact : (Examples.keys namesakes).Nodup ∧
    (∀ entry ∈ namesakes, Graphql.isName entry.1) ∧ (∀ entry ∈ namesakes, entry.2.Complete) ∧
    ∃ d, (assemble sharedTag namesakes).run.1 = .ok d ∧ Intact namesakes d.toValue := by
  have hkeys : (Examples.keys namesakes).Nodup := by decide
  have hnames : ∀ entry ∈ namesakes, Graphql.isName entry.1 := by decide
  have hcomplete : ∀ entry ∈ namesakes, entry.2.Complete := by
    intro entry hentry
    rcases List.mem_cons.mp hentry with rfl | hentry
    · exact ⟨⟨_, rfl⟩, rfl, rfl⟩
    · obtain rfl := List.mem_singleton.mp hentry
      exact ⟨⟨_, rfl⟩, rfl, rfl⟩
  exact ⟨hkeys, hnames, hcomplete, assemble_intact sharedTag namesakes hkeys hnames hcomplete⟩

/-- An example whose data has a member under `$ref`. -/
def strayReference : Examples :=
  [("a", ⟨"Example Query", .record [("query", .text "query a { a }")],
    .record [("data", .record [("$ref", .text "#/nowhere")])], "a", .query, none⟩)]

/-- What stands under `$ref` in the data of an example leads nowhere. -/
theorem strayReference_unresolved : (Examples.keys strayReference).Nodup ∧
    (∀ entry ∈ strayReference, Graphql.isName entry.1) ∧
    (∀ entry ∈ strayReference, entry.2.Complete) ∧
    ∃ d, (assemble .standard strayReference).run.1 = .ok d ∧
      (d.toValue.get? "paths").map (Value.references []) =
        some [.text "#/components/schemas/aResponse", .text "#/nowhere"] ∧
      d.toValue.resolve? (.text "#/nowhere") = none := by
  refine ⟨by decide, by decide, fun entry hentry => ?_, _, rfl, rfl, by decide +kernel⟩
  obtain rfl := List.mem_singleton.mp hentry
  exact ⟨⟨_, rfl⟩, rfl, rfl⟩

end GraphPaths
