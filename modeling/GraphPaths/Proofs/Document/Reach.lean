import GraphPaths.Proofs.Document.Integrity
import GraphPaths.Proofs.Examples.Exposed
import GraphPaths.Proofs.Value.Alike

/-!
# What options reach

Every option has its own places in a document: the address of the server, the fields of the head,
the tags, the value of an argument, the name of the operation. Two options that differ give documents
that are alike up to the places of what they differ in (`options_keep_to_places`). Where the content
of a place may differ says `Reaches`, and where something may stand in only one of the documents
says `Toggles`.
-/

namespace GraphPaths

/-! ## Places -/

/-- Where a document has the properties of the request to a field. -/
def requestPlace (name : String) : List String :=
  ["paths", "/" ++ name, "post", "requestBody", "content", "application/json", "schema",
    "properties"]

/-- Where a document has the value of an argument of a field. -/
def variablePlace (name argument : String) : List String :=
  requestPlace name ++ ["variables", "example", argument]

/-- Where a document has the property for the name of the operation. -/
def operationNamePlace (name : String) : List String :=
  requestPlace name ++ ["operationName"]

/-- Where a document has the tags of the operation of a field. -/
def operationTagsPlace (name : String) : List String :=
  ["paths", "/" ++ name, "post", "tags"]

/-- The value that stands for an argument. -/
def Options.exampleValue (o : Options) (argument : String) : Value :=
  (o.exampleValues.fields.lookup argument).getD defaultVariable

section

variable (s : Schema) (requested : List OperationKind) (o o' : Options)

/-- Where documents may have different content because their options differ. -/
inductive Reaches : List String → Prop
  | serverUrl (h : o.serverUrl ≠ o'.serverUrl) : Reaches ["servers", "0", "url"]
  | title (h : o.title ≠ o'.title) : Reaches ["info", "title"]
  | version (h : o.version ≠ o'.version) : Reaches ["info", "version"]
  | description (h : o.description ≠ o'.description) : Reaches ["info", "description"]
  | summary (h : o.summary ≠ o'.summary) (ho : o.supportsInfoSummary)
      (ho' : o'.supportsInfoSummary) : Reaches ["info", "summary"]
  | openapi (h : o.openapi ≠ o'.openapi) : Reaches ["openapi"]
  | operationTags {x : RootField} (hx : x ∈ s.exposed requested)
      (h : o.tag? x.name ≠ o'.tag? x.name) : Reaches (operationTagsPlace x.name)
  | tags {x : RootField} (hx : x ∈ s.exposed requested) (h : o.tag? x.name ≠ o'.tag? x.name) :
      Reaches ["tags"]
  | argument {x : RootField} {a : SchemaInput} (hx : x ∈ s.exposed requested)
      (ha : a ∈ x.field.arguments)
      (h : (o.exampleValue a.name).plain ≠ (o'.exampleValue a.name).plain) :
      Reaches (variablePlace x.name a.name)

/-- Where only one of two documents may have something because their options differ. -/
inductive Toggles : List String → Prop
  | summary (h : o.supportsInfoSummary ≠ o'.supportsInfoSummary) : Toggles ["info", "summary"]
  | operationTags {x : RootField} (hx : x ∈ s.exposed requested)
      (h : o.tag? x.name ≠ o'.tag? x.name) : Toggles (operationTagsPlace x.name)
  | tags {x : RootField} (hx : x ∈ s.exposed requested) (h : o.tag? x.name ≠ o'.tag? x.name) :
      Toggles ["tags"]
  | operationName {x : RootField} (hx : x ∈ s.exposed requested)
      (h : o.namesOperation ≠ o'.namesOperation) : Toggles (operationNamePlace x.name)

/-- The places of what options differ in. -/
def reach : Places :=
  ⟨Reaches s requested o o', Toggles s requested o o'⟩

/-- What stands in a document at the places of the options. -/
structure ShowsOptions (document : Value) : Prop where
  serverUrl : document.get? "servers" = some (.list [.record [("url", o.serverUrl)]])
  openapi : document.get? "openapi" = some (.text o.openapi)
  title : document.at? ["info", "title"] = some o.title
  version : document.at? ["info", "version"] = some o.version
  description : document.at? ["info", "description"] = some o.description
  /-- Before version 3.1 there is no summary. -/
  summary : document.at? ["info", "summary"] = if o.supportsInfoSummary then some o.summary else none
  operationTags : ∀ x ∈ s.exposed requested, document.at? (operationTagsPlace x.name) =
    (o.tag? x.name).map fun tag => .list [.text tag.name]
  operationName : ∀ x ∈ s.exposed requested, x.name ≠ "" →
    document.at? (operationNamePlace x.name) = if o.namesOperation then
      some (.record [("type", .text "string"), ("example", .text x.name)]) else none
  /-- Variables are declared where there are arguments, whatever the example values are. -/
  declared : ∀ x ∈ s.exposed requested,
    (document.at? (requestPlace x.name ++ ["variables"])).isSome = !x.field.arguments.isEmpty
  argument : ∀ x ∈ s.exposed requested, ∀ a ∈ x.field.arguments,
    document.at? (variablePlace x.name a.name) = some (o.exampleValue a.name)

end

/-- The places under other places. -/
def Places.under (P : Places) : List String → Places
  | [] => P
  | token :: place => (P.below token).under place

open Value (Alike)

variable {s : Schema} {requested : List OperationKind} {o o' : Options}

/-! ## Parts of documents -/

/-- The heads of two documents. -/
theorem alike_info :
    Alike ((reach s requested o o').below "info") o.info.toValue o'.info.toValue := by
  unfold ApiInfo.toValue Options.info
  refine .field (.of_ne .title) (.field (.of_ne .version)
    (.field (.of_ne .description) (.optional ?_ ?_)))
  · intro h
    refine Toggles.summary fun heq => h ?_
    simp only [heq]
    split <;> rfl
  · intro a b ha hb
    split at ha
    · next hs =>
      split at hb
      · next hs' =>
        obtain rfl := Option.some.inj ha
        obtain rfl := Option.some.inj hb
        exact .of_ne fun h => .summary h hs hs'
      · contradiction
    · contradiction

/-- The values of the variables of two requests. -/
theorem alike_variables {x : RootField} (hx : x ∈ s.exposed requested) :
    Alike ((reach s requested o o').under (requestPlace x.name ++ ["variables", "example"]))
      (.record (x.field.arguments.map fun a => (a.name, o.exampleValue a.name)))
      (.record (x.field.arguments.map fun a => (a.name, o'.exampleValue a.name))) := by
  refine .of_forall SchemaInput.name _ _ fun a ha => ?_
  by_cases heq : (o.exampleValue a.name).plain = (o'.exampleValue a.name).plain
  · exact .same heq
  · exact .place (Reaches.argument hx ha heq)

/-- The names of the operations of two requests. -/
theorem alike_operationName {x : RootField} (hx : x ∈ s.exposed requested) :
    let property := fun v =>
      ("operationName", Value.record [("type", .text "string"), ("example", v)])
    Alike ((reach s requested o o').under (requestPlace x.name))
      (.record ((s.operationOf o x).operationName.map property).toList)
      (.record ((s.operationOf o' x).operationName.map property).toList) := by
  have hname : ∀ o : Options, (s.operationOf o x).operationName =
      if o.namesOperation && x.name ≠ "" then some (.text x.name) else none := fun _ => rfl
  intro property
  by_cases heq : o.namesOperation = o'.namesOperation
  · rw [hname, hname, heq]
    exact .refl _
  · have htoggle := Toggles.operationName hx heq
    rw [hname, hname]
    by_cases hempty : x.name = ""
    · simp only [hempty, ne_eq, not_true_eq_false, decide_false, Bool.and_false]
      exact .refl _
    · cases ho : o.namesOperation <;> cases ho' : o'.namesOperation
      · exact .refl _
      · simp only [Bool.false_and, Bool.true_and, ne_eq, hempty, not_false_eq_true, decide_true]
        exact .right htoggle
      · simp only [Bool.false_and, Bool.true_and, ne_eq, hempty, not_false_eq_true, decide_true]
        exact .left htoggle
      · exact absurd (ho.trans ho'.symm) heq

/-- The schemas of two requests. -/
theorem alike_requestSchema {x : RootField} (hx : x ∈ s.exposed requested) :
    Alike ((reach s requested o o').under ["paths", "/" ++ x.name, "post", "requestBody", "content",
        "application/json", "schema"])
      (s.operationOf o x).requestSchema (s.operationOf o' x).requestSchema := by
  have hname := @alike_operationName s requested o o' x hx
  have hvalues : ∀ o : Options, (s.operationOf o x).variableValues =
      if x.field.arguments.isEmpty then none
      else some (.record (x.field.arguments.map fun a => (a.name, o.exampleValue a.name))) :=
    fun _ => rfl
  unfold ApiOperation.requestSchema
  rw [hvalues, hvalues]
  refine .field (.refl _) (.field (.field (.refl _) ?_) (.refl _))
  cases x.field.arguments.isEmpty with
  | true => exact hname
  | false =>
    exact .field (.field (.refl _) (.field (.refl _) (.field (.refl _)
      (.field (alike_variables hx) (.refl _))))) hname

/-- The tags of two operations. -/
theorem alike_operationTags {x : RootField} (hx : x ∈ s.exposed requested) :
    let property := fun name => ("tags", Value.list [.text name])
    Alike ((reach s requested o o').under ["paths", "/" ++ x.name, "post"])
      (.record ((s.operationOf o x).tag.map property).toList)
      (.record ((s.operationOf o' x).tag.map property).toList) := by
  have htag : ∀ o : Options, (s.operationOf o x).tag = (o.tag? x.name).map RouteTag.name :=
    fun _ => rfl
  intro property
  by_cases heq : o.tag? x.name = o'.tag? x.name
  · rw [htag, htag, heq]
    exact .refl _
  · rw [htag, htag]
    cases ht : o.tag? x.name with
    | none =>
      cases ht' : o'.tag? x.name with
      | none => exact .refl _
      | some t' => exact .right (Toggles.operationTags hx heq)
    | some t =>
      cases ht' : o'.tag? x.name with
      | none => exact .left (Toggles.operationTags hx heq)
      | some t' => exact .field (.place (Reaches.operationTags hx heq)) (.refl _)

/-- The paths of a field in two documents. -/
theorem alike_path {x : RootField} (hx : x ∈ s.exposed requested) :
    Alike ((reach s requested o o').under ["paths", "/" ++ x.name])
      (.record [("post", (s.operationOf o x).toValue)])
      (.record [("post", (s.operationOf o' x).toValue)]) := by
  refine .field ?_ (.refl _)
  unfold ApiOperation.toValue
  exact .field (.refl _) (.field (.refl _) (.field (.refl _)
    (.field (.field (.refl _) (.field (.field (.field (alike_requestSchema hx) (.refl _)) (.refl _))
      (.refl _))) (.field (.refl _) (alike_operationTags hx)))))

/-- The declared tags depend on the tags of the fields only. -/
theorem tags_congr {tags : List RouteTag} : ∀ {xs : List RootField},
    (∀ x ∈ xs, o.tag? x.name = o'.tag? x.name) →
      xs.foldl (fun tags x => addTag tags (o.tag? x.name)) tags =
        xs.foldl (fun tags x => addTag tags (o'.tag? x.name)) tags
  | [], _ => rfl
  | x :: xs, h => by
    rw [List.foldl_cons, List.foldl_cons, h x List.mem_cons_self]
    exact tags_congr fun y hy => h y (List.mem_cons_of_mem x hy)

theorem tags_exposedDocument (s : Schema) (o : Options) (requested : List OperationKind) :
    (s.exposedDocument o requested).tags =
      (s.exposed requested).foldl (fun tags x => addTag tags (o.tag? x.name)) [] :=
  List.foldl_map

/-- The tags that two documents declare. -/
theorem alike_tags :
    let property := fun tags : List RouteTag =>
      if tags.isEmpty then [] else [("tags", Value.list (tags.map RouteTag.toValue))]
    Alike (reach s requested o o') (.record (property (s.exposedDocument o requested).tags))
      (.record (property (s.exposedDocument o' requested).tags)) := by
  intro property
  by_cases hall : ∀ x ∈ s.exposed requested, o.tag? x.name = o'.tag? x.name
  · rw [tags_exposedDocument, tags_exposedDocument, tags_congr hall]
    exact .refl _
  · push Not at hall
    obtain ⟨x, hx, hne⟩ := hall
    cases (s.exposedDocument o requested).tags with
    | nil =>
      cases (s.exposedDocument o' requested).tags with
      | nil => exact .refl _
      | cons t' ts' => exact .right (Toggles.tags hx hne)
    | cons t ts =>
      cases (s.exposedDocument o' requested).tags with
      | nil => exact .left (Toggles.tags hx hne)
      | cons t' ts' => exact .field (.place (Reaches.tags hx hne)) (.refl _)

theorem operations_exposedDocument (s : Schema) (o : Options) (requested : List OperationKind) :
    (s.exposedDocument o requested).operations = (s.exposed requested).map (s.operationOf o) :=
  List.map_map

theorem components_exposedDocument (s : Schema) (o : Options) (requested : List OperationKind) :
    (s.exposedDocument o requested).components = (s.exposed requested).map s.componentOf :=
  List.map_map

/-- Options do not choose the paths. -/
theorem paths_exposedDocument :
    ((s.exposedDocument o requested).toValue.get? "paths").bind Value.keys? =
      ((s.exposedDocument o' requested).toValue.get? "paths").bind Value.keys? := by
  have hpaths : ∀ o : Options,
      ((s.exposedDocument o requested).toValue.get? "paths").bind Value.keys? =
        some ((s.exposed requested).map fun x => .text ("/" ++ x.name)) := by
    intro o
    simp [ApiDocument.toValue, operations_exposedDocument, Schema.operationOf,
      Value.keys?_record, Function.comp_def]
  rw [hpaths, hpaths]

/-- Documents of a schema are alike up to the places of what their options differ in. -/
theorem alike_exposedDocument : Alike (reach s requested o o')
    (s.exposedDocument o requested).toValue (s.exposedDocument o' requested).toValue := by
  unfold ApiDocument.toValue
  rw [operations_exposedDocument, operations_exposedDocument, List.map_map, List.map_map,
    components_exposedDocument, components_exposedDocument]
  refine .field ?_ (.field alike_info (.field (.singleton (.field ?_ (.refl _)))
    (.field (.of_forall _ _ _ fun x hx => alike_path hx) (.field (.refl _) alike_tags))))
  · refine .of_ne fun h => Reaches.openapi fun heq => h ?_
    exact congrArg Value.text heq
  · exact .of_ne .serverUrl

/-! ## Content of places -/

theorem lookup_partOf (hs : s.Coherent) {x : RootField} (hx : x ∈ s.exposed requested) :
    (((s.exposed requested).map (s.partOf o)).map fun part => (part.operation.id, part)).lookup
      x.name = some (s.partOf o x) := by
  refine lookup_of_mem ?_ ?_
  · rw [List.map_map, List.map_map]
    exact Schema.nodup_names_exposed hs requested
  · rw [List.map_map]
    exact List.mem_map.mpr ⟨x, hx, rfl⟩

/-- What stands in the operation of a field stands in the document. -/
theorem operation_at? (hs : s.Coherent) {x : RootField} (hx : x ∈ s.exposed requested)
    (place : List String) :
    (s.exposedDocument o requested).toValue.at? ("paths" :: ("/" ++ x.name) :: "post" :: place) =
      (s.operationOf o x).toValue.at? place := by
  unfold Schema.exposedDocument
  rw [paths_at?, lookup_partOf hs hx, Option.bind_some, Value.at?_record_cons,
    List.lookup_cons_self]
  rfl

/-- What stands in the schema of the request of an operation. -/
theorem requestBody_at? (op : ApiOperation) (place : List String) :
    op.toValue.at? ("requestBody" :: "content" :: "application/json" :: "schema" :: place) =
      op.requestSchema.at? place := by
  simp [ApiOperation.toValue, jsonContent]

/-- What stands among the properties of the request to a field. -/
theorem request_at? (hs : s.Coherent) {x : RootField} (hx : x ∈ s.exposed requested)
    (place : List String) :
    (s.exposedDocument o requested).toValue.at? (requestPlace x.name ++ place) =
      (s.operationOf o x).requestSchema.at? ("properties" :: place) :=
  (operation_at? hs hx _).trans (requestBody_at? _ _)

/-- The property for the name of an operation. -/
theorem operationName_at? (op : ApiOperation) :
    op.requestSchema.at? ["properties", "operationName"] = op.operationName.map fun v =>
      .record [("type", .text "string"), ("example", v)] := by
  cases hvalues : op.variableValues <;> cases hname : op.operationName <;>
    simp [ApiOperation.requestSchema, hvalues, hname]

/-- The property for the variables of an operation. -/
theorem variables_at? (op : ApiOperation) (place : List String) :
    op.requestSchema.at? ("properties" :: "variables" :: place) = op.variableValues.bind fun v =>
      (Value.record [("type", .text "object"), ("additionalProperties", .bool true),
        ("description", .text "Variables for the query or mutation"), ("example", v)]).at? place := by
  cases hvalues : op.variableValues <;> cases hname : op.operationName <;>
    simp [ApiOperation.requestSchema, hvalues, hname]

/-- The value of an argument of an operation. -/
theorem argument_at? (hs : s.Coherent) {x : RootField} (hx : x ∈ s.exposed requested)
    {a : SchemaInput} (ha : a ∈ x.field.arguments) :
    (s.operationOf o x).requestSchema.at? ["properties", "variables", "example", a.name] =
      some (o.exampleValue a.name) := by
  have hnodup : (x.field.arguments.map SchemaInput.name).Nodup := by
    obtain ⟨t, ht, hf⟩ := exists_type_of_rootFields (Schema.field_mem_rootFields hx)
    exact hs.argumentNames t ht x.field hf
  have hlookup : (x.field.arguments.map fun a => (a.name, o.exampleValue a.name)).lookup a.name =
      some (o.exampleValue a.name) := by
    refine lookup_of_mem ?_ (List.mem_map_of_mem ha)
    rw [List.map_map]
    exact hnodup
  have hvalues : (s.operationOf o x).variableValues =
      some (.record (x.field.arguments.map fun a => (a.name, o.exampleValue a.name))) := by
    have hne : x.field.arguments ≠ [] := List.ne_nil_of_mem ha
    simp [Schema.operationOf, Options.exampleValue, hne]
  simp [variables_at?, hvalues, hlookup]

/-- The head of a document is that of its options. -/
theorem info_at? (s : Schema) (o : Options) (requested : List OperationKind) (name : String) :
    (s.exposedDocument o requested).toValue.at? ["info", name] = o.info.toValue.get? name := by
  simp [ApiDocument.toValue, Schema.exposedDocument, documentOf]

/-- The document of a schema shows its options at their places. -/
theorem showsOptions_exposedDocument (hs : s.Coherent) :
    ShowsOptions s requested o (s.exposedDocument o requested).toValue where
  serverUrl := by simp [ApiDocument.toValue, Schema.exposedDocument, documentOf]
  openapi := by simp [ApiDocument.toValue, Schema.exposedDocument, documentOf]
  title := by simp [info_at?, ApiInfo.toValue, Options.info]
  version := by simp [info_at?, ApiInfo.toValue, Options.info]
  description := by simp [info_at?, ApiInfo.toValue, Options.info]
  summary := by
    cases h : o.supportsInfoSummary <;> simp [info_at?, ApiInfo.toValue, Options.info, h]
  operationTags x hx := by
    rw [operationTagsPlace, operation_at? hs hx, Value.at?_singleton, get?_operationTags]
    exact Option.map_map _ _ _
  operationName x hx hne := by
    rw [operationNamePlace, request_at? hs hx, operationName_at?]
    cases h : o.namesOperation <;> simp [Schema.operationOf, h, hne]
  declared x hx := by
    rw [request_at? hs hx, variables_at?]
    cases h : x.field.arguments <;> simp [Schema.operationOf, Value.at?, h]
  argument x hx a ha := by
    rw [variablePlace, request_at? hs hx]
    exact argument_at? hs hx ha

/-! ## Documents of two options -/

/-- Options keep to their places.

Whatever two options with values by name say, a schema has a document for both or for neither, and
it has one if every root that is asked for has fields. The documents have the same paths in the same
order, and they have the same fields in the same order and are equal, up to the places of what the
options differ in. Every option stands at its place: a summary only from version 3.1 on, a tag at the
operations of its field, the name of the operation where requests are to have one, and an example
value under every argument of its name and nowhere else, whatever it is. So options that agree on
all that a document shows give equal documents. -/
theorem options_keep_to_places (s : Schema) (hs : s.Coherent) (o o' : Options)
    (ho : ∃ values, o.exampleValues = .named values)
    (ho' : ∃ values, o'.exampleValues = .named values) (kinds : Kinds) :
    (∀ options, Options.ofValue options = .ok o →
      (transform s options kinds).run.1 = (transformWith s o kinds).run.1) ∧
    ((∃ d, (transformWith s o kinds).run.1 = .ok d) ↔
      ∃ d, (transformWith s o' kinds).run.1 = .ok d) ∧
    (∀ requested, requestedKinds kinds = .ok requested →
      (∀ kind ∈ requested, s.hasRootFields kind) →
        ∃ d, (transformWith s o kinds).run.1 = .ok d) ∧
    ∀ requested d d', requestedKinds kinds = .ok requested →
      (transformWith s o kinds).run.1 = .ok d → (transformWith s o' kinds).run.1 = .ok d' →
        (d.toValue.get? "paths").bind Value.keys? = (d'.toValue.get? "paths").bind Value.keys? ∧
        Alike (reach s requested o o') d.toValue d'.toValue ∧
        ShowsOptions s requested o d.toValue ∧
        ((∀ place, ¬Reaches s requested o o' place) → (∀ place, ¬Toggles s requested o o' place) →
          d.toValue.plain = d'.toValue.plain) := by
  obtain ⟨values, hvalues⟩ := ho
  obtain ⟨values', hvalues'⟩ := ho'
  refine ⟨fun options h => run_transform h s kinds, ?_, fun requested hk hroots => ?_, ?_⟩
  · simp only [Schema.transformWith_eq_ok_iff hs hvalues, Schema.transformWith_eq_ok_iff hs hvalues']
    constructor <;> rintro ⟨_, requested, hk, hroots, -⟩ <;> exact ⟨_, requested, hk, hroots, rfl⟩
  · exact ⟨_, (Schema.transformWith_eq_ok_iff hs hvalues).mpr ⟨requested, hk, hroots, rfl⟩⟩
  · intro requested d d' hk hd hd'
    obtain ⟨_, hk₁, -, rfl⟩ := (Schema.transformWith_eq_ok_iff hs hvalues).mp hd
    obtain rfl := Except.ok.inj (hk₁.symm.trans hk)
    obtain ⟨_, hk₂, -, rfl⟩ := (Schema.transformWith_eq_ok_iff hs hvalues').mp hd'
    obtain rfl := Except.ok.inj (hk₂.symm.trans hk)
    exact ⟨paths_exposedDocument, alike_exposedDocument, showsOptions_exposedDocument hs,
      alike_exposedDocument.plain_eq⟩

/-- A field that has an argument. -/
def findField : SchemaField :=
  ⟨"find", [⟨"id", .named "ID", none, false⟩], .named "String", false⟩

/-- A schema with one field. -/
def search : Schema where
  types := [⟨"Query", .object [] [findField]⟩, ⟨"ID", .scalar⟩, ⟨"String", .scalar⟩]
  query := some "Query"
  mutation := none
  subscription := none
  directives := []

theorem coherent_search : search.Coherent := by
  constructor <;> decide

/-- Options with null as the value of an argument and a value that no argument has the name of. -/
def nullId : Options :=
  { Options.standard with exampleValues := .named [("id", .null), ("k", .int 1)] }

/-- Null stands at the place of its argument, and the other value stands nowhere. -/
theorem nullId_keeps_to_places : search.Coherent ∧
    ∃ d d', (transformWith search nullId .absent).run.1 = .ok d ∧
      (transformWith search .standard .absent).run.1 = .ok d' ∧
      Alike (reach search [.query, .mutation] nullId .standard) d.toValue d'.toValue ∧
      d.toValue.at? (variablePlace "find" "id") = some .null := by
  obtain ⟨d, hd⟩ : ∃ d, (transformWith search nullId .absent).run.1 = .ok d := ⟨_, rfl⟩
  obtain ⟨d', hd'⟩ : ∃ d, (transformWith search .standard .absent).run.1 = .ok d := ⟨_, rfl⟩
  obtain ⟨-, -, -, hdocuments⟩ := options_keep_to_places search coherent_search nullId .standard
    ⟨_, rfl⟩ ⟨_, rfl⟩ .absent
  obtain ⟨-, halike, hshows, -⟩ := hdocuments [.query, .mutation] d d' rfl hd hd'
  refine ⟨coherent_search, d, d', hd, hd', halike, ?_⟩
  have hexposed : search.exposed [.query, .mutation] = [⟨.query, findField⟩] := rfl
  have hvalue : nullId.exampleValue "id" = .null := rfl
  have hid := hshows.argument ⟨.query, findField⟩ (by rw [hexposed]; exact List.mem_cons_self)
    ⟨"id", .named "ID", none, false⟩ List.mem_cons_self
  rwa [hvalue] at hid

end GraphPaths
