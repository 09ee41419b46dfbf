import GraphPaths.Proofs.Document.Integrity

/-!
# Documents of joined examples

A document is put together from its examples one by one. The document of some examples followed by
others holds the paths and the components of the first and then those of the others, and of the tags
of the others those that are new (`Joins`); `assemble_compositional` says this of all options and
examples, and what follows from it: the order of the examples is that of paths and components and
changes none of them, and what stands under a key comes of its example and the options alone.

The tags are the only part in which one example can notice another. Going through the examples with
some tags declared already adds what going through them with none adds, less the names that are
there (`foldl_addTag`), and so the first example that uses a name declares it (`find?_foldl_addTag`).
-/

namespace GraphPaths

/-! ## Parts of a document's data -/

namespace Value

/-- The paths of a document with what stands under them, in order. -/
def pathItems (document : Value) : List (Value × Value) :=
  ((document.get? "paths").bind entries?).getD []

/-- The components of a document under their names, in order. -/
def componentItems (document : Value) : List (Value × Value) :=
  ((document.at? ["components", "schemas"]).bind entries?).getD []

/-- The tags that a document declares, in order. -/
def declaredTags (document : Value) : List Value :=
  ((document.get? "tags").bind items?).getD []

/-- The name of a declared tag. -/
def tagName? (tag : Value) : Option String :=
  (tag.get? "name").bind text?

end Value

/-- A document that holds the paths, components and tags of two others, one after the other; of tags
with one name only the first. -/
structure Joins (first second whole : Value) : Prop where
  paths : whole.pathItems = first.pathItems ++ second.pathItems
  components : whole.componentItems = first.componentItems ++ second.componentItems
  tags : whole.declaredTags = first.declaredTags ++
    second.declaredTags.filter fun tag => tag.tagName? ∉ first.declaredTags.map Value.tagName?

/-- The options give the examples this document. -/
def Assembles (o : Options) (ex : Examples) (document : Value) : Prop :=
  ∃ d, (assemble o ex).run.1 = .ok d ∧ d.toValue = document

/-! ## Tags -/

theorem addTag_some (tags : List RouteTag) (t : RouteTag) :
    addTag tags (some t) = if t.name ∈ tags.map RouteTag.name then tags else tags ++ [t] := by
  have hany : (tags.any fun x => x.name == t.name) = decide (t.name ∈ tags.map RouteTag.name) := by
    rw [Bool.eq_iff_iff]
    simp
  show (if tags.any fun x => x.name == t.name then tags else tags ++ [t]) = _
  rw [hany]
  simp only [decide_eq_true_eq]

/-- Adding a tag to further tags, of which only those with new names were kept. -/
theorem addTag_append (declared tags : List RouteTag) (tag : Option RouteTag) :
    addTag (declared ++ tags.filter fun t => t.name ∉ declared.map RouteTag.name) tag =
      declared ++ (addTag tags tag).filter fun t => t.name ∉ declared.map RouteTag.name := by
  cases tag with
  | none => rfl
  | some t =>
    have hnames : (tags.filter fun t => t.name ∉ declared.map RouteTag.name).map RouteTag.name =
        (tags.map RouteTag.name).filter (· ∉ declared.map RouteTag.name) := by
      rw [List.filter_map]
      rfl
    rw [addTag_some, addTag_some, List.map_append, hnames]
    by_cases hold : t.name ∈ declared.map RouteTag.name
    · rw [if_pos (List.mem_append_left _ hold)]
      split
      · rfl
      · have hdrop : [t].filter (fun t => t.name ∉ declared.map RouteTag.name) = [] :=
          List.filter_eq_nil_iff.mpr fun x hx => by simpa [List.mem_singleton.mp hx] using hold
        rw [List.filter_append, hdrop, List.append_nil]
    · have hmem : t.name ∈ declared.map RouteTag.name ++
          (tags.map RouteTag.name).filter (· ∉ declared.map RouteTag.name) ↔
            t.name ∈ tags.map RouteTag.name := by
        rw [List.mem_append, List.mem_filter, or_iff_right hold]
        exact and_iff_left (decide_eq_true hold)
      simp only [hmem]
      split
      · rfl
      · have hkeep : [t].filter (fun t => t.name ∉ declared.map RouteTag.name) = [t] :=
          List.filter_eq_self.mpr fun x hx => by simpa [List.mem_singleton.mp hx] using hold
        rw [List.filter_append, hkeep, List.append_assoc]

/-- Going through examples when some tags are declared adds what going through them adds when none
are, less the names that are there. -/
theorem foldl_addTag (o : Options) (declared : List RouteTag) :
    ∀ (ex : Examples) (tags : List RouteTag),
      ex.foldl (fun tags (field, _) => addTag tags (o.tag? field))
          (declared ++ tags.filter fun t => t.name ∉ declared.map RouteTag.name) =
        declared ++ (ex.foldl (fun tags (field, _) => addTag tags (o.tag? field)) tags).filter
          fun t => t.name ∉ declared.map RouteTag.name
  | [], _ => rfl
  | (field, e) :: ex, tags => by
    have ih := foldl_addTag o declared ex (addTag tags (o.tag? field))
    rw [← addTag_append] at ih
    exact ih

theorem find?_addTag (tags : List RouteTag) (tag : Option RouteTag) (name : String) :
    (addTag tags tag).find? (fun t => t.name == name) =
      (tags.find? fun t => t.name == name).or (tag.filter fun t => t.name == name) := by
  cases tag with
  | none => simp [addTag]
  | some t =>
    rw [addTag_some, Option.filter_some]
    by_cases hused : t.name ∈ tags.map RouteTag.name
    · rw [if_pos hused]
      split
      · next ht =>
        -- the name is declared, and so the new tag is not looked at
        obtain ⟨x, hx, hname⟩ := List.mem_map.mp hused
        have hsome : (tags.find? fun t => t.name == name).isSome :=
          List.find?_isSome.mpr ⟨x, hx, by rwa [hname]⟩
        obtain ⟨y, hy⟩ := Option.isSome_iff_exists.mp hsome
        rw [hy, Option.some_or]
      · rw [Option.or_none]
    · rw [if_neg hused, List.find?_append, List.find?_singleton]

/-- The tag that is declared under a name is that of the first example with a tag of the name. -/
theorem find?_foldl_addTag (o : Options) (name : String) : ∀ (ex : Examples) (tags : List RouteTag),
    (ex.foldl (fun tags (field, _) => addTag tags (o.tag? field)) tags).find?
        (fun t => t.name == name) =
      (tags.find? fun t => t.name == name).or
        (ex.findSome? fun entry => (o.tag? entry.1).filter fun t => t.name == name)
  | [], tags => by simp
  | (field, e) :: ex, tags => by
    rw [List.foldl_cons, find?_foldl_addTag o name ex, find?_addTag, List.findSome?_cons,
      Option.or_assoc]
    cases (o.tag? field).filter fun t => t.name == name <;> rfl

/-! ## A document's data -/

theorem pathItems_toValue (d : ApiDocument) : d.toValue.pathItems =
    d.operations.map fun op => (.text ("/" ++ op.id), .record [("post", op.toValue)]) := by
  rw [Value.pathItems, get?_paths, Option.bind_some, Value.entries?_record, Option.getD_some,
    List.map_map]
  rfl

theorem componentItems_toValue (d : ApiDocument) : d.toValue.componentItems =
    d.components.map fun c => (.text (componentName c.field), c.toValue) := by
  unfold Value.componentItems ApiDocument.toValue
  rw [Value.at?_record_cons]
  show List.map _ (List.map _ _) = _
  rw [List.map_map]
  rfl

theorem declaredTags_toValue (d : ApiDocument) :
    d.toValue.declaredTags = d.tags.map RouteTag.toValue := by
  rw [Value.declaredTags, get?_tags]
  cases htags : d.tags <;> rfl

theorem tagName?_toValue (t : RouteTag) : t.toValue.tagName? = some t.name := by
  rw [Value.tagName?, get?_name]
  rfl

theorem keys?_toValue (d : ApiDocument) : d.toValue.keys? =
    some (["openapi", "info", "servers", "paths", "components"].map Value.text ++
      if d.toValue.declaredTags.isEmpty then [] else [.text "tags"]) := by
  rw [declaredTags_toValue, List.isEmpty_map]
  unfold ApiDocument.toValue
  rw [Value.keys?_record]
  cases d.tags.isEmpty <;> rfl

/-! ## Documents of examples -/

section

variable {o : Options} {a b ex ex' : Examples} {document document' : Value}

theorem assembles_iff : Assembles o ex document ↔
    ∃ parts, apiParts o ex = .ok parts ∧ (documentOf o ex parts).toValue = document := by
  unfold Assembles
  rw [(assemble_yields o ex).run_fst]
  constructor
  · rintro ⟨d, hd, rfl⟩
    obtain ⟨parts, hparts, hd⟩ := bind_eq_ok.mp hd
    exact ⟨parts, hparts, congrArg _ (Except.ok.inj hd)⟩
  · rintro ⟨parts, hparts, rfl⟩
    exact ⟨_, bind_eq_ok.mpr ⟨parts, hparts, rfl⟩, rfl⟩

/-- Examples become parts just if all have a place in documents. -/
theorem exists_apiParts_iff :
    (∃ parts, apiParts o ex = .ok parts) ↔ ∀ entry ∈ ex, entry.2.Fits := by
  constructor
  · rintro ⟨parts, hparts⟩ entry hentry
    obtain ⟨part, -, hpart⟩ := exists_right_of_forall₂ (forall₂_of_mapM hparts) hentry
    exact exists_apiPart_iff.mp ⟨part, hpart⟩
  · exact exists_apiParts o

theorem apiParts_append {parts : List ApiPart} : apiParts o (a ++ b) = .ok parts ↔
    ∃ first second, apiParts o a = .ok first ∧ apiParts o b = .ok second ∧
      first ++ second = parts := by
  unfold apiParts
  rw [List.mapM_append, bind_eq_ok]
  refine exists_congr fun first => ?_
  constructor
  · rintro ⟨ha, h⟩
    obtain ⟨second, hb, h⟩ := bind_eq_ok.mp h
    exact ⟨second, ha, hb, Except.ok.inj h⟩
  · rintro ⟨second, ha, hb, rfl⟩
    exact ⟨ha, bind_eq_ok.mpr ⟨second, hb, rfl⟩⟩

theorem apiParts_append_eq_error {e : AssembleError} : apiParts o (a ++ b) = .error e ↔
    apiParts o a = .error e ∨ (∃ parts, apiParts o a = .ok parts) ∧ apiParts o b = .error e := by
  unfold apiParts
  rw [List.mapM_append, bind_eq_error]
  refine or_congr_right ⟨?_, ?_⟩
  · rintro ⟨first, ha, h⟩
    exact ⟨⟨first, ha⟩, (bind_eq_error.mp h).resolve_right nofun⟩
  · rintro ⟨⟨first, ha⟩, hb⟩
    exact ⟨first, ha, bind_eq_error.mpr (.inl hb)⟩

/-- Examples have no document for the reason that they do not become parts. -/
theorem assemble_eq_error {e : AssembleError} :
    (assemble o ex).run.1 = .error e ↔ apiParts o ex = .error e := by
  rw [(assemble_yields o ex).run_fst, bind_eq_error]
  exact or_iff_left nofun

/-- Examples have a document just if all have a place in it. -/
theorem exists_assembles_iff :
    (∃ document, Assembles o ex document) ↔ ∀ entry ∈ ex, entry.2.Fits := by
  rw [← exists_apiParts_iff (o := o)]
  constructor
  · rintro ⟨document, h⟩
    obtain ⟨parts, hparts, -⟩ := assembles_iff.mp h
    exact ⟨parts, hparts⟩
  · rintro ⟨parts, hparts⟩
    exact ⟨_, assembles_iff.mpr ⟨parts, hparts, rfl⟩⟩

/-- Permuted examples become permuted parts. -/
theorem apiParts_perm {parts : List ApiPart} (hperm : ex.Perm ex') (h : apiParts o ex = .ok parts) :
    ∃ parts', apiParts o ex' = .ok parts' ∧ parts.Perm parts' := by
  obtain ⟨parts', hall, hparts⟩ := List.perm_comp_forall₂ hperm.symm (forall₂_of_mapM h)
  exact ⟨parts', mapM_of_forall₂ hall, hparts.symm⟩

/-- The path and the component of an example come of the example and of the tag of its key. -/
theorem places_of_lookup {parts : List ApiPart} {key : String} {e : Example}
    (h : apiParts o ex = .ok parts) (he : ex.lookup key = some e) :
    ∃ part, e.apiPart key (o.tag? key) = .ok part ∧
      (documentOf o ex parts).toValue.at? ["paths", "/" ++ key] =
        some (.record [("post", part.operation.toValue)]) ∧
      (documentOf o ex parts).toValue.at? (componentPlace key) = some part.component.toValue := by
  obtain ⟨part, hpart, hlookup⟩ := exists_apiPart_of_lookup h he
  refine ⟨part, hpart, ?_, ?_⟩
  · rw [paths_at?, hlookup]
    rfl
  · rw [componentPlace, components_at? h, hlookup]
    rfl

/-- The document of joined examples joins their documents. -/
theorem joins_append {first second whole : Value} (ha : Assembles o a first)
    (hb : Assembles o b second) (h : Assembles o (a ++ b) whole) : Joins first second whole := by
  obtain ⟨partsA, hpartsA, rfl⟩ := assembles_iff.mp ha
  obtain ⟨partsB, hpartsB, rfl⟩ := assembles_iff.mp hb
  obtain ⟨parts, hparts, rfl⟩ := assembles_iff.mp h
  obtain ⟨partsA', partsB', hpartsA', hpartsB', rfl⟩ := apiParts_append.mp hparts
  obtain rfl := Except.ok.inj (hpartsA.symm.trans hpartsA')
  obtain rfl := Except.ok.inj (hpartsB.symm.trans hpartsB')
  refine ⟨?_, ?_, ?_⟩
  · rw [pathItems_toValue, pathItems_toValue, pathItems_toValue]
    simp only [documentOf, List.map_append]
  · rw [componentItems_toValue, componentItems_toValue, componentItems_toValue]
    simp only [documentOf, List.map_append]
  · have htags := foldl_addTag o (documentOf o a partsA).tags b []
    have hnames : (documentOf o a partsA).toValue.declaredTags.map Value.tagName? =
        (documentOf o a partsA).tags.map fun t => some t.name := by
      rw [declaredTags_toValue, List.map_map]
      exact List.map_congr_left fun t _ => tagName?_toValue t
    rw [List.filter_nil, List.append_nil] at htags
    rw [hnames, declaredTags_toValue, declaredTags_toValue, declaredTags_toValue]
    show List.map _ ((a ++ b).foldl _ []) = _
    rw [List.foldl_append]
    show List.map _ (b.foldl _ (documentOf o a partsA).tags) = _
    rw [htags, List.map_append, List.filter_map]
    refine congrArg _ (congrArg _ (List.filter_congr fun t _ => ?_))
    simp [tagName?_toValue]

end

/-- Documents are put together example by example. -/
structure Compositional (o : Options) : Prop where
  /-- There is a document just if every request has its text and all data can be gone through. -/
  exists_iff : ∀ ex, (∃ document, Assembles o ex document) ↔ ∀ entry ∈ ex, entry.2.Fits
  /-- Joined examples have a document if both parts have one. -/
  defined : ∀ a b, (∃ document, Assembles o (a ++ b) document) ↔
    (∃ document, Assembles o a document) ∧ ∃ document, Assembles o b document
  /-- Otherwise the error is that of the first part, or else of the second. -/
  errors : ∀ a b e, (assemble o (a ++ b)).run.1 = .error e ↔ (assemble o a).run.1 = .error e ∨
    (∃ document, Assembles o a document) ∧ (assemble o b).run.1 = .error e
  joins : ∀ {a b first second whole}, Assembles o a first → Assembles o b second →
    Assembles o (a ++ b) whole → Joins first second whole
  /-- What stands in front of the paths does not depend on the examples. -/
  front : ∀ {ex ex' document document'}, Assembles o ex document → Assembles o ex' document' →
    ∀ name ∈ ["openapi", "info", "servers"], document.get? name = document'.get? name
  /-- There is nothing else in a document; a list of tags only where one is declared. -/
  keys : ∀ {ex document}, Assembles o ex document → document.keys? =
    some (["openapi", "info", "servers", "paths", "components"].map Value.text ++
      if document.declaredTags.isEmpty then [] else [.text "tags"])
  /-- The tag declared under a name is that of the first field in order that has one of this name,
  also if a later one has a description and the first has none. -/
  firstUse : ∀ {ex document}, Assembles o ex document → ∀ name,
    (document.declaredTags.find? fun tag => tag.tagName? == some name) =
      (ex.findSome? fun entry => (o.tag? entry.1).filter fun t => t.name == name).map
        RouteTag.toValue
  /-- Permuted examples have a document with permuted paths and components. -/
  permuted : ∀ {ex ex' document}, ex.Perm ex' → Assembles o ex document →
    ∃ document', Assembles o ex' document' ∧ document.pathItems.Perm document'.pathItems ∧
      document.componentItems.Perm document'.componentItems
  /-- What stands under a key comes of its example. -/
  places : ∀ {ex ex' document document' key e}, Assembles o ex document →
    Assembles o ex' document' → ex.lookup key = some e → ex'.lookup key = some e →
      (document.at? ["paths", "/" ++ key]).isSome ∧
      document.at? ["paths", "/" ++ key] = document'.at? ["paths", "/" ++ key] ∧
      (document.at? (componentPlace key)).isSome ∧
      document.at? (componentPlace key) = document'.at? (componentPlace key)

theorem front_eq (d d' : ApiDocument) (h : d.openapi = d'.openapi) (hi : d.info = d'.info)
    (hs : d.serverUrl = d'.serverUrl) : ∀ name ∈ ["openapi", "info", "servers"],
      d.toValue.get? name = d'.toValue.get? name := by
  unfold ApiDocument.toValue
  simp [Value.get?_record, List.lookup, h, hi, hs]

/-- Documents are put together example by example, whatever the options are. -/
theorem assemble_compositional (o : Options) : Compositional o where
  exists_iff ex := exists_assembles_iff
  defined a b := by
    simp only [exists_assembles_iff]
    exact List.forall_mem_append
  errors a b e := by
    rw [assemble_eq_error, assemble_eq_error, assemble_eq_error, apiParts_append_eq_error,
      exists_assembles_iff, ← exists_apiParts_iff (o := o)]
  joins := joins_append
  front h h' := by
    obtain ⟨parts, -, rfl⟩ := assembles_iff.mp h
    obtain ⟨parts', -, rfl⟩ := assembles_iff.mp h'
    exact front_eq _ _ rfl rfl rfl
  keys h := by
    obtain ⟨parts, -, rfl⟩ := assembles_iff.mp h
    exact keys?_toValue _
  firstUse h name := by
    obtain ⟨parts, -, rfl⟩ := assembles_iff.mp h
    have hname : ((fun tag => tag.tagName? == some name) ∘ RouteTag.toValue) =
        fun t => t.name == name := by
      funext t
      simp [tagName?_toValue]
    rw [declaredTags_toValue, List.find?_map, hname]
    exact congrArg _ (find?_foldl_addTag o name _ [])
  permuted hperm h := by
    obtain ⟨parts, hparts, rfl⟩ := assembles_iff.mp h
    obtain ⟨parts', hparts', hpermuted⟩ := apiParts_perm hperm hparts
    refine ⟨_, assembles_iff.mpr ⟨parts', hparts', rfl⟩, ?_, ?_⟩
    · rw [pathItems_toValue, pathItems_toValue]
      exact (hpermuted.map _).map _
    · rw [componentItems_toValue, componentItems_toValue]
      exact (hpermuted.map _).map _
  places h h' he he' := by
    obtain ⟨parts, hparts, rfl⟩ := assembles_iff.mp h
    obtain ⟨parts', hparts', rfl⟩ := assembles_iff.mp h'
    obtain ⟨part, hpart, hpath, hcomponent⟩ := places_of_lookup hparts he
    obtain ⟨part', hpart', hpath', hcomponent'⟩ := places_of_lookup hparts' he'
    obtain rfl := Except.ok.inj (hpart.symm.trans hpart')
    rw [hpath, hpath', hcomponent, hcomponent']
    exact ⟨rfl, rfl, rfl, rfl⟩

-- The first of two fields with one tag has no description for it, and the second has one.
example : ∃ d, (assemble sharedTag namesakes).run.1 = .ok d ∧ d.tags = [⟨"t", none⟩] :=
  ⟨_, rfl, rfl⟩

end GraphPaths
