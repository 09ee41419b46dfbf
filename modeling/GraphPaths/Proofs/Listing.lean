import GraphPaths.Proofs.Console
import GraphPaths.Proofs.Document.Joining
import GraphPaths.Proofs.Document.Reach
import GraphPaths.Proofs.Document.Serialized
import GraphPaths.Proofs.Export.Stages

/-!
# Listings and exports

A listing shows the operations that an export of the same schema and selection has
(`listing_previews_export`). The listing sorts the examples by kind and the export goes through all
of them, and both come of the same list of fields (`Schema.exposed`), of which each kind has its own
part (`Schema.listed`).
-/

namespace GraphPaths

/-- Where a document has the text of the request to a field. -/
def queryPlace (name : String) : List String :=
  requestPlace name ++ ["query", "example"]

/-- The names of the paths of a document, in order. -/
def Value.pathNames (document : Value) : List Value :=
  document.pathItems.map Prod.fst

/-- The name of a path. -/
def pathName (field : String) : Value :=
  .text ("/" ++ field)

/-- The lines about operations of a kind: their number, and each with the text of its request. -/
def listedLines (kind : OperationKind) (operations : List (String × String)) : List Shown :=
  .line ("[dim]" ++ kind.keyword ++ ":[/dim] " ++ toString operations.length) ::
    operations.map fun (name, text) =>
      .line ("- " ++ escapeMarkup ("/" ++ name ++ ": " ++ text))

/-- The texts of these lines. -/
def plainLines (kind : OperationKind) (operations : List (String × String)) : List String :=
  (kind.keyword ++ ": " ++ toString operations.length) ::
    operations.map fun (name, text) => "- /" ++ name ++ ": " ++ text

/-- Operations by their kinds, each with a name and the text of its request, are those of a document. -/
structure Previews (s : Schema) (requested : List OperationKind) (document : Value)
    (listed : OperationKind → List (String × String)) : Prop where
  names : ((listed .query ++ listed .mutation).map fun op => pathName op.1).Perm document.pathNames
  nodup : ((listed .query ++ listed .mutation).map Prod.fst).Nodup
  count : (listed .query).length + (listed .mutation).length = document.pathNames.length
  order : ∀ kind, ((listed kind).map fun op => pathName op.1).Sublist document.pathNames
  request : ∀ kind, ∀ op ∈ listed kind, document.at? (queryPlace op.1) = some (.text op.2)
  /-- The text of a request starts with the keyword of its kind and with no other. -/
  keyword : ∀ kind, ∀ op ∈ listed kind, ∀ k : OperationKind,
    (k.keyword ++ " ").toList <+: op.2.toList ↔ k = kind
  mutation : ∀ name, name ∈ (listed .mutation).map Prod.fst ↔
    .mutation ∈ requested ∧ name ∈ (s.rootFields .mutation).map SchemaField.name
  /-- A field of both roots is no query, unless mutations are not asked for. -/
  query : ∀ name, name ∈ (listed .query).map Prod.fst ↔
    (.query ∈ requested ∧ name ∈ (s.rootFields .query).map SchemaField.name) ∧
      ¬(.mutation ∈ requested ∧ name ∈ (s.rootFields .mutation).map SchemaField.name)

namespace Schema

/-- The operations of a kind, each with the text of its request. -/
def listed (s : Schema) (requested : List OperationKind) (kind : OperationKind) :
    List (String × String) :=
  ((s.exposed requested).filter fun x => x.kind == kind).map fun x =>
    (x.name, operationText x.kind x.name x.field.arguments)

variable {s : Schema} {requested : List OperationKind}

/-! ## Fields of a kind -/

theorem mem_listed {kind : OperationKind} {op : String × String} (h : op ∈ s.listed requested kind) :
    ∃ x ∈ s.exposed requested, x.kind = kind ∧
      op = (x.name, operationText x.kind x.name x.field.arguments) := by
  obtain ⟨x, hx, rfl⟩ := List.mem_map.mp h
  obtain ⟨hx, hkind⟩ := List.mem_filter.mp hx
  exact ⟨x, hx, by simpa using hkind, rfl⟩

theorem names_listed (s : Schema) (requested : List OperationKind) (kind : OperationKind) :
    (s.listed requested kind).map Prod.fst =
      ((s.exposed requested).filter fun x => x.kind == kind).map RootField.name := by
  unfold listed
  rw [List.map_map]
  rfl

/-- The fields of both kinds are all that have paths. -/
theorem perm_listed (s : Schema) (requested : List OperationKind) :
    ((s.listed requested .query ++ s.listed requested .mutation).map Prod.fst).Perm
      ((s.exposed requested).map RootField.name) := by
  have hother : ∀ x : RootField, (x.kind == .mutation) = !(x.kind == .query) := by
    intro x
    cases x.kind <;> rfl
  rw [List.map_append, names_listed, names_listed, ← List.map_append]
  simp only [hother]
  exact (List.filter_append_perm _ _).map _

/-- A field is found under its name among fields with different names. -/
theorem find?_name_of_mem {x : RootField} : ∀ {xs : List RootField},
    (xs.map RootField.name).Nodup → x ∈ xs → xs.find? (fun y => y.name == x.name) = some x
  | y :: xs, hnodup, h => by
    obtain ⟨hy, hxs⟩ := List.nodup_cons.mp hnodup
    rcases List.mem_cons.mp h with rfl | h
    · rw [List.find?_cons_of_pos (by simp)]
    · have hne : y.name ≠ x.name := fun heq => hy (heq ▸ List.mem_map_of_mem h)
      rw [List.find?_cons_of_neg (by simpa using hne), find?_name_of_mem hxs h]

theorem mem_names_requestedFields {kind : OperationKind} {name : String} :
    name ∈ (s.requestedFields requested kind).map RootField.name ↔
      kind ∈ requested ∧ name ∈ (s.rootFields kind).map SchemaField.name := by
  unfold requestedFields
  by_cases hk : kind ∈ requested
  · rw [if_pos hk, List.map_map, and_iff_right hk]
    rfl
  · simp [hk]

theorem isSome_requestedMutation_iff {name : String} :
    (s.requestedMutation? requested name).isSome ↔
      name ∈ (s.requestedFields requested .mutation).map RootField.name := by
  unfold requestedMutation?
  simp [List.find?_isSome]

/-- A name among fields that have paths is that of a mutation, or of a query and no mutation. -/
theorem mem_names_listed (hs : s.Coherent) (kind : OperationKind) (name : String) :
    name ∈ (s.listed requested kind).map Prod.fst ↔
      name ∈ (s.requestedFields requested kind).map RootField.name ∧
        (kind = .query → name ∉ (s.requestedFields requested .mutation).map RootField.name) := by
  rw [names_listed]
  constructor
  · intro h
    obtain ⟨x, hmem, rfl⟩ := List.mem_map.mp h
    obtain ⟨hx, hkind⟩ := List.mem_filter.mp hmem
    obtain rfl : x.kind = kind := by simpa using hkind
    refine ⟨List.mem_map_of_mem (mem_exposed hx), fun hquery hmutation => ?_⟩
    have hfind := find?_name_of_mem (nodup_names_exposed hs requested) hx
    obtain ⟨m, hm⟩ := Option.isSome_iff_exists.mp (isSome_requestedMutation_iff.mpr hmutation)
    rw [find?_exposed, hm, Option.some_or] at hfind
    obtain rfl := Option.some.inj hfind
    exact nomatch (kind_of_requestedFields (List.mem_of_find?_eq_some hm)).symm.trans hquery
  · rintro ⟨h, hmutation⟩
    obtain ⟨x, hx, rfl⟩ := List.mem_map.mp h
    have hkind := kind_of_requestedFields hx
    have hfind : (s.exposed requested).find? (fun y => y.name == x.name) = some x := by
      rw [find?_exposed]
      have hown := find?_name_of_mem (nodup_requestedFields hs requested kind) hx
      cases kind with
      | mutation =>
        unfold requestedMutation?
        rw [hown, Option.some_or]
      | query =>
        have hnone : s.requestedMutation? requested x.name = none := by
          rw [← Option.not_isSome_iff_eq_none, isSome_requestedMutation_iff]
          exact hmutation rfl
        rw [hnone, Option.none_or, hown]
    exact List.mem_map_of_mem (List.mem_filter.mpr
      ⟨List.mem_of_find?_eq_some hfind, by simpa using hkind⟩)

/-! ## Operations of a document -/

theorem pathNames_exposedDocument (s : Schema) (o : Options) (requested : List OperationKind) :
    (s.exposedDocument o requested).toValue.pathNames =
      ((s.exposed requested).map RootField.name).map pathName := by
  rw [Value.pathNames, pathItems_toValue, operations_exposedDocument, List.map_map, List.map_map,
    List.map_map]
  rfl

theorem query_at? (hs : s.Coherent) (o : Options) {x : RootField} (hx : x ∈ s.exposed requested) :
    (s.exposedDocument o requested).toValue.at? (queryPlace x.name) =
      some (.text (operationText x.kind x.name x.field.arguments)) := by
  rw [queryPlace, request_at? hs hx]
  simp [ApiOperation.requestSchema, operationOf]

/-- The text of a request tells its kind. -/
theorem keyword_operationText (kind k : OperationKind) (name : String) (args : List SchemaInput) :
    (k.keyword ++ " ").toList <+: (operationText kind name args).toList ↔ k = kind := by
  have htext : ∃ rest, (operationText kind name args).toList =
      (kind.keyword ++ " ").toList ++ rest := by
    unfold operationText
    simp only [String.toList_append, List.append_assoc]
    exact ⟨_, rfl⟩
  obtain ⟨rest, htext⟩ := htext
  rw [htext]
  constructor
  · rintro ⟨rest', h⟩
    cases k <;> cases kind <;> simp [OperationKind.keyword] at h ⊢
  · rintro rfl
    exact List.prefix_append _ _

/-- The operations by their kinds are those of the document. -/
theorem previews_exposedDocument (hs : s.Coherent) (o : Options) :
    Previews s requested (s.exposedDocument o requested).toValue (s.listed requested) where
  names := by
    have hnames := (perm_listed s requested).map pathName
    rw [List.map_map] at hnames
    rw [pathNames_exposedDocument]
    exact hnames
  nodup := (perm_listed s requested).nodup_iff.mpr (nodup_names_exposed hs requested)
  count := by
    have hlength := (perm_listed s requested).length_eq
    rw [List.length_map, List.length_append] at hlength
    rw [pathNames_exposedDocument, List.length_map, hlength]
  order kind := by
    have hsub : ((s.listed requested kind).map Prod.fst).Sublist
        ((s.exposed requested).map RootField.name) := by
      rw [names_listed]
      exact List.filter_sublist.map _
    have hnames := hsub.map pathName
    rw [List.map_map] at hnames
    rw [pathNames_exposedDocument]
    exact hnames
  request kind op hop := by
    obtain ⟨x, hx, -, rfl⟩ := mem_listed hop
    exact query_at? hs o hx
  keyword kind op hop k := by
    obtain ⟨x, -, rfl, rfl⟩ := mem_listed hop
    exact keyword_operationText x.kind k x.name x.field.arguments
  mutation name := by
    rw [mem_names_listed hs, mem_names_requestedFields]
    exact and_iff_left nofun
  query name := by
    rw [mem_names_listed hs, mem_names_requestedFields, mem_names_requestedFields]
    exact and_congr_right fun _ => forall_prop_of_true rfl

/-- The lines about a kind are those about its operations. -/
theorem listKind_exposed (s : Schema) (requested : List OperationKind)
    (values : List (String × Value)) (withName : Bool) (kind : OperationKind) :
    listKind ((s.exposed requested).map (s.entryOf values withName)) kind =
      listedLines kind (s.listed requested kind) := by
  have hfilter : ((s.exposed requested).map (s.entryOf values withName)).filter
      (fun entry => entry.2.kind == kind) =
        ((s.exposed requested).filter fun x => x.kind == kind).map (s.entryOf values withName) := by
    rw [List.filter_map]
    rfl
  unfold listKind listedLines listed
  rw [hfilter]
  simp only [List.length_map, List.map_map]
  have hcount : ∀ n, Shown.keyValue kind.keyword (Text.decimal n) "dim" =
      .line ("[dim]" ++ kind.keyword ++ ":[/dim] " ++ toString n) := fun n => by
    cases kind <;> rfl
  rw [hcount]
  refine congrArg (List.cons _) (List.map_congr_left fun x _ => ?_)
  show Shown.item (escapeMarkup ("/" ++ x.name ++ ": " ++
    (((s.exampleOf values withName x).request.get? "query").map Value.shown).getD "")) "-" = _
  rw [query_exampleOf]
  rfl

/-! ## The texts of lines -/

theorem isPlain_toString (n : Nat) : (toString n).toList.all isPlain := by
  have hdigits : (toString n).toList = Nat.toDigits 10 n := String.toList_ofList
  rw [hdigits, List.all_eq_true]
  intro c hc
  have hdigit := Nat.isDigit_of_mem_toDigits (by decide) (by decide) hc
  rw [isPlain, Bool.and_eq_true, bne_iff_ne, bne_iff_ne]
  constructor <;> (rintro rfl; contradiction)

theorem getLast?_operationText (kind : OperationKind) (name : String) (args : List SchemaInput) :
    (operationText kind name args).toList.getLast? = some '\x7d' := by
  unfold operationText
  rw [String.toList_append, List.getLast?_append]
  rfl

/-- The lines about a kind have their texts. -/
theorem unstyled_listedLines (s : Schema) (requested : List OperationKind) (kind : OperationKind) :
    (listedLines kind (s.listed requested kind)).map Shown.unstyled =
      plainLines kind (s.listed requested kind) := by
  have hkeyword : kind.keyword.toList.all isPlain := by cases kind <;> decide
  unfold listedLines plainLines
  rw [List.map_cons, unstyled_named hkeyword (isPlain_toString _), List.map_map]
  refine congrArg (List.cons _) (List.map_congr_left fun op hop => ?_)
  obtain ⟨x, -, -, rfl⟩ := mem_listed hop
  have hlast := getLast?_operationText x.kind x.name x.field.arguments
  generalize operationText x.kind x.name x.field.arguments = text at hlast
  have hitem : ("/" ++ x.name ++ ": " ++ text).toList.getLast? ≠ some '\\' := by
    rw [String.toList_append, List.getLast?_append, hlast, Option.some_or]
    decide
  show (Shown.line ("- " ++ escapeMarkup ("/" ++ x.name ++ ": " ++ text))).unstyled =
    "- /" ++ x.name ++ ": " ++ text
  rw [unstyled_item hitem]
  simp only [← String.append_assoc]
  rfl

end Schema

/-! ## The output of a listing -/

theorem titled_titleStyle (title : String) :
    Shown.titled title titleStyle = .rule ("[bold blue]" ++ title) :=
  rfl

theorem titled_operations : Shown.titled "GraphQL Schema Operations" titleStyle =
    .rule "[bold blue]GraphQL Schema Operations" := by
  decide +kernel

theorem titled_counts : Shown.titled "GraphQL Schema Type Counts" titleStyle =
    .rule "[bold blue]GraphQL Schema Type Counts" := by
  decide +kernel

/-- The output about the operations of a schema. -/
def listingOf (s : Schema) (requested : List OperationKind) (counts : Shown) : List Shown :=
  [.rule "[bold blue]GraphQL Schema Operations"] ++
    listedLines .query (s.listed requested .query) ++
    listedLines .mutation (s.listed requested .mutation) ++
    [.rule "[bold blue]GraphQL Schema Type Counts", counts]

/-- The texts of the output. -/
theorem unstyled_listingOf (s : Schema) (requested : List OperationKind) (counts : Shown) :
    (listingOf s requested counts).map Shown.unstyled = ["GraphQL Schema Operations"] ++
      plainLines .query (s.listed requested .query) ++
      plainLines .mutation (s.listed requested .mutation) ++
      ["GraphQL Schema Type Counts", counts.unstyled] := by
  have hplain : "GraphQL Schema Operations".toList.all isPlain ∧
      "GraphQL Schema Type Counts".toList.all isPlain := by decide +kernel
  unfold listingOf
  rw [← titled_operations, ← titled_counts, List.map_append, List.map_append, List.map_append,
    Schema.unstyled_listedLines, Schema.unstyled_listedLines, List.map_singleton, List.map_cons,
    List.map_singleton, titled_titleStyle, titled_titleStyle, unstyled_title hplain.1,
    unstyled_title hplain.2]

/-- The counts of types can be shown unless there are too many types for a number in JSON. -/
theorem exists_counts (s : Schema) (h : s.types.length < 10 ^ digitLimit) :
    ∃ counts, Shown.data s.counts.toValue = .ok counts := by
  have hform : ∀ n ≤ s.types.length, Json.hasForm (.int (n : Int)) := by
    intro n hn
    refine decide_eq_true ((Nat.length_toDigits_le_iff (by decide) (by decide)).mpr ?_)
    exact lt_of_le_of_lt hn h
  have hsorted : ∀ p q : NamedType → Bool,
      ((s.ownTypes.filter p).filter q).length ≤ s.types.length := fun p q =>
    (List.length_filter_le _ _).trans ((List.length_filter_le _ _).trans (List.length_filter_le _ _))
  have hwritable : s.counts.toValue.isWritable := by
    refine (permits_writable.record (by simp)).mpr ?_
    simp only [List.forall_mem_cons]
    exact ⟨hform _ (hsorted _ _), hform _ (List.countP_le_length.trans (hsorted _ _)),
      hform _ (List.countP_le_length.trans (hsorted _ _)), List.forall_mem_nil _⟩
  obtain ⟨text, htext⟩ := (Json.exists_text_iff _).mpr hwritable
  exact ⟨.json text, by unfold Shown.data; rw [htext]; rfl⟩

theorem listOperations_yields (t : FileTree) (schemas : List FilePath) (operations : List String) :
    (listOperations t schemas operations).Yields (do
      let s ← ((loadSchema t schemas).run.1).mapError CommandError.schemaFiles
      let examples ← (s.examples .empty false (kindsOf operations)).mapError CommandError.examples
      let counts ← (Shown.data s.counts.toValue).mapError fun e => .transform (.serialize (.json e))
      pure ([.titled "GraphQL Schema Operations" titleStyle]
        ++ OperationKind.all.flatMap (listKind examples)
        ++ [.titled "GraphQL Schema Type Counts" titleStyle, counts])) := by
  refine ((loadSchema_yields t schemas).self.mapError _).bind fun s _ =>
    ((buildExamples_yields s.roots .empty false _).self.mapError _).bind fun ex _ =>
      (Job.yields_ofExcept _).bind fun counts _ => Job.yields_pure _

/-- A listing of a schema whose examples can be had shows the operations of its fields. -/
theorem listOperations_yields_of_roots {t : FileTree} {schemas : List FilePath}
    {operations : List String} {s : Schema} (hs : s.Coherent) (hload : (loadSchema t schemas).run.1 = .ok s)
    {requested : List OperationKind} (hk : requestedKinds (kindsOf operations) = .ok requested)
    (hroots : ∀ kind ∈ requested, s.hasRootFields kind) {counts : Shown}
    (hcounts : Shown.data s.counts.toValue = .ok counts) :
    (listOperations t schemas operations).Yields (.ok (listingOf s requested counts)) := by
  have hex : s.examples .empty false (kindsOf operations) =
      .ok ((s.exposed requested).map (s.entryOf [] false)) :=
    (Schema.examples_eq_ok_iff hs).mpr ⟨requested, hk, hroots, rfl⟩
  have hyields := listOperations_yields t schemas operations
  rw [hload] at hyields
  have hlisting : listingOf s requested counts = [.titled "GraphQL Schema Operations" titleStyle]
      ++ OperationKind.all.flatMap (listKind ((s.exposed requested).map (s.entryOf [] false)))
      ++ [.titled "GraphQL Schema Type Counts" titleStyle, counts] := by
    unfold OperationKind.all listingOf
    rw [titled_operations, titled_counts, List.flatMap_cons, List.flatMap_cons, List.flatMap_nil,
      Schema.listKind_exposed, Schema.listKind_exposed, List.append_nil, ← List.append_assoc]
  have hresult : (do
      let s ← ((Except.ok s : Except SchemaFileError Schema)).mapError CommandError.schemaFiles
      let examples ← (s.examples .empty false (kindsOf operations)).mapError CommandError.examples
      let counts ← (Shown.data s.counts.toValue).mapError fun e =>
        CommandError.transform (.serialize (.json e))
      pure ([Shown.titled "GraphQL Schema Operations" titleStyle]
        ++ OperationKind.all.flatMap (listKind examples)
        ++ [.titled "GraphQL Schema Type Counts" titleStyle, counts])) =
      Except.ok (listingOf s requested counts) := by
    simp only [bind_eq_ok, mapError_eq_ok]
    exact ⟨s, rfl, _, hex, counts, hcounts, congrArg Except.ok hlisting.symm⟩
  rwa [hresult] at hyields

namespace CommandLine

/-- Work that comes to its end ends the program well. -/
theorem outcomeOf_of_yields {t t' : FileTree} (l : Logging) (ending : CommandError → Ending)
    {job : Job CommandError (FileTree × List Shown)} {shown : List Shown}
    (h : job.Yields (.ok (t', shown))) : (outcomeOf t l ending job).ending = .exit 0 ∧
      (outcomeOf t l ending job).files = t' ∧ (outcomeOf t l ending job).shown = shown := by
  obtain ⟨added, hjob⟩ := h
  unfold outcomeOf Job.run
  rw [hjob]
  exact ⟨rfl, rfl, rfl⟩

/-- A listing previews an export.

Of every schema that has been exported, with whatever options, a listing with the same selection
shows what stands in the document: under each kind the operations of the kind, in the order of the
paths, with their number and the texts of their requests, and together all paths, each once. A field
of both roots is listed as a mutation, unless only queries are asked for. The lines have marks for
their style, and without these and the escapes they are the plain texts. The listing comes to its
end if the numbers of types can be shown, which they can unless they have more digits than a number
may have. -/
theorem listing_previews_export (t : FileTree) (l : Logging) (s s' : Settings) (d : ApiDocument)
    (hd : ((exportOf t s).document t).run.1 = .ok d)
    (hschemas : s'.all "schemas" = s.all "schemas")
    (hoperations : s'.all "operations" = s.all "operations") :
    ∃ schema requested listed, (loadSchema t (schemasOf t s)).run.1 = .ok schema ∧
      requestedKinds (kindsOf (s.all "operations")) = .ok requested ∧
      Previews schema requested d.toValue listed ∧
      (schema.types.length < 10 ^ digitLimit →
        ∃ counts, Shown.data schema.counts.toValue = .ok counts) ∧
      ∀ counts, Shown.data schema.counts.toValue = .ok counts →
        (runListing t l s').ending = .exit 0 ∧ (runListing t l s').files = t ∧
        (runListing t l s').shown = [.rule "[bold blue]GraphQL Schema Operations"]
          ++ listedLines .query (listed .query) ++ listedLines .mutation (listed .mutation)
          ++ [.rule "[bold blue]GraphQL Schema Type Counts", counts] ∧
        (runListing t l s').shown.map Shown.unstyled = ["GraphQL Schema Operations"]
          ++ plainLines .query (listed .query) ++ plainLines .mutation (listed .mutation)
          ++ ["GraphQL Schema Type Counts", counts.unstyled] := by
  obtain ⟨schema, o, hload, -, ho, hd⟩ := Export.document_eq_ok_iff.mp hd
  have hs := coherent_of_loadSchema hload
  obtain ⟨named, hnamed⟩ := Export.exampleValues_readOptions t (exportOf t s)
    (Prod.ext ho rfl : (exportOf t s).readOptions t [] = (.ok o, _))
  obtain ⟨requested, hk, hroots, rfl⟩ := (Schema.transformWith_eq_ok_iff hs hnamed).mp hd
  refine ⟨schema, requested, schema.listed requested, hload, hk,
    Schema.previews_exposedDocument hs o, exists_counts schema, fun counts hcounts => ?_⟩
  have hlist : schemasOf t s' = schemasOf t s := by
    unfold schemasOf
    rw [hschemas]
  have hlisting := listOperations_yields_of_roots hs hload hk hroots hcounts
  unfold runListing
  rw [hlist, hoperations]
  obtain ⟨hending, hfiles, hshown⟩ := outcomeOf_of_yields l .failed
    (hlisting.bind (y := fun shown => .ok (t, shown)) fun shown _ => Job.yields_pure (t, shown))
  exact ⟨hending, hfiles, hshown, hshown ▸ unstyled_listingOf schema requested counts⟩

/-- A file with a schema whose roots share a field; a request has brackets like those of a mark. -/
def sharedField : FileTree :=
  ⟨[(["s.graphql"], FileTree.bytesOf ("scalar int type Query \x7b a(x: [int]): Int b: Int \x7d " ++
    "type Mutation \x7b b: Int c: Int \x7d"))], [], [], []⟩

/-- Settings for an export of the schema. -/
def sharedFieldExport : Settings := [("schemas", ["s.graphql"]), ("output", ["o.json"])]

/-- Settings for a listing of the schema. -/
def sharedFieldListing : Settings := [("schemas", ["s.graphql"])]

/-- The listing of a schema whose roots share a field previews its export. -/
theorem sharedField_previewed : sharedFieldListing.all "schemas" = sharedFieldExport.all "schemas" ∧
    sharedFieldListing.all "operations" = sharedFieldExport.all "operations" ∧
    ∃ d schema requested listed counts,
      ((exportOf sharedField sharedFieldExport).document sharedField).run.1 = .ok d ∧
      Previews schema requested d.toValue listed ∧
      (runListing sharedField ⟨.info, none⟩ sharedFieldListing).shown.map Shown.unstyled =
        ["GraphQL Schema Operations"] ++ plainLines .query (listed .query) ++
          plainLines .mutation (listed .mutation) ++ ["GraphQL Schema Type Counts", counts] ∧
      (runListing sharedField ⟨.info, none⟩ sharedFieldListing).shown =
        [.rule "[bold blue]GraphQL Schema Operations",
         .line "[dim]query:[/dim] 1", .line "- /a: query a($x: \\[int]) \x7b a(x: $x) \x7d",
         .line "[dim]mutation:[/dim] 2", .line "- /b: mutation b \x7b b \x7d",
         .line "- /c: mutation c \x7b c \x7d", .rule "[bold blue]GraphQL Schema Type Counts",
         .json "\x7b\n  \"object\": 0,\n  \"builtin_scalar\": 3,\n  \"other\": 1\n\x7d"] ∧
      (runListing sharedField ⟨.info, none⟩ sharedFieldListing).shown.map Shown.unstyled =
        ["GraphQL Schema Operations",
         "query: 1", "- /a: query a($x: [int]) \x7b a(x: $x) \x7d",
         "mutation: 2", "- /b: mutation b \x7b b \x7d", "- /c: mutation c \x7b c \x7d",
         "GraphQL Schema Type Counts",
         "\x7b\n  \"object\": 0,\n  \"builtin_scalar\": 3,\n  \"other\": 1\n\x7d"] := by
  have hok : ((exportOf sharedField sharedFieldExport).document sharedField).run.1.isOk := by
    decide +kernel
  cases hd : ((exportOf sharedField sharedFieldExport).document sharedField).run.1 with
  | error e => rw [hd] at hok; contradiction
  | ok d =>
    obtain ⟨schema, requested, listed, hload, -, hpreviews, hcounts, hlisting⟩ :=
      listing_previews_export sharedField ⟨.info, none⟩ sharedFieldExport sharedFieldListing d hd
        rfl rfl
    have hfew : schema.types.length < 10 ^ digitLimit := by
      have htypes : ((loadSchema sharedField
          (schemasOf sharedField sharedFieldExport)).run.1.toOption.map
            fun s => decide (s.types.length < 10 ^ digitLimit)) = some true := by decide +kernel
      rw [hload] at htypes
      simpa [Except.toOption] using htypes
    obtain ⟨counts, hcounts⟩ := hcounts hfew
    obtain ⟨-, -, -, hlines⟩ := hlisting counts hcounts
    exact ⟨rfl, rfl, d, schema, requested, listed, counts.unstyled, rfl, hpreviews, hlines,
      by decide +kernel, by decide +kernel⟩

end CommandLine

end GraphPaths
