import GraphPaths.Proofs.Transform

/-!
# Paths of both roots

The examples for both kinds of operations are those for queries with those for mutations merged into
them (`examples_both`): a name that both roots have keeps its place among the queries and shows the
mutation. The paths of a document are the names of its examples.
-/

namespace GraphPaths

namespace Schema

/-- The examples of a schema, without the records. -/
def examples (s : Schema) (values : ExampleValues) (withName : Bool) (kinds : Kinds) :
    Except ExampleError Examples :=
  (buildExamples s.roots values kinds withName).run.1

end Schema

/-- The request for one kind. -/
def OperationKind.alone (kind : OperationKind) : Kinds :=
  .list [.kind kind]

theorem requestedKinds_alone (kind : OperationKind) : requestedKinds kind.alone = .ok [kind] :=
  rfl

section

variable (s : Schema) (values : ExampleValues) (withName : Bool)

theorem examples_eq {kinds : Kinds} {requested : List OperationKind}
    (h : requestedKinds kinds = .ok requested) :
    s.examples values withName kinds = (do
      let query ← requestedExamples s.roots values withName requested .query
      let mutation ← requestedExamples s.roots values withName requested .mutation
      pure (Examples.merge (Examples.merge [] query) mutation)) := by
  unfold Schema.examples
  rw [(buildExamples_yields s.roots values withName kinds).run_fst, h]
  rfl

variable {s values withName}

/-- The examples for one kind are those of its root. -/
theorem examples_alone (hs : s.Coherent) (kind : OperationKind) :
    s.examples values withName kind.alone = rootExamples s.roots values withName kind := by
  rw [examples_eq s values withName (requestedKinds_alone kind)]
  have hmerge : ∀ ex, rootExamples s.roots values withName kind = .ok ex →
      Examples.merge [] ex = ex := fun ex hex => Examples.nil_merge (Schema.nodup_of_rootExamples hs hex)
  cases kind with
  | query =>
    show (rootExamples s.roots values withName .query >>= fun query =>
      pure (Examples.merge (Examples.merge [] query) [])) = _
    cases hq : rootExamples s.roots values withName .query with
    | error e => rfl
    | ok q => exact congrArg Except.ok (hmerge q hq)
  | mutation =>
    show (rootExamples s.roots values withName .mutation >>= fun mutation =>
      pure (Examples.merge [] mutation)) = _
    cases hm : rootExamples s.roots values withName .mutation with
    | error e => rfl
    | ok m => exact congrArg Except.ok (hmerge m hm)

/-- The examples for both kinds are those for queries with those for mutations merged in. -/
theorem examples_both (hs : s.Coherent) {kinds : Kinds} (h : kinds.isEmpty) :
    s.examples values withName kinds = (do
      let query ← s.examples values withName OperationKind.query.alone
      let mutation ← s.examples values withName OperationKind.mutation.alone
      pure (Examples.merge query mutation)) := by
  rw [examples_eq s values withName (requestedKinds_of_isEmpty h), examples_alone hs,
    examples_alone hs]
  show (rootExamples s.roots values withName .query >>= fun query =>
    rootExamples s.roots values withName .mutation >>= fun mutation =>
      pure (Examples.merge (Examples.merge [] query) mutation)) = _
  cases hq : rootExamples s.roots values withName .query with
  | error e => rfl
  | ok q =>
    have hmerge : Examples.merge [] q = q := Examples.nil_merge (Schema.nodup_of_rootExamples hs hq)
    show (rootExamples s.roots values withName .mutation >>= fun mutation =>
      pure (Examples.merge (Examples.merge [] q) mutation)) = _
    rw [hmerge]
    rfl

theorem fits_of_requestedExamples {requested : List OperationKind} {kind : OperationKind}
    {ex : Examples} (h : requestedExamples s.roots values withName requested kind = .ok ex) :
    ∀ entry ∈ ex, entry.2.Fits := by
  unfold requestedExamples at h
  split at h
  · intro entry hentry
    obtain ⟨f, -, -, rootName, -, he⟩ := exists_of_forall₂ (Schema.shows_of_rootExamples h) hentry
    exact fits_of_exampleFor he
  · obtain rfl := Except.ok.inj h
    exact nofun

/-- Every example has a place in documents. -/
theorem fits_of_examples {kinds : Kinds} {ex : Examples}
    (h : s.examples values withName kinds = .ok ex) : ∀ entry ∈ ex, entry.2.Fits := by
  unfold Schema.examples at h
  rw [(buildExamples_yields s.roots values withName kinds).run_fst] at h
  obtain ⟨requested, -, h⟩ := bind_eq_ok.mp h
  obtain ⟨q, hq, h⟩ := bind_eq_ok.mp h
  obtain ⟨m, hm, h⟩ := bind_eq_ok.mp h
  obtain rfl := Except.ok.inj h
  intro entry hentry
  rcases Examples.mem_merge hentry with hentry | hentry
  · have := (Examples.mem_merge hentry).resolve_left nofun
    exact fits_of_requestedExamples hq entry this
  · exact fits_of_requestedExamples hm entry hentry

end

/-! ## The document's paths -/

section

variable {s : Schema} {options : Value} {kinds : Kinds} {o : Options}
  (ho : Options.ofValue options = .ok o)
include ho

/-- A schema with examples has a document, whose paths are the examples' names, in order. -/
theorem transform_of_examples {ex : Examples}
    (h : s.examples o.exampleValues o.namesOperation kinds = .ok ex) :
    ∃ d, (transform s options kinds).run.1 = .ok d ∧
      ((d.toValue.get? "paths").bind Value.entries?).map (List.map Prod.fst) =
        some ((Examples.keys ex).map fun key => .text ("/" ++ key)) := by
  obtain ⟨parts, hparts⟩ := exists_apiParts o (fits_of_examples h)
  refine ⟨documentOf o ex parts, ?_, ?_⟩
  · unfold Schema.examples at h
    rw [(transform_yields s options kinds).run_fst, ho]
    show ((buildExamples s.roots o.exampleValues kinds o.namesOperation).run.1).mapError
      TransformError.examples >>= _ = _
    rw [h]
    show (apiParts o ex >>= _).mapError _ = _
    rw [hparts]
    rfl
  · obtain ⟨-, hkeys, -⟩ := names_of_parts hparts
    rw [paths_toValue, ← hkeys, documentOf, List.map_map, List.map_map]
    rfl

/-- Without examples there is no document, for the same reason. -/
theorem transform_of_error {e : ExampleError}
    (h : s.examples o.exampleValues o.namesOperation kinds = .error e) :
    (transform s options kinds).run.1 = .error (.examples e) := by
  unfold Schema.examples at h
  rw [(transform_yields s options kinds).run_fst, ho]
  show ((buildExamples s.roots o.exampleValues kinds o.namesOperation).run.1).mapError
    TransformError.examples >>= _ = _
  rw [h]
  rfl

end

/-! ## All paths -/

/-- The names of the mutation fields that the query root does not have. -/
def Schema.ownMutationNames (s : Schema) : List String :=
  ((s.rootFields .mutation).map SchemaField.name).filter
    (· ∉ (s.rootFields .query).map SchemaField.name)

/-- Every root field has its path, and a mutation goes before a query of the same name.

Asking for nothing in particular gives the examples for queries with those for mutations merged in:
the names are those of the query fields and, after them, those of the other mutation fields, and a
name that both have shows the mutation. Values by name make the examples of every root that can be
asked for its fields. Of choices only the set of kinds counts that they stand for; a choice is a
kind itself or names one, and letter case and white space do not change what it names. The paths are
the names with a slash. -/
theorem root_fields_have_paths (s : Schema) (hs : s.Coherent) (values : ExampleValues)
    (withName : Bool) :
    (∀ kinds : Kinds, kinds.isEmpty → s.examples values withName kinds = (do
      let query ← s.examples values withName OperationKind.query.alone
      let mutation ← s.examples values withName OperationKind.mutation.alone
      pure (Examples.merge query mutation))) ∧
    (∀ q m, s.examples values withName OperationKind.query.alone = .ok q →
      s.examples values withName OperationKind.mutation.alone = .ok m →
        List.Forall₂ (s.Shows values withName .query) (s.rootFields .query) q ∧
        List.Forall₂ (s.Shows values withName .mutation) (s.rootFields .mutation) m ∧
        Examples.keys (Examples.merge q m) =
          (s.rootFields .query).map SchemaField.name ++ s.ownMutationNames ∧
        ∀ key, (Examples.merge q m).lookup key = (m.lookup key).or (q.lookup key)) ∧
    (∀ named kind, values = .named named → s.hasRootFields kind →
      ∃ ex, s.examples values withName kind.alone = .ok ex) ∧
    (∀ kinds kinds' requested requested', requestedKinds kinds = .ok requested →
      requestedKinds kinds' = .ok requested' → (∀ k, k ∈ requested ↔ k ∈ requested') →
        buildExamples s.roots values kinds withName =
          buildExamples s.roots values kinds' withName) ∧
    (∀ kinds : Kinds, kinds.isEmpty → requestedKinds kinds = .ok [.query, .mutation]) ∧
    (∀ kinds choices, ¬kinds.isEmpty → kinds.choices? = some choices →
      requestedKinds kinds = choices.mapM KindChoice.read) ∧
    (∀ kind, (KindChoice.kind kind).read = .ok kind) ∧
    (∀ items, items ≠ [] →
      requestedKinds (.data (.list items)) = items.mapM OperationKind.ofValue) ∧
    (∀ (kind : OperationKind) (before word after : List Char), (∀ c ∈ before, Text.isBlank c) →
      (∀ c ∈ after, Text.isBlank c) → word.map Text.lowerChar = kind.keyword.toList →
        OperationKind.ofValue (.text (String.ofList (before ++ word ++ after))) = .ok kind) ∧
    (∀ options kinds o, Options.ofValue options = .ok o → o.exampleValues = values →
      o.namesOperation = withName →
        (∀ ex, s.examples values withName kinds = .ok ex →
          ∃ d, (transform s options kinds).run.1 = .ok d ∧
            ((d.toValue.get? "paths").bind Value.entries?).map (List.map Prod.fst) =
              some ((Examples.keys ex).map fun key => .text ("/" ++ key))) ∧
        (∀ e, s.examples values withName kinds = .error e →
          (transform s options kinds).run.1 = .error (.examples e))) := by
  refine ⟨fun kinds h => examples_both hs h, ?_, ?_, ?_, ?_, ?_, ?_, ?_, ?_, ?_⟩
  · intro q m hq hm
    rw [examples_alone hs] at hq hm
    have hqs := Schema.shows_of_rootExamples hq
    have hms := Schema.shows_of_rootExamples hm
    have hnodup := Schema.nodup_of_rootExamples hs hm
    refine ⟨hqs, hms, ?_, fun key => Examples.lookup_merge key q hnodup⟩
    rw [Examples.keys_merge q hnodup, Schema.keys_of_shows hqs, Schema.keys_of_shows hms]
    rfl
  · intro named kind hvalues hroot
    rw [examples_alone hs, hvalues]
    exact Schema.rootExamples_named withName named hroot
  · intro kinds kinds' requested requested' hk hk' h
    exact buildExamples_congr s.roots values withName hk hk' h
  · exact fun kinds h => requestedKinds_of_isEmpty h
  · exact fun kinds choices h hchoices => requestedKinds_of_choices h hchoices
  · exact fun kind => rfl
  · exact fun items h => requestedKinds_list h
  · exact fun kind before word after hb ha hw => ofValue_padded kind hb ha hw
  · rintro options kinds o ho rfl rfl
    exact ⟨fun ex hex => transform_of_examples ho hex, fun e he => transform_of_error ho he⟩

/-- A schema whose roots have a field of the same name. -/
def twoRoots : Schema where
  types :=
    [⟨"Query", .object [] [⟨"a", [], .named "Int", false⟩, ⟨"b", [], .named "Int", false⟩]⟩,
     ⟨"Mutation", .object [] [⟨"b", [], .named "Int", false⟩, ⟨"c", [], .named "Int", false⟩]⟩,
     ⟨"Int", .scalar⟩]
  query := some "Query"
  mutation := some "Mutation"
  subscription := none
  directives := []

theorem coherent_twoRoots : twoRoots.Coherent := by
  constructor <;> decide

/-- The field of both roots stands once, among the queries. -/
theorem twoRoots_have_paths : twoRoots.Coherent ∧
    buildExamples twoRoots.roots .empty (.data (.list [.text " Mutation", .text "QUERY"])) false =
      buildExamples twoRoots.roots .empty .absent false ∧
    ∃ d, (transform twoRoots (.map []) .absent).run.1 = .ok d ∧
      ((d.toValue.get? "paths").bind Value.entries?).map (List.map Prod.fst) =
        some [.text "/a", .text "/b", .text "/c"] := by
  obtain ⟨hboth, hcontent, hnamed, hset, hnone, -, -, -, -, hpaths⟩ :=
    root_fields_have_paths twoRoots coherent_twoRoots .empty false
  refine ⟨coherent_twoRoots, ?_, ?_⟩
  · exact hset _ _ [.mutation, .query] [.query, .mutation] rfl (hnone .absent rfl)
      (by simp [or_comm])
  · obtain ⟨q, hq⟩ := hnamed [] .query rfl (by decide)
    obtain ⟨m, hm⟩ := hnamed [] .mutation rfl (by decide)
    obtain ⟨-, -, hkeys, -⟩ := hcontent q m hq hm
    have hex : twoRoots.examples .empty false .absent = .ok (Examples.merge q m) := by
      rw [hboth .absent rfl, hq, hm]
      rfl
    obtain ⟨d, hd, hdoc⟩ := (hpaths (.map []) .absent _ rfl rfl rfl).1 _ hex
    refine ⟨d, hd, ?_⟩
    rw [hdoc, hkeys]
    rfl

end GraphPaths
