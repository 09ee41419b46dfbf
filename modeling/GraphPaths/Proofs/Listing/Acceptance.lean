import GraphPaths.Proofs.Export.Acceptance
import GraphPaths.Proofs.Listing

/-!
# What a listing accepts

A listing ends well with the schemas that can be loaded and whose roots can be asked for their fields
(`runListing_exit_zero_iff`); whether anything else is wrong in them does not count. So an export
accepts what a listing does, less the schemas with flaws (`runExport_exit_zero_iff_runListing`).

A listing does not report errors. Each ends the program as it is (`runListing_of_error`), one of the
schema files among them (`runListing_of_unloadable`), and no record of a listing is graver than a note
of how it goes on (`runListing_records`).
-/

namespace GraphPaths

/-! ## Records of a listing -/

/-- Whether a record is a note of how work goes on. -/
def LogRecord.IsNote (r : LogRecord) : Prop := r.level = .debug ∨ r.level = .info

section

variable {roots : Roots} {values : ExampleValues} {withName : Bool}

theorem recordsOnly_noteReplaced (rootName key : String) (examples : Examples) :
    (noteReplaced rootName key examples).RecordsOnly LogRecord.IsNote := by
  unfold noteReplaced
  split
  · exact Job.recordsOnly_log (.inl rfl)
  · exact Job.recordsOnly_pure ()

theorem recordsOnly_addFields (kind : OperationKind) (rootName : String) :
    ∀ (fs : List SchemaField) (examples : Examples),
      (addFields roots.refOf kind rootName values withName fs examples).RecordsOnly LogRecord.IsNote
  | [], examples => Job.recordsOnly_pure examples
  | f :: fs, examples =>
    (recordsOnly_noteReplaced rootName f.name examples).bind fun _ =>
      (Job.recordsOnly_ofExcept _).bind fun e => (Job.recordsOnly_log (.inl rfl)).bind fun _ =>
        recordsOnly_addFields kind rootName fs (examples.put f.name e)

theorem recordsOnly_addRoot (kind : OperationKind) (root : Root) (examples : Examples) :
    (addRoot roots.refOf kind values withName root examples).RecordsOnly LogRecord.IsNote := by
  have hcount : ∀ count rootName, (noteFields count rootName).RecordsOnly LogRecord.IsNote :=
    fun _ _ => Job.recordsOnly_log (.inr rfl)
  obtain ⟨name, fields⟩ := root
  cases fields with
  | fields fs => exact (hcount _ _).bind fun _ => recordsOnly_addFields kind name fs examples
  | names names =>
    cases names with
    | nil => exact (hcount _ _).bind fun _ => Job.recordsOnly_pure examples
    | cons key keys =>
      exact (hcount _ _).bind fun _ => (recordsOnly_noteReplaced name key examples).bind fun _ =>
        Job.recordsOnly_throw _
  | _ => exact Job.recordsOnly_throw _

theorem recordsOnly_addKind (requested : List OperationKind) (examples : Examples)
    (kind : OperationKind) :
    (addKind roots values withName requested examples kind).RecordsOnly LogRecord.IsNote := by
  unfold addKind
  split
  · split
    · exact (Job.recordsOnly_log (.inl rfl)).bind fun _ => Job.recordsOnly_pure examples
    · exact recordsOnly_addRoot kind _ examples
  · exact Job.recordsOnly_pure examples

theorem recordsOnly_buildExamples (kinds : Kinds) :
    (buildExamples roots values kinds withName).RecordsOnly LogRecord.IsNote := by
  refine (Job.recordsOnly_ofExcept _).bind fun requested => ?_
  unfold OperationKind.all
  simp only [List.foldlM_cons, List.foldlM_nil]
  exact (recordsOnly_addKind requested [] .query).bind fun examples =>
    (recordsOnly_addKind requested examples .mutation).bind fun _ => Job.recordsOnly_pure _

end

theorem recordsOnly_loadSchema (t : FileTree) (paths : List FilePath) :
    (loadSchema t paths).RecordsOnly LogRecord.IsNote := by
  refine (Job.recordsOnly_ofExcept _).bind fun _ => (Job.recordsOnly_ofExcept _).bind fun s =>
    (Job.recordsOnly_log (.inr rfl)).bind fun _ => ?_
  split
  · exact Job.recordsOnly_throw _
  · exact (Job.recordsOnly_log (.inl rfl)).bind fun _ => Job.recordsOnly_pure _

/-- A listing records notes only. -/
theorem recordsOnly_listOperations (t : FileTree) (schemas : List FilePath)
    (operations : List String) :
    (listOperations t schemas operations).RecordsOnly LogRecord.IsNote :=
  ((recordsOnly_loadSchema t schemas).mapError _).bind fun _ =>
    ((recordsOnly_buildExamples _).mapError _).bind fun _ =>
      (Job.recordsOnly_ofExcept _).bind fun _ => Job.recordsOnly_pure _

namespace CommandLine

/-! ## Ends -/

/-- Work that fails changes no file and shows nothing. -/
theorem outcomeOf_of_fails {t : FileTree} {l : Logging} {ending : CommandError → Ending}
    {job : Job CommandError (FileTree × List Shown)} {e : CommandError}
    (h : job.run.1 = .error e) : (outcomeOf t l ending job).ending = ending e ∧
      (outcomeOf t l ending job).files = t ∧ (outcomeOf t l ending job).shown = [] := by
  unfold outcomeOf
  cases hjob : job.run with
  | mk x records =>
    rw [hjob] at h
    obtain rfl : x = .error e := h
    exact ⟨rfl, rfl, rfl⟩

theorem records_outcomeOf (t : FileTree) (l : Logging) (ending : CommandError → Ending)
    (job : Job CommandError (FileTree × List Shown)) :
    (outcomeOf t l ending job).records = l.keep job.run.2 := by
  unfold outcomeOf
  cases job.run with
  | mk x records => cases x <;> rfl

section

variable {t : FileTree} {l : Logging} {s s' : Settings}

/-- A listing comes to its end if the roots that are asked for have fields and the numbers of types
can be shown. -/
theorem listOperations_eq_ok_iff {schemas : List FilePath} {operations : List String}
    {shown : List Shown} : (listOperations t schemas operations).run.1 = .ok shown ↔
      ∃ schema requested counts, (loadSchema t schemas).run.1 = .ok schema ∧
        requestedKinds (kindsOf operations) = .ok requested ∧
        (∀ kind ∈ requested, schema.hasRootFields kind) ∧
        Shown.data schema.counts.toValue = .ok counts ∧
        listingOf schema requested counts = shown := by
  constructor
  · intro h
    have hsteps := h
    rw [(listOperations_yields t schemas operations).run_fst] at hsteps
    simp only [bind_eq_ok, mapError_eq_ok] at hsteps
    obtain ⟨schema, hload, ex, hex, counts, hcounts, -⟩ := hsteps
    have hs := coherent_of_loadSchema hload
    obtain ⟨requested, hk, hroots, -⟩ := (Schema.examples_eq_ok_iff hs).mp hex
    have hyields := listOperations_yields_of_roots hs hload hk hroots hcounts
    exact ⟨schema, requested, counts, hload, hk, hroots, hcounts,
      Except.ok.inj (hyields.run_fst.symm.trans h)⟩
  · rintro ⟨schema, requested, counts, hload, hk, hroots, hcounts, rfl⟩
    exact (listOperations_yields_of_roots (coherent_of_loadSchema hload) hload hk hroots
      hcounts).run_fst

/-- What a listing shows stands there if it comes to its end. -/
theorem runListing_of_ok {shown : List Shown}
    (h : (listOperations t (schemasOf t s) (s.all "operations")).run.1 = .ok shown) :
    (runListing t l s).ending = .exit 0 ∧ (runListing t l s).files = t ∧
      (runListing t l s).shown = shown := by
  have hyields := (listOperations_yields t (schemasOf t s) (s.all "operations")).self
  rw [h] at hyields
  exact outcomeOf_of_yields l .failed
    (hyields.bind (y := fun shown => .ok (t, shown)) fun shown _ => Job.yields_pure (t, shown))

/-- Every error of a listing ends the program as it is, and nothing is shown. -/
theorem runListing_of_error {e : CommandError}
    (h : (listOperations t (schemasOf t s) (s.all "operations")).run.1 = .error e) :
    (runListing t l s).ending = .failed e ∧ (runListing t l s).files = t ∧
      (runListing t l s).shown = [] := by
  have hyields := (listOperations_yields t (schemasOf t s) (s.all "operations")).self
  rw [h] at hyields
  exact outcomeOf_of_fails (hyields.bind (y := fun shown => .ok (t, shown)) fun shown _ =>
    Job.yields_pure (t, shown)).run_fst

/-- A listing ends well if the roots that are asked for have fields and the numbers of types can be
shown. -/
theorem runListing_exit_zero_iff : (runListing t l s).ending = .exit 0 ↔
    ∃ schema requested counts, (loadSchema t (schemasOf t s)).run.1 = .ok schema ∧
      requestedKinds (kindsOf (s.all "operations")) = .ok requested ∧
      (∀ kind ∈ requested, schema.hasRootFields kind) ∧
      Shown.data schema.counts.toValue = .ok counts := by
  constructor
  · intro h
    cases hrun : (listOperations t (schemasOf t s) (s.all "operations")).run.1 with
    | error e => exact nomatch (runListing_of_error hrun).1.symm.trans h
    | ok shown =>
      obtain ⟨schema, requested, counts, hload, hk, hroots, hcounts, -⟩ :=
        listOperations_eq_ok_iff.mp hrun
      exact ⟨schema, requested, counts, hload, hk, hroots, hcounts⟩
  · rintro ⟨schema, requested, counts, hload, hk, hroots, hcounts⟩
    exact (runListing_of_ok (listOperations_eq_ok_iff.mpr
      ⟨schema, requested, counts, hload, hk, hroots, hcounts, rfl⟩)).1

theorem schemasOf_congr (t : FileTree) (h : s'.all "schemas" = s.all "schemas") :
    schemasOf t s' = schemasOf t s := by
  unfold schemasOf
  rw [h]

/-- An export accepts what a listing does, less the schemas with flaws. -/
theorem runExport_exit_zero_iff_runListing (h : (exportOf t s).Unhindered t)
    (hschemas : s'.all "schemas" = s.all "schemas")
    (hoperations : s'.all "operations" = s.all "operations")
    (hsize : ∀ schema, (loadSchema t (schemasOf t s)).run.1 = .ok schema →
      schema.types.length < 10 ^ digitLimit) :
    (runExport t l s).ending = .exit 0 ↔ (runListing t l s').ending = .exit 0 ∧
      ∀ schema, (loadSchema t (schemasOf t s)).run.1 = .ok schema → schema.problems = .ok [] := by
  rw [runExport_exit_zero_iff h, runListing_exit_zero_iff, schemasOf_congr t hschemas, hoperations]
  constructor
  · rintro ⟨schema, requested, hload, hproblems, hk⟩
    obtain ⟨counts, hcounts⟩ := exists_counts schema (hsize schema hload)
    refine ⟨⟨schema, requested, counts, hload, hk, fun kind _ =>
      Schema.hasRootFields_of_problems hproblems kind, hcounts⟩, fun schema' hload' => ?_⟩
    rwa [← Except.ok.inj (hload.symm.trans hload')]
  · rintro ⟨⟨schema, requested, -, hload, hk, -⟩, hproblems⟩
    exact ⟨schema, requested, hload, hproblems schema hload, hk⟩

/-- A file with a schema that has no root for queries. -/
def mutationsOnly : FileTree :=
  ⟨[(["s.graphql"], FileTree.bytesOf "type Mutation { m: Int }")], [], [], []⟩

/-- What is only listed shows operations that no export has. -/
example : (runListing mutationsOnly ⟨.info, none⟩ [("schemas", ["s.graphql"])]).ending = .exit 0 ∧
    (runExport mutationsOnly ⟨.info, none⟩
      [("schemas", ["s.graphql"]), ("output", ["o.json"])]).ending = .exit 1 := by
  decide +kernel

/-- No record of a listing is graver than a note. -/
theorem runListing_records : ∀ r ∈ (runListing t l s).records, r.IsNote := by
  intro r hr
  unfold runListing at hr
  rw [records_outcomeOf] at hr
  obtain ⟨added, hadded, hnotes⟩ :=
    (recordsOnly_listOperations t (schemasOf t s) (s.all "operations")).bind
      (fun shown => Job.recordsOnly_pure (t, shown)) []
  have hr := (List.mem_filter.mp hr).1
  unfold Job.run at hr
  rw [hadded, List.nil_append] at hr
  exact hnotes r hr

/-- A listing ends with the error where the schema cannot be loaded. -/
theorem runListing_of_unloadable {e : SchemaFileError}
    (h : (loadSchema t (schemasOf t s)).run.1 = .error e) :
    (runListing t l s).ending = .failed (.schemaFiles e) := by
  refine (runListing_of_error ?_).1
  rw [(listOperations_yields _ _ _).run_fst, h]
  rfl

end

end CommandLine

end GraphPaths
