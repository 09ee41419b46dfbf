import GraphPaths.Proofs.Document.Serialized
import GraphPaths.Proofs.Export.Stages
import GraphPaths.Proofs.Yaml.Writing

/-!
# What an export accepts

An export whose options come from no file and whose output can be written needs nothing but the schema:
it ends well with the schemas that can be loaded and in which nothing is found wrong, and with no
others (`runExport_exit_zero_iff`). Its document holds texts and mock values only, for which every
format has forms (`exists_serialize_of_isWritable`).
-/

namespace GraphPaths

/-! ## Documents that can be written -/

/-- Formats have forms for all that JSON has a form for. -/
theorem exists_serialize_of_isWritable {v : Value} (h : v.isWritable) {format : String}
    (hformat : format ∈ OutputFormat.all.map OutputFormat.name) :
    ∃ text, serialize v format = .ok text := by
  obtain ⟨f, -, rfl⟩ := List.mem_map.mp hformat
  cases f with
  | json =>
    obtain ⟨text, htext⟩ := (Json.exists_text_iff v).mpr h
    exact ⟨text, serialize_json_eq_ok.mpr htext⟩
  | yaml =>
    obtain ⟨text, htext⟩ := Yaml.exists_text_of_isWritable h
    exact ⟨text, mapError_eq_ok.mpr htext⟩

/-- Whether a file can be put at a path, with the directories that lead to it. -/
def FileTree.Admits (t : FileTree) (p : FilePath) : Prop :=
  ∃ made written, t.makeDirectories p.parent = .ok made ∧ made.write p [] = .ok written

/-- Whether a file can be written does not depend on what is written. -/
theorem FileTree.exists_write {t t' : FileTree} {p : FilePath} {bytes : List Nat}
    (h : t.write p bytes = .ok t') (other : List Nat) : ∃ t'', t.write p other = .ok t'' := by
  obtain ⟨names, hlocate, hdirectory, -⟩ := write_eq_ok.mp h
  exact ⟨_, write_eq_ok.mpr ⟨names, hlocate, hdirectory, rfl⟩⟩

namespace Export

variable {t : FileTree} {e : Export}

/-- An export that needs nothing but the schema. -/
structure Unhindered (t : FileTree) (e : Export) : Prop where
  options : e.options = none
  exampleValues : e.exampleValues = none
  format : e.formatName ∈ OutputFormat.all.map OutputFormat.name
  output : t.Admits e.output

/-- Without files of options there are the standard ones, with changes. -/
theorem readOptions_of_none (t : FileTree) (hoptions : e.options = none)
    (hvalues : e.exampleValues = none) :
    (readOptions t e).run.1 = .ok (Options.standard.change e.changes) := by
  rw [(readOptions_yields t e).run_fst, hoptions, hvalues]
  rfl

theorem hasTexts_change (changes : OptionChanges) : (Options.standard.change changes).HasTexts := by
  have htext : ∀ (new : Option String) (old : String),
      ∃ s, (new.map Value.text).getD (.text old) = .text s := by
    intro new old
    cases new with
    | none => exact ⟨old, rfl⟩
    | some s => exact ⟨s, rfl⟩
  exact ⟨htext _ _, htext _ _, htext _ _, htext _ _, htext _ _⟩

/-- An export comes to its end if each of its steps does. -/
theorem exists_run_iff : (∃ result, (run t e).run.1 = .ok result) ↔
    ∃ d text made written, (document t e).run.1 = .ok d ∧
      serialize d.toValue e.formatName = .ok text ∧
      t.makeDirectories e.output.parent = .ok made ∧
      made.write e.output (FileTree.bytesOf text) = .ok written := by
  obtain ⟨shown, hrun⟩ : ∃ shown : ApiDocument → List Shown, (run t e).Yields (do
      let d ← (document t e).run.1
      let text ← (serialize d.toValue e.formatName).mapError fun x =>
        CommandError.transform (.serialize x)
      let made ← (t.makeDirectories e.output.parent).mapError CommandError.file
      let written ← (made.write e.output (FileTree.bytesOf text)).mapError CommandError.file
      pure (written, shown d)) :=
    ⟨_, (document_yields t e).self.bind fun d _ => (Job.yields_ofExcept _).bind fun text _ =>
      (Job.yields_ofExcept _).bind fun made _ => (Job.yields_ofExcept _).bind fun written _ =>
        Job.yields_pure _⟩
  rw [hrun.run_fst]
  simp only [bind_eq_ok, mapError_eq_ok]
  constructor
  · rintro ⟨result, d, hd, text, htext, made, hmade, written, hwritten, -⟩
    exact ⟨d, text, made, written, hd, htext, hmade, hwritten⟩
  · rintro ⟨d, text, made, written, hd, htext, hmade, hwritten⟩
    exact ⟨_, d, hd, text, htext, made, hmade, written, hwritten, rfl⟩

/-- An export that needs nothing but the schema comes to its end with every schema without flaws. -/
theorem exists_run_iff_of_unhindered (h : e.Unhindered t) :
    (∃ result, (run t e).run.1 = .ok result) ↔ ∃ schema requested,
      (loadSchema t e.schemas).run.1 = .ok schema ∧ schema.problems = .ok [] ∧
      requestedKinds (kindsOf e.operations) = .ok requested := by
  have hoptions := readOptions_of_none t h.options h.exampleValues
  have hvalues : (Options.standard.change e.changes).exampleValues = .named [] := rfl
  rw [exists_run_iff]
  constructor
  · rintro ⟨d, -, -, -, hd, -⟩
    obtain ⟨schema, o, hload, hproblems, ho, hd⟩ := document_eq_ok_iff.mp hd
    obtain rfl := Except.ok.inj (hoptions.symm.trans ho)
    obtain ⟨requested, hk, -⟩ :=
      (Schema.transformWith_eq_ok_iff (coherent_of_loadSchema hload) hvalues).mp hd
    exact ⟨schema, requested, hload, hproblems, hk⟩
  · rintro ⟨schema, requested, hload, hproblems, hk⟩
    have hs := coherent_of_loadSchema hload
    have hd : (transformWith schema (Options.standard.change e.changes)
        (kindsOf e.operations)).run.1 = .ok _ :=
      (Schema.transformWith_eq_ok_iff hs hvalues).mpr
        ⟨requested, hk, fun kind _ => Schema.hasRootFields_of_problems hproblems kind, rfl⟩
    have hwritable := (permits_writable.transformWith hs (hasTexts_change e.changes) hvalues hk
      hd).mpr fun v ⟨_, _, _, a, _, hv⟩ => nomatch hv
    obtain ⟨text, htext⟩ := exists_serialize_of_isWritable hwritable h.format
    obtain ⟨made, empty, hmade, hempty⟩ := h.output
    obtain ⟨written, hwritten⟩ := FileTree.exists_write hempty (FileTree.bytesOf text)
    exact ⟨_, text, made, written,
      document_eq_ok_iff.mpr ⟨schema, _, hload, hproblems, hoptions, hd⟩, htext, hmade, hwritten⟩

end Export

namespace CommandLine

/-! ## Ends -/

/-- Work ends the program well if it comes to its end. -/
theorem outcomeOf_exit_zero_iff {t : FileTree} {l : Logging} {ending : CommandError → Ending}
    (h : ∀ e, ending e ≠ .exit 0) {job : Job CommandError (FileTree × List Shown)} :
    (outcomeOf t l ending job).ending = .exit 0 ↔ ∃ result, job.run.1 = .ok result := by
  unfold outcomeOf
  cases job.run with
  | mk x records =>
    cases x with
    | ok result => exact ⟨fun _ => ⟨result, rfl⟩, fun _ => rfl⟩
    | error e => exact ⟨fun heq => absurd heq (h e), nofun⟩

theorem exportEnding_ne (e : CommandError) : exportEnding e ≠ .exit 0 := by
  unfold exportEnding
  split
  · exact nofun
  · exact nofun

/-- Reports do not change what work comes to. -/
theorem run_reporting {α : Type} (job : Job CommandError α) :
    (reporting job).run.1 = job.run.1 := by
  unfold Job.run
  cases hjob : job [] with
  | mk x records =>
    cases x with
    | ok a => rw [reporting_of_ok hjob]
    | error e => rw [reporting_of_error hjob]

section

variable {t : FileTree} {l : Logging} {s : Settings}

/-- An export that needs nothing but the schema ends well with every schema without flaws. -/
theorem runExport_exit_zero_iff (h : (exportOf t s).Unhindered t) :
    (runExport t l s).ending = .exit 0 ↔ ∃ schema requested,
      (loadSchema t (schemasOf t s)).run.1 = .ok schema ∧ schema.problems = .ok [] ∧
      requestedKinds (kindsOf (s.all "operations")) = .ok requested := by
  unfold runExport
  rw [outcomeOf_exit_zero_iff exportEnding_ne, run_reporting]
  exact Export.exists_run_iff_of_unhindered h

/-- An export reports that the schema cannot be loaded. -/
theorem runExport_of_unloadable {e : SchemaFileError}
    (h : (loadSchema t (schemasOf t s)).run.1 = .error e) :
    (runExport t l s).ending = .exit 1 ∧
    (l.level.number ≤ LogLevel.error.number → ⟨.error, e.report⟩ ∈ (runExport t l s).records) := by
  have hfails : ((loadSchema t (schemasOf t s)).mapError CommandError.schemaFiles).run.1 =
      .error (.schemaFiles e) := by
    rw [((loadSchema_yields t _).self.mapError _).run_fst]
    exact mapError_eq_error.mpr ⟨e, h, rfl⟩
  have hrun : (exportOf t s).run t [] = (.error (.schemaFiles e), _) :=
    Job.bind_of_error _ (Job.bind_of_error _ (Prod.ext hfails rfl))
  have hreport : (CommandError.schemaFiles e).report? = some e.report := rfl
  unfold runExport outcomeOf Job.run
  rw [reporting_of_error hrun, hreport]
  constructor
  · simp [exportEnding, hreport]
  · exact fun hl => List.mem_filter.mpr ⟨by simp, by simpa using hl⟩

end

end CommandLine

end GraphPaths
