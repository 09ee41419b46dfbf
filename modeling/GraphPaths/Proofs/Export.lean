import GraphPaths.CommandLine
import GraphPaths.Proofs.FileTree
import GraphPaths.Proofs.Options
import GraphPaths.Proofs.Schema.Sound

/-!
# How an export ends

An export writes the whole text of the document, or it reports an error, ends with status 1 and
leaves all files as they are, or it comes upon a value of the YAML notation that cannot be had and
for which there is no report (`runExport_ends`). No other error ends it: by the time the examples
are built the schema is known to have roots with fields, and the example values are values by name.

`CommandError.Told` is what holds of every error of an export and the records up to it; each step
only has errors of which it holds (`run_failsOnly`).
-/

namespace GraphPaths

/-- There is a report about the error, or it was reported, or it is one of the few of the YAML
notation that there is no report for. -/
inductive CommandError.Told (records : List LogRecord) : CommandError → Prop
  | report {e : CommandError} (h : e.report?.isSome) : Told records e
  | reported {r : LogRecord} (h : r ∈ records) (hr : r.level = .error) : Told records .flawedSchema
  | yaml {x : Yaml.LoadError} (h : x.report? = none) : Told records (.mapping (.yaml x))

open CommandError (Told)

theorem told_mapping (records : List LogRecord) (e : MappingFileError) :
    Told records (.mapping e) := by
  cases e with
  | yaml x =>
    cases hx : x.report? with
    | none => exact .yaml hx
    | some message => exact .report (by simp [CommandError.report?, MappingFileError.report?, hx])
  | _ => exact .report rfl

/-- There is a report about kinds that nobody knows. -/
theorem report_requestedKinds {kinds : Kinds} {e : ExampleError}
    (h : requestedKinds kinds = .error e) : e.report?.isSome := by
  have hone : ∀ {c : KindChoice} {e}, c.read = .error e → e.report?.isSome := by
    intro c e h
    unfold KindChoice.read OperationKind.ofValue at h
    split at h
    · exact nomatch h
    · split at h
      · exact nomatch h
      · obtain rfl := Except.error.inj h
        rfl
  unfold requestedKinds at h
  split at h
  · exact nomatch h
  · split at h
    · obtain ⟨c, -, hc⟩ := exists_of_mapM_error h
      exact hone hc
    · obtain rfl := Except.error.inj h
      rfl

/-! ## Steps -/

/-- The flaws of a schema are reported before the export ends for them. -/
theorem requireSound_failsOnly (s : Schema) :
    (requireSound s).FailsOnly fun e records => Told records e := by
  unfold requireSound
  refine (Job.failsOnly_ofExcept fun e he _ => ?_).bind fun problems _ _ _ => ?_
  · obtain ⟨x, -, rfl⟩ := mapError_eq_error.mp he
    exact .report rfl
  · split
    · refine (Job.failsOnly_log _ _).bind fun _ _ _ _ => ?_
      refine (Job.failsOnly_forIn (fun x _ => ?_) problems _).bind fun _ _ _ _ => ?_
      · exact (Job.failsOnly_log _ _).bind fun _ _ _ _ => Job.failsOnly_pure _
      · intro records e rs he
        obtain ⟨rfl, rfl⟩ : CommandError.flawedSchema = e ∧ _ ++ _ = rs :=
          ⟨Except.error.inj (congrArg Prod.fst he), congrArg Prod.snd he⟩
        exact .reported (List.mem_append_right _ List.mem_cons_self) rfl
    · exact Job.failsOnly_pure ()

theorem problems_of_requireSound {s : Schema} {records rs : List LogRecord} {u : Unit}
    (h : requireSound s records = (.ok u, rs)) : s.problems = .ok [] := by
  obtain ⟨problems, mid, hproblems, h⟩ := Job.bind_eq_run_ok h
  have hproblems := mapError_eq_ok.mp (Job.ofExcept_eq_ok hproblems)
  cases problems with
  | nil => exact hproblems
  | cons problem problems =>
    obtain ⟨_, _, -, h⟩ := Job.bind_eq_run_ok h
    obtain ⟨_, _, -, h⟩ := Job.bind_eq_run_ok h
    obtain ⟨_, _, -, h⟩ := Job.bind_eq_run_ok h
    exact nomatch congrArg Prod.fst h

namespace Export

variable (t : FileTree) (e : Export)

theorem readOptions_failsOnly :
    (readOptions t e).FailsOnly fun e records => Told records e := by
  have hload : ∀ path, ((loadMapping t path).mapError CommandError.mapping).FailsOnly
      fun e records => Told records e :=
    fun path => Job.FailsOnly.mapError fun _ x rs _ => told_mapping rs x
  refine (hload e.options).bind fun given _ _ _ => ?_
  refine (Job.failsOnly_ofExcept fun x hx _ => ?_).bind fun o _ _ _ => ?_
  · obtain ⟨x, -, rfl⟩ := mapError_eq_error.mp hx
    exact .report rfl
  · cases e.exampleValues with
    | none => exact Job.failsOnly_pure _
    | some p => exact (hload (some p)).bind fun _ _ _ _ => Job.failsOnly_pure _

/-- The example values of an export are values by name. -/
theorem exampleValues_readOptions {o : Options} {records rs : List LogRecord}
    (h : readOptions t e records = (.ok o, rs)) : ∃ named, o.exampleValues = .named named := by
  obtain ⟨given, mid, -, h⟩ := Job.bind_eq_run_ok h
  obtain ⟨checked, mid, hchecked, h⟩ := Job.bind_eq_run_ok h
  have hchecked := mapError_eq_ok.mp (Job.ofExcept_eq_ok hchecked)
  cases hvalues : e.exampleValues with
  | none =>
    rw [hvalues] at h
    obtain rfl := Except.ok.inj (congrArg Prod.fst h)
    show ∃ named, checked.exampleValues = .named named
    exact exampleValues_ofValue hchecked
  | some p =>
    rw [hvalues] at h
    obtain ⟨values, mid, -, h⟩ := Job.bind_eq_run_ok h
    obtain rfl := Except.ok.inj (congrArg Prod.fst h)
    exact ⟨_, rfl⟩

/-- A schema without flaws has a document, unless the options cannot be had. -/
theorem document_failsOnly : (document t e).FailsOnly fun e records => Told records e := by
  refine (Job.FailsOnly.mapError fun _ _ _ _ => .report rfl).bind fun s _ _ _ => ?_
  refine (requireSound_failsOnly s).bind fun _ _ _ hsound => ?_
  refine (readOptions_failsOnly t e).bind fun o _ _ hoptions => ?_
  obtain ⟨named, hnamed⟩ := exampleValues_readOptions t e hoptions
  refine Job.FailsOnly.mapError fun records x rs hx => .report ?_
  have hx : (transformWith s o (kindsOf e.operations)).run.1 = .error x := by
    rw [(transformWith_yields s o _).run_fst]
    exact (transformWith_yields s o _).fst_eq records ▸ congrArg Prod.fst hx
  obtain ⟨reason, hreason, rfl⟩ := transformWith_eq_error
    (Schema.hasRootFields_of_problems (problems_of_requireSound hsound)) hnamed hx
  exact report_requestedKinds hreason

/-- Of every error of an export there is word. -/
theorem run_failsOnly : (run t e).FailsOnly fun e records => Told records e := by
  refine (document_failsOnly t e).bind fun d _ _ _ => ?_
  refine (Job.failsOnly_ofExcept fun x hx _ => ?_).bind fun text _ _ _ => ?_
  · obtain ⟨x, -, rfl⟩ := mapError_eq_error.mp hx
    exact .report rfl
  refine (Job.failsOnly_ofExcept fun x hx _ => ?_).bind fun t' _ _ _ => ?_
  · obtain ⟨x, -, rfl⟩ := mapError_eq_error.mp hx
    exact .report rfl
  refine (Job.failsOnly_ofExcept fun x hx _ => ?_).bind fun _ _ _ _ => Job.failsOnly_pure _
  obtain ⟨x, -, rfl⟩ := mapError_eq_error.mp hx
  exact .report rfl

/-- An export that comes to its end has written the text of its document, and nothing else. -/
theorem written_of_run {t' : FileTree} {shown : List Shown} {records rs : List LogRecord}
    (h : run t e records = (.ok (t', shown), rs)) :
    ∃ d text mid, document t e records = (.ok d, mid) ∧
      serialize d.toValue e.formatName = .ok text ∧
      t'.read e.output = .ok (FileTree.bytesOf text) ∧
      ∀ names, t'.locate e.output ≠ .ok names → t'.fileAt names = t.fileAt names := by
  obtain ⟨d, mid, hd, h⟩ := Job.bind_eq_run_ok h
  obtain ⟨text, _, htext, h⟩ := Job.bind_eq_run_ok h
  obtain ⟨t₁, _, hmake, h⟩ := Job.bind_eq_run_ok h
  obtain ⟨t₂, _, hwrite, h⟩ := Job.bind_eq_run_ok h
  obtain ⟨rfl, -⟩ := Prod.mk.inj (Except.ok.inj (congrArg Prod.fst h))
  have hwrite := mapError_eq_ok.mp (Job.ofExcept_eq_ok hwrite)
  have hmake := mapError_eq_ok.mp (Job.ofExcept_eq_ok hmake)
  refine ⟨d, text, mid, hd, mapError_eq_ok.mp (Job.ofExcept_eq_ok htext),
    FileTree.read_write hwrite, fun names hnames => ?_⟩
  have hbefore : t₁.locate e.output ≠ .ok names := fun hlocate =>
    hnames (FileTree.locate_write hwrite hlocate)
  rw [FileTree.fileAt_write_of_ne hwrite hbefore]
  exact congrArg (List.lookup names) (FileTree.files_makeDirectories hmake)

end Export

/-! ## Endings -/

namespace CommandLine

theorem reporting_of_ok {α : Type} {job : Job CommandError α} {records rs : List LogRecord}
    {a : α} (h : job records = (.ok a, rs)) : reporting job records = (.ok a, rs) :=
  Job.tryCatch_of_ok _ h

/-- An error is reported after what was recorded before it. -/
theorem reporting_of_error {α : Type} {job : Job CommandError α} {records rs : List LogRecord}
    {e : CommandError} (h : job records = (.error e, rs)) :
    reporting job records =
      (.error e, rs ++ (e.report?.map fun message => ⟨.error, message⟩).toList) := by
  unfold reporting
  rw [Job.tryCatch_of_error _ h]
  cases e.report? with
  | none =>
    rw [Option.map_none, Option.toList_none, List.append_nil]
    rfl
  | some message => rfl

/-- How an export ends. -/
inductive Exported (t : FileTree) (l : Logging) (e : Export) (o : Outcome) : Prop
  /-- The output file holds the text of the whole document, and no other file is changed. -/
  | written (d : ApiDocument) (text : String)
      (document : (e.document t).run.1 = .ok d)
      (serialized : serialize d.toValue e.formatName = .ok text)
      (ending : o.ending = .exit 0)
      (output : o.files.read e.output = .ok (FileTree.bytesOf text))
      (others : ∀ names, o.files.locate e.output ≠ .ok names →
        o.files.fileAt names = t.fileAt names)
  /-- An error is reported, and all files are as before. -/
  | reported (ending : o.ending = .exit 1)
      (record : l.level.number ≤ LogLevel.error.number → ∃ r ∈ o.records, r.level = .error)
      (files : o.files.files = t.files)
  /-- There is no report for a value of the YAML notation, and all files are as before. -/
  | failed (x : Yaml.LoadError) (unreported : x.report? = none)
      (ending : o.ending = .failed (.mapping (.yaml x)))
      (files : o.files.files = t.files)

theorem exists_kept {l : Logging} {records : List LogRecord}
    (h : ∃ r ∈ records, r.level = .error) (hl : l.level.number ≤ LogLevel.error.number) :
    ∃ r ∈ l.keep records, r.level = .error := by
  obtain ⟨r, hr, hlevel⟩ := h
  exact ⟨r, List.mem_filter.mpr ⟨hr, by simpa [hlevel] using hl⟩, hlevel⟩

/-- An export writes its whole document, or reports an error and changes nothing, or ends with one
of the errors of the YAML notation that there is no report for and changes nothing. -/
theorem runExport_ends (t : FileTree) (l : Logging) (s : Settings) :
    Exported t l (exportOf t s) (runExport t l s) := by
  generalize he : exportOf t s = e
  unfold runExport outcomeOf
  rw [he, Job.run]
  cases hrun : e.run t [] with
  | mk x rs =>
    cases x with
    | ok result =>
      obtain ⟨t', shown⟩ := result
      obtain ⟨d, text, mid, hd, htext, houtput, hothers⟩ := Export.written_of_run t e hrun
      rw [reporting_of_ok hrun]
      exact .written d text (congrArg Prod.fst hd) htext rfl houtput hothers
    | error x =>
      rw [reporting_of_error hrun]
      have htold := Export.run_failsOnly t e [] x rs hrun
      cases htold with
      | report h =>
        obtain ⟨message, hmessage⟩ := Option.isSome_iff_exists.mp h
        refine .reported ?_ (exists_kept ⟨⟨.error, message⟩, ?_, rfl⟩) rfl
        · show exportEnding x = _
          unfold exportEnding
          rw [h, Bool.or_true]
          rfl
        · rw [hmessage]
          exact List.mem_append_right _ List.mem_cons_self
      | reported hr hlevel =>
        exact .reported rfl (exists_kept ⟨_, List.mem_append_left _ hr, hlevel⟩) rfl
      | @yaml y h =>
        refine .failed y h ?_ rfl
        show exportEnding (.mapping (.yaml y)) = _
        have hreport : (CommandError.mapping (.yaml y)).report? = none := h
        unfold exportEnding
        rw [hreport]
        rfl

/-- Arguments that are accepted for an export run it with their settings. -/
theorem run_export {t t₁ : FileTree} {l : Logging} {env : List (String × String)}
    {args args₁ args₂ : List String} {root group s : Settings}
    (hroot : settleGroup t env [programName] rootParameters (commands.map Command.group) args =
      .ok (root, "export", args₁))
    (hlogging : startLogging t root = .ok (t₁, l))
    (hgroup : settleGroup t₁ env [programName, "export"] [.help] ["openapi"] args₁ =
      .ok (group, "openapi", args₂))
    (hall : settleAll t₁ env [programName, "export", "openapi"] exportParameters args₂ = .ok s) :
    run t env args = runExport t₁ l s := by
  have hrun : run t env args = runGroup t₁ l env "export" args₁ := by
    unfold run
    simp only [hroot, hlogging]
  have hnames : (commands.filter fun c => c.group == "export").map Command.name = ["openapi"] :=
    rfl
  have hfind : (commands.filter fun c => c.group == "export").find? (fun c => c.name == "openapi") =
      some ⟨"export", "openapi", exportParameters, runExport⟩ := rfl
  have hpath : [programName, "export"] ++ ["openapi"] = [programName, "export", "openapi"] := rfl
  rw [hrun]
  unfold runGroup
  simp only [hnames, hgroup, hfind, hpath, hall]

end CommandLine

end GraphPaths
