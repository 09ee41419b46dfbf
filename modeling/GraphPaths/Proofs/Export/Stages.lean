import GraphPaths.Proofs.Examples.Exposed
import GraphPaths.Proofs.Export
import GraphPaths.Proofs.Schema.Loading

/-!
# Stages of an export

An export loads the schema, requires it to be free of flaws, reads the options and puts the document
together. What each stage comes to does not depend on what was recorded before it, and so the
document of an export is that of its schema and its options (`Export.document_yields`).
-/

namespace GraphPaths

namespace Job

variable {ε α β : Type}

theorem Yields.self {job : Job ε α} {x : Except ε α} (h : job.Yields x) : job.Yields job.run.1 :=
  h.run_fst ▸ h

/-- A step whose outcome is known and one that does not depend on what was recorded. -/
theorem Yields.bind_self {job : Job ε α} {x : Except ε α} {next : α → Job ε β} (h : job.Yields x)
    (hn : ∀ a, (next a).Yields (next a).run.1) : (job >>= next).Yields (job >>= next).run.1 :=
  (h.bind fun a _ => hn a).self

/-- Work over a list whose steps change nothing changes nothing. -/
theorem yields_forIn {f : α → β → Job ε (ForInStep β)}
    (hf : ∀ x b, (f x b).Yields (.ok (.yield b))) :
    ∀ (xs : List α) (b : β), (forIn xs b f).Yields (.ok b)
  | [], b => yields_pure b
  | x :: xs, b => by
    rw [List.forIn_cons]
    exact (hf x b).bind (y := fun _ => .ok b) fun step hstep =>
      Except.ok.inj hstep ▸ yields_forIn hf xs b

end Job

/-- A schema may be exported if nothing is found wrong in it. -/
theorem requireSound_yields (s : Schema) : (requireSound s).Yields (do
    let problems ← s.problems.mapError CommandError.search
    if problems.isEmpty then .ok () else .error .flawedSchema) := by
  refine (Job.yields_ofExcept _).bind fun problems _ => ?_
  cases problems with
  | nil => exact Job.yields_pure ()
  | cons problem problems =>
    refine (Job.yields_log _ _).then ((Job.yields_forIn (fun _ _ => ?_) _ _).then
      ((Job.yields_log _ _).then (Job.yields_throw _)))
    exact (Job.yields_log _ _).then (Job.yields_pure _)

theorem requireSound_eq_ok_iff {s : Schema} :
    (requireSound s).run.1 = .ok () ↔ s.problems = .ok [] := by
  rw [(requireSound_yields s).run_fst, bind_eq_ok]
  simp only [mapError_eq_ok]
  constructor
  · rintro ⟨problems, hproblems, h⟩
    cases problems with
    | nil => exact hproblems
    | cons => contradiction
  · exact fun h => ⟨[], h, rfl⟩

theorem loadMapping_yields (t : FileTree) (path : Option FilePath) :
    (loadMapping t path).Yields (loadMapping t path).run.1 := by
  cases path with
  | none => exact (Job.yields_pure _).self
  | some p =>
    refine (Job.yields_ofExcept _).bind_self fun text => (Job.yields_ofExcept _).bind_self fun v =>
      (Job.yields_log _ _).bind_self fun _ => ?_
    cases v.bare with
    | null => exact (Job.yields_pure _).self
    | map entries => exact (Job.yields_pure _).self
    | _ => exact (Job.yields_throw _).self

namespace Export

/-- The options of an export: those of a file with some of them changed, and with the example values
of another file added if there is one. -/
theorem readOptions_yields (t : FileTree) (e : Export) : (readOptions t e).Yields (do
    let given ← ((loadMapping t e.options).run.1).mapError CommandError.mapping
    let o ← (Options.ofValue given).mapError CommandError.options
    match e.exampleValues with
    | none => pure (o.change e.changes)
    | some p => do
      let values ← ((loadMapping t (some p)).run.1).mapError CommandError.mapping
      pure ((o.change e.changes).addExampleValues values)) := by
  refine ((loadMapping_yields t e.options).mapError _).bind fun given _ =>
    (Job.yields_ofExcept _).bind fun o _ => ?_
  cases e.exampleValues with
  | none => exact Job.yields_pure _
  | some p =>
    exact ((loadMapping_yields t (some p)).mapError _).bind fun values _ => Job.yields_pure _

/-- The document of an export is that of its schema and its options. -/
theorem document_yields (t : FileTree) (e : Export) : (document t e).Yields (do
    let s ← ((loadSchema t e.schemas).run.1).mapError CommandError.schemaFiles
    (requireSound s).run.1
    let o ← (readOptions t e).run.1
    ((transformWith s o (kindsOf e.operations)).run.1).mapError CommandError.transform) := by
  refine ((loadSchema_yields t e.schemas).self.mapError _).bind fun s _ =>
    (requireSound_yields s).self.bind fun _ _ => (readOptions_yields t e).self.bind fun o _ => ?_
  exact (transformWith_yields s o _).self.mapError _

/-- A schema without flaws has the document of its options, or none for the same reason. -/
theorem document_of_sound {t : FileTree} {e : Export} {s : Schema} {o : Options}
    (hs : (loadSchema t e.schemas).run.1 = .ok s) (hsound : s.problems = .ok [])
    (ho : (readOptions t e).run.1 = .ok o) : (document t e).run.1 =
      ((transformWith s o (kindsOf e.operations)).run.1).mapError .transform := by
  rw [(document_yields t e).run_fst, hs]
  show ((requireSound s).run.1 >>= fun _ => (readOptions t e).run.1 >>= _) = _
  rw [requireSound_eq_ok_iff.mpr hsound, ho]
  rfl

theorem document_eq_ok_iff {t : FileTree} {e : Export} {d : ApiDocument} :
    (document t e).run.1 = .ok d ↔ ∃ s o, (loadSchema t e.schemas).run.1 = .ok s ∧
      s.problems = .ok [] ∧ (readOptions t e).run.1 = .ok o ∧
      (transformWith s o (kindsOf e.operations)).run.1 = .ok d := by
  rw [(document_yields t e).run_fst]
  simp only [bind_eq_ok, mapError_eq_ok]
  constructor
  · rintro ⟨s, hs, u, hu, o, ho, hd⟩
    exact ⟨s, o, hs, requireSound_eq_ok_iff.mp hu, ho, hd⟩
  · rintro ⟨s, o, hs, hproblems, ho, hd⟩
    exact ⟨s, hs, (), requireSound_eq_ok_iff.mpr hproblems, o, ho, hd⟩

end Export

end GraphPaths
