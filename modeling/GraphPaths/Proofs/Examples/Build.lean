import GraphPaths.Proofs.Examples.Merge
import GraphPaths.Proofs.Outcome
import GraphPaths.Proofs.Schema.Coherence

/-!
# What building examples comes to

`rootExamples` are the examples of one root under the names of its fields. Building examples comes
to the examples of the query root merged with those of the mutation root, each if it is asked for
(`buildExamples_yields`), whatever the log has recorded.
-/

namespace GraphPaths

variable (roots : Roots) (values : ExampleValues) (withName : Bool)

/-! ## One root -/

/-- The example for a field of a root under the name of the field. -/
def keyedExample (kind : OperationKind) (rootName : String) (f : SchemaField) :
    Except ExampleError (String × Example) :=
  ((exampleFor roots.refOf kind rootName values withName f).mapError .values).map (f.name, ·)

/-- The examples for the fields of a root. -/
def fieldExamples (kind : OperationKind) (root : Root) : Except ExampleError Examples :=
  match root.fields with
  | .fields fields => fields.mapM (keyedExample roots values withName kind root.name)
  | .names [] => .ok []
  | .names (_ :: _) => .error .noFields
  | .unresolvable reason => .error (.unresolvable root.name reason)
  | .noMapping => .error (.noMapping root.name)
  | .failure kind message => .error (.failure kind message)
  | .absent => .error .noFields

/-- The examples for the root of a kind. A root that is not there has none. -/
def rootExamples (kind : OperationKind) : Except ExampleError Examples :=
  match roots.root? kind with
  | none => .ok []
  | some root => fieldExamples roots values withName kind root

theorem noteReplaced_yields (rootName key : String) (ex : Examples) :
    (noteReplaced rootName key ex).Yields (.ok ()) := by
  unfold noteReplaced
  split
  · exact Job.yields_log _ _
  · exact Job.yields_pure ()

/-- The example for the first field is put in before the others are merged in. -/
theorem map_merge_mapM_cons (kind : OperationKind) (rootName : String) (f : SchemaField)
    (fs : List SchemaField) (ex : Examples) :
    ((f :: fs).mapM (keyedExample roots values withName kind rootName)).map ex.merge =
      ((exampleFor roots.refOf kind rootName values withName f).mapError ExampleError.values >>=
        fun e => (fs.mapM (keyedExample roots values withName kind rootName)).map
          (ex.put f.name e).merge) := by
  rw [List.mapM_cons]
  unfold keyedExample
  cases (exampleFor roots.refOf kind rootName values withName f).mapError ExampleError.values with
  | error e => rfl
  | ok e =>
    show Except.map _ (List.mapM (keyedExample roots values withName kind rootName) fs >>= _) = _
    show _ = Except.map _ (List.mapM (keyedExample roots values withName kind rootName) fs)
    cases List.mapM (keyedExample roots values withName kind rootName) fs <;> rfl

/-- The examples for fields are merged into those that are there. -/
theorem addFields_yields (kind : OperationKind) (rootName : String) :
    ∀ (fs : List SchemaField) (ex : Examples),
      (addFields roots.refOf kind rootName values withName fs ex).Yields
        ((fs.mapM (keyedExample roots values withName kind rootName)).map ex.merge)
  | [], ex => Job.yields_pure ex
  | f :: fs, ex => by
    rw [map_merge_mapM_cons]
    refine (noteReplaced_yields rootName f.name ex).then ((Job.yields_ofExcept _).bind ?_)
    intro e _
    exact (Job.yields_log _ _).then (addFields_yields kind rootName fs (ex.put f.name e))

theorem addRoot_yields (kind : OperationKind) (root : Root) (ex : Examples) :
    (addRoot roots.refOf kind values withName root ex).Yields
      ((fieldExamples roots values withName kind root).map ex.merge) := by
  obtain ⟨name, fields⟩ := root
  cases fields with
  | fields fs =>
    exact (Job.yields_log _ _).then (addFields_yields roots values withName kind name fs ex)
  | names names =>
    cases names with
    | nil => exact (Job.yields_log _ _).then (Job.yields_pure ex)
    | cons key keys =>
      exact (Job.yields_log _ _).then ((noteReplaced_yields name key ex).then (Job.yields_throw _))
  | _ => exact Job.yields_throw _

/-! ## Both roots -/

/-- The examples for the root of a kind, or none if it is not asked for. -/
def requestedExamples (requested : List OperationKind) (kind : OperationKind) :
    Except ExampleError Examples :=
  if kind ∈ requested then rootExamples roots values withName kind else .ok []

theorem addKind_yields (requested : List OperationKind) (ex : Examples) (kind : OperationKind) :
    (addKind roots values withName requested ex kind).Yields
      ((requestedExamples roots values withName requested kind).map ex.merge) := by
  unfold addKind requestedExamples rootExamples
  by_cases hk : kind ∈ requested
  · rw [if_pos hk, if_pos (by simpa using hk)]
    cases roots.root? kind with
    | none => exact (Job.yields_log _ _).then (Job.yields_pure ex)
    | some root => exact addRoot_yields roots values withName kind root ex
  · rw [if_neg hk, if_neg (by simpa using hk)]
    exact Job.yields_pure ex

/-- The examples of the query root come first; those of the mutation root are merged into them. -/
theorem buildExamples_yields (kinds : Kinds) :
    (buildExamples roots values kinds withName).Yields (do
      let requested ← requestedKinds kinds
      let query ← requestedExamples roots values withName requested .query
      let mutation ← requestedExamples roots values withName requested .mutation
      pure (Examples.merge (Examples.merge [] query) mutation)) := by
  refine (Job.yields_ofExcept _).bind fun requested _ => ?_
  have hboth : (do
      let query ← requestedExamples roots values withName requested .query
      let mutation ← requestedExamples roots values withName requested .mutation
      pure (Examples.merge (Examples.merge [] query) mutation)) =
      ((requestedExamples roots values withName requested .query).map (Examples.merge []) >>=
        fun ex => (requestedExamples roots values withName requested .mutation).map ex.merge) := by
    cases requestedExamples roots values withName requested .query with
    | error e => rfl
    | ok query => cases requestedExamples roots values withName requested .mutation <;> rfl
  have hfold : OperationKind.all.foldlM (addKind roots values withName requested) [] =
      addKind roots values withName requested [] .query >>= fun ex =>
        addKind roots values withName requested ex .mutation := by
    unfold OperationKind.all
    simp only [List.foldlM_cons, List.foldlM_nil, bind_pure]
  rw [hboth, hfold]
  exact (addKind_yields roots values withName requested [] .query).bind fun ex _ =>
    addKind_yields roots values withName requested ex .mutation

/-! ## Example values by name -/

section

variable {values values' : ExampleValues} (h : ∀ name, values.find? name = values'.find? name)
include h

theorem requestFor_congr (kind : OperationKind) (f : SchemaField) (withName : Bool) :
    requestFor kind f values withName = requestFor kind f values' withName := by
  have hvalues : variableValues f.arguments values = variableValues f.arguments values' := by
    unfold variableValues
    simp only [h]
  unfold requestFor
  rw [hvalues]

theorem requestedExamples_congr (roots : Roots) (withName : Bool) (requested : List OperationKind)
    (kind : OperationKind) : requestedExamples roots values withName requested kind =
      requestedExamples roots values' withName requested kind := by
  have hkeyed : keyedExample roots values withName = keyedExample roots values' withName := by
    funext kind rootName f
    unfold keyedExample exampleFor
    rw [requestFor_congr h]
  have hfields : fieldExamples roots values withName = fieldExamples roots values' withName := by
    funext kind root
    unfold fieldExamples
    rw [hkeyed]
  unfold requestedExamples rootExamples
  rw [hfields]

end

end GraphPaths
