import GraphPaths.Proofs.Examples.Kinds

/-!
# Examples of the roots of a schema

In a coherent schema the examples of a root are those of its fields, in the order of the fields
(`shows_of_rootExamples`), so that their keys are distinct. They can be had if the root is a type
with fields and the example values are values by name (`rootExamples_named`).
-/

namespace GraphPaths

namespace Schema

/-- The fields of the root of a kind. -/
def rootFields (s : Schema) (kind : OperationKind) : List SchemaField :=
  (((s.root? kind.operation).bind s.shape?).map TypeShape.fields).getD []

/-- Whether the root of a kind, if there is one, can be asked for its fields. -/
def hasRootFields (s : Schema) (kind : OperationKind) : Bool :=
  match s.root? kind.operation with
  | none => true
  | some name =>
    match s.shape? name with
    | some (.object ..) | some (.interface ..) => true
    | some (.inputObject _ fields) => fields.isEmpty
    | _ => false

/-- Under the name of a field stands the example for it. -/
def Shows (s : Schema) (values : ExampleValues) (withName : Bool) (kind : OperationKind)
    (f : SchemaField) (entry : String × Example) : Prop :=
  entry.1 = f.name ∧ ∃ rootName, s.root? kind.operation = some rootName ∧
    exampleFor (s.typeRef true) kind rootName values withName f = .ok entry.2

theorem root?_roots (s : Schema) (kind : OperationKind) :
    s.roots.root? kind = (s.root? kind.operation).map s.rootOf := by
  cases kind <;> rfl

variable {s : Schema} {values : ExampleValues} {withName : Bool} {kind : OperationKind}

theorem nodup_rootFields (hs : s.Coherent) (kind : OperationKind) :
    ((s.rootFields kind).map SchemaField.name).Nodup := by
  unfold rootFields
  cases hshape : (s.root? kind.operation).bind s.shape? with
  | none => exact List.nodup_nil
  | some shape =>
    obtain ⟨name, -, hname⟩ := Option.bind_eq_some_iff.mp hshape
    obtain ⟨t, ht, rfl⟩ := mem_of_shape? hname
    exact hs.fieldNames t ht

/-- Entries that are made one by one show the fields. -/
theorem shows_of_mapM {rootName : String} (hroot : s.root? kind.operation = some rootName)
    {fields : List SchemaField} {ex : Examples}
    (h : fields.mapM (keyedExample s.roots values withName kind rootName) = .ok ex) :
    List.Forall₂ (s.Shows values withName kind) fields ex := by
  refine (forall₂_of_mapM h).imp fun f entry hentry => ?_
  obtain ⟨e, he, rfl⟩ := map_eq_ok.mp hentry
  exact ⟨rfl, rootName, hroot, mapError_eq_ok.mp he⟩

/-- The examples of a root show its fields, in their order. -/
theorem shows_of_rootExamples {ex : Examples}
    (h : rootExamples s.roots values withName kind = .ok ex) :
    List.Forall₂ (s.Shows values withName kind) (s.rootFields kind) ex := by
  unfold rootExamples at h
  rw [root?_roots] at h
  unfold rootFields
  cases hroot : s.root? kind.operation with
  | none =>
    rw [hroot] at h
    obtain rfl := Except.ok.inj h
    exact .nil
  | some name =>
    rw [hroot] at h
    simp only [Option.map_some, rootOf, fieldExamples] at h
    simp only [Option.bind_some]
    cases hshape : s.shape? name with
    | none =>
      rw [hshape] at h
      contradiction
    | some shape =>
      rw [hshape] at h
      cases shape with
      | object interfaces fields => exact shows_of_mapM hroot h
      | interface interfaces fields => exact shows_of_mapM hroot h
      | inputObject isOneOf fields =>
        cases fields with
        | nil =>
          obtain rfl := Except.ok.inj h
          exact .nil
        | cons => contradiction
      | _ => contradiction

theorem keys_of_shows {fields : List SchemaField} {ex : Examples}
    (h : List.Forall₂ (s.Shows values withName kind) fields ex) :
    Examples.keys ex = fields.map SchemaField.name := by
  induction h with
  | nil => rfl
  | @cons f entry _ _ hf _ ih =>
    obtain ⟨key, e⟩ := entry
    obtain rfl : key = f.name := hf.1
    rw [Examples.keys_cons, ih, List.map_cons]

theorem nodup_of_rootExamples (hs : s.Coherent) {ex : Examples}
    (h : rootExamples s.roots values withName kind = .ok ex) : (Examples.keys ex).Nodup :=
  keys_of_shows (shows_of_rootExamples h) ▸ nodup_rootFields hs kind

/-! ## Values by name -/

theorem variableValues_named (args : List SchemaInput) (named : List (String × Value)) :
    variableValues args (.named named) =
      .ok (args.map fun a => (a.name, (named.lookup a.name).getD defaultVariable)) := by
  refine mapM_of_forall₂ ?_
  rw [List.forall₂_map_right_iff]
  exact List.forall₂_same.mpr fun _ _ => rfl

theorem exampleFor_named (refOf : Graphql.TypeExpr → TypeRef) (withName : Bool)
    (kind : OperationKind) (rootName : String) (named : List (String × Value)) (f : SchemaField) :
    ∃ e, exampleFor refOf kind rootName (.named named) withName f = .ok e := by
  unfold exampleFor requestFor
  rw [variableValues_named]
  exact ⟨_, rfl⟩

/-- With values by name there are examples of every root that can be asked for its fields. -/
theorem rootExamples_named (withName : Bool) (named : List (String × Value))
    (h : s.hasRootFields kind) :
    ∃ ex, rootExamples s.roots (.named named) withName kind = .ok ex := by
  have hfields : ∀ (rootName : String) (fields : List SchemaField), ∃ ex,
      fields.mapM (keyedExample s.roots (.named named) withName kind rootName) = .ok ex := by
    refine fun rootName fields => exists_mapM_ok fun f _ => ?_
    obtain ⟨e, he⟩ := exampleFor_named (s.typeRef true) withName kind rootName named f
    exact ⟨(f.name, e), map_eq_ok.mpr ⟨e, mapError_eq_ok.mpr he, rfl⟩⟩
  unfold rootExamples
  rw [root?_roots]
  unfold hasRootFields at h
  cases hroot : s.root? kind.operation with
  | none => exact ⟨[], rfl⟩
  | some name =>
    simp only [hroot] at h
    simp only [Option.map_some, rootOf, fieldExamples]
    cases hshape : s.shape? name with
    | none => simp [hshape] at h
    | some shape =>
      simp only [hshape] at h
      cases shape with
      | object interfaces fields => exact hfields name fields
      | interface interfaces fields => exact hfields name fields
      | inputObject isOneOf fields =>
        cases fields with
        | nil => exact ⟨[], rfl⟩
        | cons => contradiction
      | _ => contradiction

end Schema

end GraphPaths
