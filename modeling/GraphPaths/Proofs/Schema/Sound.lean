import GraphPaths.Proofs.Paths
import GraphPaths.Schema.Validation

/-!
# Schemas without flaws

The roots of a schema in which nothing is found wrong are objects (`kind_of_root`), so that they can
be asked for their fields, and then only a kind of operation that nobody knows keeps the schema from
having a document (`transformWith_eq_error`).
-/

namespace GraphPaths

namespace Schema

variable {s : Schema}

/-- A schema without messages has no flaws. -/
theorem flaws_of_problems (h : s.problems = .ok []) : s.flaws = .ok [] := by
  obtain ⟨flaws, hflaws, h⟩ := bind_eq_ok.mp h
  have hnil := List.map_eq_nil_iff.mp (Except.ok.inj h)
  have := List.map_eq_nil_iff.mp (List.append_eq_nil_iff.mp hnil).1
  rw [hflaws, this]

theorem rootFlaws_of_flaws (h : s.flaws = .ok []) : s.rootFlaws = [] := by
  obtain ⟨directives, -, h⟩ := bind_eq_ok.mp h
  obtain ⟨types, -, h⟩ := bind_eq_ok.mp h
  have hnil := Except.ok.inj h
  rw [List.append_assoc, List.append_assoc] at hnil
  exact (List.append_eq_nil_iff.mp hnil).1

/-- The roots of a schema without flaws are objects. -/
theorem kind_of_root (h : s.rootFlaws = []) {o : Graphql.OperationType} {name : String}
    (hroot : s.root? o = some name) : s.kind? name = some .object := by
  unfold rootFlaws at h
  have hkinds := (List.append_eq_nil_iff.mp (List.append_eq_nil_iff.mp h).1).2
  have hmem : (o, name) ∈ operations.filterMap fun o => (s.root? o).map (o, ·) := by
    refine List.mem_filterMap.mpr ⟨o, ?_, by rw [hroot]; rfl⟩
    cases o <;> decide
  have := List.filter_eq_nil_iff.mp (List.map_eq_nil_iff.mp hkinds) _ hmem
  simpa using this

/-- The roots of a schema without messages can be asked for their fields. -/
theorem hasRootFields_of_problems (h : s.problems = .ok []) (kind : OperationKind) :
    s.hasRootFields kind := by
  unfold hasRootFields
  cases hroot : s.root? kind.operation with
  | none => rfl
  | some name =>
    have hkind := kind_of_root (rootFlaws_of_flaws (flaws_of_problems h)) hroot
    obtain ⟨shape, hshape, hobject⟩ := Option.map_eq_some_iff.mp hkind
    simp only [hshape]
    cases shape <;> simp_all [TypeShape.kind]

end Schema

/-! ## Documents of schemas whose roots can be asked -/

section

variable {s : Schema} {named : List (String × Value)} {kinds : Kinds}
  (hroots : ∀ kind, s.hasRootFields kind)
include hroots

/-- Of a schema whose roots can be asked there are examples for all kinds that are known. -/
theorem examples_eq_error {withName : Bool} {e : ExampleError}
    (h : s.examples (.named named) withName kinds = .error e) :
    requestedKinds kinds = .error e := by
  unfold Schema.examples at h
  rw [(buildExamples_yields s.roots (.named named) withName kinds).run_fst] at h
  have hrequested : ∀ requested kind,
      ∃ ex, requestedExamples s.roots (.named named) withName requested kind = .ok ex := by
    intro requested kind
    unfold requestedExamples
    split
    · exact Schema.rootExamples_named withName named (hroots kind)
    · exact ⟨[], rfl⟩
  rcases bind_eq_error.mp h with h | ⟨requested, -, h⟩
  · exact h
  · obtain ⟨q, hq⟩ := hrequested requested .query
    obtain ⟨m, hm⟩ := hrequested requested .mutation
    rw [hq] at h
    simp only [hm] at h
    contradiction

/-- A schema whose roots can be asked has a document for all kinds that are known. -/
theorem transformWith_eq_error {o : Options} (ho : o.exampleValues = .named named)
    {e : TransformError} (h : (transformWith s o kinds).run.1 = .error e) :
    ∃ x, requestedKinds kinds = .error x ∧ e = .examples x := by
  rw [(transformWith_yields s o kinds).run_fst] at h
  rcases bind_eq_error.mp h with h | ⟨ex, hex, h⟩
  · obtain ⟨x, hx, rfl⟩ := mapError_eq_error.mp h
    rw [ho] at hx
    exact ⟨x, examples_eq_error hroots hx, rfl⟩
  · obtain ⟨parts, hparts⟩ := exists_apiParts o (fits_of_examples (mapError_eq_ok.mp hex))
    rw [hparts] at h
    contradiction

end

end GraphPaths
