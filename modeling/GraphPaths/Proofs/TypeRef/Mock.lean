import GraphPaths.Proofs.TypeRef

/-!
# Mock values and the form of types

A mock value is looked up by the text of a type, while its class, and whether it is a scalar, go by
its form. The two agree whatever the names are: the text of a wrapped type is no key of the table
(`mock_list`, `mock_nonNull`), and so only a bare scalar has a value (`mock_ne_null_iff`), which is
of the JSON type that the class names (`jsonType?_mock`). The class depends on what follows the
outermost marks for "not null" (`classify_core`).
-/

namespace GraphPaths

namespace TypeRef

/-- The type without the marks for "not null" around it. -/
def core : TypeRef → TypeRef
  | .nonNull inner => inner.core
  | t => t

/-- The classes of types that have a value of their own in JSON. -/
def primitiveClasses : List String := ["string", "integer", "number", "boolean"]

/-! ## Forms -/

theorem isScalarLike_leaf : ∀ t : TypeRef, t.leaf.isScalarLike = t.isScalarLike
  | .nonNull inner => isScalarLike_leaf inner
  | .list item => isScalarLike_leaf item
  | .scalar _ | .object _ _ | .other _ => rfl

/-- No wrapper stands inside all wrappers. -/
theorem wrappers_leaf : ∀ t : TypeRef, t.leaf.wrappers = []
  | .nonNull inner => wrappers_leaf inner
  | .list item => wrappers_leaf item
  | .scalar _ | .object _ _ | .other _ => rfl

/-- A type is like a scalar if a scalar stands inside all wrappers. -/
theorem isScalarLike_iff (t : TypeRef) : t.isScalarLike ↔ ∃ name, t.leaf = .scalar name := by
  have hwrappers := wrappers_leaf t
  rw [← isScalarLike_leaf]
  cases hleaf : t.leaf with
  | scalar name => simp [isScalarLike]
  | object name fields => simp [isScalarLike]
  | other name => simp [isScalarLike]
  | nonNull inner => simp [hleaf, wrappers] at hwrappers
  | list item => simp [hleaf, wrappers] at hwrappers

theorem core_iterate_nonNull (n : Nat) (t : TypeRef) : (nonNull^[n] t).core = t.core := by
  induction n with
  | zero => rfl
  | succ n ih =>
    rw [Function.iterate_succ_apply']
    exact ih

/-- The core of a type is no mark for "not null", and such marks around it give the type. -/
theorem exists_iterate_core : ∀ t : TypeRef, ∃ n, t = nonNull^[n] t.core
  | .nonNull inner => by
    obtain ⟨n, hn⟩ := exists_iterate_core inner
    refine ⟨n + 1, ?_⟩
    rw [Function.iterate_succ_apply']
    exact congrArg nonNull hn
  | .scalar _ | .list _ | .object _ _ | .other _ => ⟨0, rfl⟩

/-! ## Classes -/

theorem classify_scalar (name : String) : (TypeRef.scalar name).classify = scalarJsonType name :=
  scalarTypes_lookup name

theorem classify_core : ∀ t : TypeRef, t.core.classify = t.classify
  | .nonNull inner => classify_core inner
  | .scalar _ | .list _ | .object _ _ | .other _ => rfl

theorem classify_iterate_nonNull (n : Nat) (t : TypeRef) :
    (nonNull^[n] t).classify = t.classify := by
  rw [← classify_core, core_iterate_nonNull, classify_core]

theorem scalarJsonType_ne_array (name : String) : scalarJsonType name ≠ "array" := by
  unfold scalarJsonType
  split <;> decide

/-- The class of a type is an array if a list comes first, but for marks for "not null". -/
theorem classify_eq_array_iff : ∀ t : TypeRef, t.classify = "array" ↔ ∃ item, t.core = .list item
  | .nonNull inner => classify_eq_array_iff inner
  | .list item => ⟨fun _ => ⟨item, rfl⟩, fun _ => rfl⟩
  | .scalar name => by
    rw [classify_scalar]
    exact ⟨fun h => absurd h (scalarJsonType_ne_array name), nofun⟩
  | .object _ _ | .other _ => ⟨fun h => absurd h (by decide : unknownType ≠ "array"), nofun⟩

/-- Only of scalars is the class one of a value of its own. -/
theorem isScalarLike_of_classify : ∀ {t : TypeRef}, t.classify ∈ primitiveClasses → t.isScalarLike
  | .nonNull inner, h => isScalarLike_of_classify (t := inner) h
  | .scalar _, _ => rfl
  | .list _, h => absurd h (by decide : "array" ∉ primitiveClasses)
  | .object _ _, h | .other _, h => absurd h (by decide : unknownType ∉ primitiveClasses)

/-! ## Mock values -/

theorem mockScalars_lookup_eq_none_iff {name : String} :
    mockScalars.lookup name = none ↔ name ∉ mockScalars.map Prod.fst := by
  rw [List.lookup_eq_none_iff]
  simp only [bne_iff_ne, List.mem_map, not_exists, not_and]
  exact forall₂_congr fun p _ => ne_comm

/-- The values of the table are not null. -/
theorem mock_scalar_ne_null_iff (name : String) :
    (TypeRef.scalar name).mock ≠ .null ↔ name ∈ mockScalars.map Prod.fst := by
  have hmock : (TypeRef.scalar name).mock = (mockScalars.lookup name).getD .null := rfl
  rw [hmock]
  cases hlookup : mockScalars.lookup name with
  | none => simpa using mockScalars_lookup_eq_none_iff.mp hlookup
  | some v =>
    have hvalues : ∀ x ∈ mockScalars, x.2 ≠ .null := by simp [mockScalars]
    have hmem := mem_of_lookup hlookup
    exact iff_of_true (hvalues _ hmem) (List.mem_map_of_mem hmem)

/-- Only a scalar that stands bare and is in the table has a value. -/
theorem mock_ne_null_iff : ∀ t : TypeRef,
    t.mock ≠ .null ↔ ∃ name ∈ mockScalars.map Prod.fst, t = .scalar name
  | .scalar name => by
    rw [mock_scalar_ne_null_iff]
    exact ⟨fun h => ⟨name, h, rfl⟩, fun ⟨_, h, heq⟩ => TypeRef.scalar.inj heq ▸ h⟩
  | .nonNull inner => iff_of_false (fun h => h (mock_nonNull inner)) nofun
  | .list item => iff_of_false (fun h => h (mock_list item)) nofun
  | .object _ _ | .other _ => iff_of_false (fun h => h rfl) nofun

/-- A value is of the JSON type that the class names. -/
theorem jsonType?_mock {t : TypeRef} (h : t.mock ≠ .null) : t.mock.jsonType? = some t.classify := by
  obtain ⟨name, -, rfl⟩ := (mock_ne_null_iff t).mp h
  rw [classify_scalar]
  exact (mock_scalar name).resolve_left h

end TypeRef

/-! ## Agreement -/

/-- The table of mock values, which goes by texts, agrees with the form of types.

A type is like a scalar if a scalar stands inside all its wrappers. It has a value other than null
just if it is itself one of the four scalars of the table, whatever other texts look like those of
the table, and then its class is the JSON type of the value. Marks for "not null" around a type make
no difference to its class, which is an array if a list comes first but for such marks, and which is
that of a value of its own only where the type is like a scalar. -/
theorem mock_agrees_with_form (t : TypeRef) :
    (t.isScalarLike ↔ ∃ name, t.leaf = .scalar name) ∧
    (t.mock ≠ .null ↔ ∃ name ∈ ["String", "Int", "Float", "Boolean"], t = .scalar name) ∧
    (t.mock ≠ .null → t.mock.jsonType? = some t.classify) ∧
    (∀ n, (TypeRef.nonNull^[n] t).classify = t.classify) ∧
    (t.classify = "array" ↔ ∃ n item, t = TypeRef.nonNull^[n] (.list item)) ∧
    (t.classify ∈ ["string", "integer", "number", "boolean"] → t.isScalarLike) := by
  refine ⟨t.isScalarLike_iff, t.mock_ne_null_iff, TypeRef.jsonType?_mock,
    fun n => t.classify_iterate_nonNull n, ?_, TypeRef.isScalarLike_of_classify⟩
  rw [t.classify_eq_array_iff]
  constructor
  · rintro ⟨item, hcore⟩
    obtain ⟨n, hn⟩ := t.exists_iterate_core
    exact ⟨n, item, hcore ▸ hn⟩
  · rintro ⟨n, item, rfl⟩
    exact ⟨item, TypeRef.core_iterate_nonNull n _⟩

/-- A scalar has a value of its class, which it still has, but no value, where it must not be null.
A name that looks like the text of such a type has neither, and an object is no scalar whatever its
name is. -/
theorem lookalikes_agree :
    (TypeRef.scalar "Int").mock ≠ .null ∧
    (TypeRef.scalar "Int").mock.jsonType? = some (TypeRef.scalar "Int").classify ∧
    (TypeRef.nonNull (.scalar "Int")).classify ∈ ["string", "integer", "number", "boolean"] ∧
    (TypeRef.nonNull (.scalar "Int")).isScalarLike ∧
    (TypeRef.nonNull (.scalar "Int")).mock = .null ∧
    (TypeRef.scalar "Int!").mock = .null ∧ ¬(TypeRef.object "Int" []).isScalarLike := by
  obtain ⟨-, hmock, htype, -⟩ := mock_agrees_with_form (.scalar "Int")
  obtain ⟨-, hnonNull, -, -, -, hprimitive⟩ := mock_agrees_with_form (.nonNull (.scalar "Int"))
  obtain ⟨-, hmarked, -⟩ := mock_agrees_with_form (.scalar "Int!")
  obtain ⟨hobject, -⟩ := mock_agrees_with_form (.object "Int" [])
  have hvalue : (TypeRef.scalar "Int").mock ≠ .null := hmock.mpr ⟨"Int", by decide, rfl⟩
  have hclass : (TypeRef.nonNull (.scalar "Int")).classify ∈
      ["string", "integer", "number", "boolean"] := by decide
  refine ⟨hvalue, htype hvalue, hclass, hprimitive hclass, ?_, ?_, ?_⟩
  · exact not_not.mp fun h => nomatch (hnonNull.mp h).choose_spec.2
  · refine not_not.mp fun h => ?_
    obtain ⟨name, hname, heq⟩ := hmarked.mp h
    exact absurd (TypeRef.scalar.inj heq ▸ hname) (by decide)
  · exact fun h => nomatch (hobject.mp h).choose_spec

end GraphPaths
