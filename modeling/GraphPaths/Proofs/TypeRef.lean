import GraphPaths.Proofs.Graphql.Types
import GraphPaths.Proofs.Response.Data

/-!
# Shapes of types

The shape of a type has the text of the type (`text_typeRef`), from which the type is read again
(`parseTypeWithin_text`). It has the wrappers of the type around a variant of the kind of the named
type (`wrappers_typeRef`, `isOf_typeRef`). Only a named object that is asked for its fields has them,
in their order, and the objects in these have none (`leaf_typeRef_object`, `isFlat_typeRef`). A type
and its two shapes are the same to all that looks at them (`typeRef_faithful`).
-/

namespace GraphPaths

open Graphql (TypeExpr TypeKind)

/-! ## Wrappers and what is inside them -/

/-- What stands around a type. -/
inductive Wrapper where
  | list
  | nonNull
deriving Repr, DecidableEq

/-- The wrappers of a type, from outside to inside. -/
def Graphql.TypeExpr.wrappers : TypeExpr → List Wrapper
  | .named _ => []
  | .list item => .list :: item.wrappers
  | .nonNull inner => .nonNull :: inner.wrappers

namespace TypeRef

/-- The wrappers of a shape, from outside to inside. -/
def wrappers : TypeRef → List Wrapper
  | .list item => .list :: item.wrappers
  | .nonNull inner => .nonNull :: inner.wrappers
  | _ => []

/-- What stands inside all wrappers. -/
def leaf : TypeRef → TypeRef
  | .list item => item.leaf
  | .nonNull inner => inner.leaf
  | t => t

/-- A shape without wrappers is that of a named type of a kind. -/
def IsOf (kind : TypeKind) (name : String) : TypeRef → Prop
  | .scalar n => n = name ∧ kind = .scalar
  | .object n _ => n = name ∧ kind = .object
  | .other n => n = name ∧ kind ≠ .scalar ∧ kind ≠ .object
  | _ => False

/-- Whether an object has no fields, inside whatever wrappers. -/
def isFlat (t : TypeRef) : Bool :=
  match t.leaf with
  | .object _ fields => fields.isEmpty
  | _ => true

end TypeRef

/-! ## One named type -/

section

variable {s : Schema} {name : String}

theorem isOf_leafRef {shape : TypeShape} (h : s.shape? name = some shape) :
    (s.leafRef name).IsOf shape.kind name := by
  unfold Schema.leafRef
  rw [h]
  cases shape <;> simp [TypeRef.IsOf, TypeShape.kind]

theorem isOf_expandedRef {shape : TypeShape} (h : s.shape? name = some shape) :
    (s.expandedRef name).IsOf shape.kind name := by
  unfold Schema.expandedRef Schema.leafRef
  rw [h]
  cases shape <;> simp [TypeRef.IsOf, TypeShape.kind]

theorem isFlat_leafRef : (s.leafRef name).isFlat := by
  unfold Schema.leafRef
  split <;> rfl

end

/-! ## Wrapped types -/

section

variable {leaf : String → TypeRef}

/-- A shape without wrappers is found inside them. -/
theorem leaf_wrapRef (h : ∀ name, (leaf name).leaf = leaf name) :
    ∀ t : TypeExpr, (Schema.wrapRef leaf t).leaf = leaf t.leaf
  | .named name => h name
  | .list item => leaf_wrapRef h item
  | .nonNull inner => leaf_wrapRef h inner

theorem wrappers_wrapRef (h : ∀ name, (leaf name).wrappers = []) :
    ∀ t : TypeExpr, (Schema.wrapRef leaf t).wrappers = t.wrappers
  | .named name => h name
  | .list item => congrArg (Wrapper.list :: ·) (wrappers_wrapRef h item)
  | .nonNull inner => congrArg (Wrapper.nonNull :: ·) (wrappers_wrapRef h inner)

theorem text_wrapRef (h : ∀ name, (leaf name).text = name) :
    ∀ t : TypeExpr, (Schema.wrapRef leaf t).text = t.text
  | .named name => h name
  | .list item => by rw [Schema.wrapRef, TypeRef.text, TypeExpr.text, text_wrapRef h item]
  | .nonNull inner => by rw [Schema.wrapRef, TypeRef.text, TypeExpr.text, text_wrapRef h inner]

end

/-! ## Types that are read from their texts -/

/-- The text of a type is read as the type. -/
theorem parseTypeWithin_text {t : TypeExpr} (ht : t.isWritable) {limit : Nat}
    (hdepth : t.depth ≤ limit) : Graphql.parseTypeWithin limit t.text = some t := by
  have hlex : (Graphql.lex t.text.toList).map Graphql.Lexeme.token = t.tokens ++ [.eof] := by
    have hlexes := Graphql.lexes_type ht rfl Graphql.lexes_nil
    rw [List.append_nil] at hlexes
    exact hlexes _ (Nat.lt_succ_self _)
  have heof : Graphql.Token.eof ≠ .punct .bang := nofun
  obtain ⟨type, rest, hread, rfl, hrest⟩ := Graphql.reads_typeExpr t ht hdepth heof rfl _ hlex
  obtain ⟨⟨token, left⟩, rfl, rfl⟩ := List.map_eq_singleton_iff.mp hrest
  unfold Graphql.parseTypeWithin
  rw [StateT.run, hread]

/-- The type that a text names in a schema, with no more than `limit` lists inside one another. -/
def Schema.typeOfText? (s : Schema) (limit : Nat) (text : String) : Option TypeExpr :=
  (Graphql.parseTypeWithin limit text).filter fun t => (s.shape? t.leaf).isSome

/-! ## Shapes in a schema -/

section

variable {s : Schema} {t : TypeExpr}

/-- What stands for the named type inside a shape. -/
def Schema.leafOf (s : Schema) (expand : Bool) : String → TypeRef :=
  if expand then s.expandedRef else s.leafRef

theorem typeRef_eq_wrapRef (h : (s.shape? t.leaf).isSome) (expand : Bool) :
    s.typeRef expand t = Schema.wrapRef (s.leafOf expand) t := by
  unfold Schema.typeRef Schema.leafOf
  rw [if_neg (by simpa using Option.isSome_iff_ne_none.mp h)]

/-- A shape is that of a named type. -/
structure TypeRef.IsNamed (name : String) (t : TypeRef) : Prop where
  text : t.text = name
  wrappers : t.wrappers = []
  leaf : t.leaf = t

theorem isNamed_leafRef (s : Schema) (name : String) : (s.leafRef name).IsNamed name := by
  unfold Schema.leafRef
  split <;> exact ⟨rfl, rfl, rfl⟩

theorem isNamed_leafOf (s : Schema) (expand : Bool) (name : String) :
    (s.leafOf expand name).IsNamed name := by
  have hexpanded : (s.expandedRef name).IsNamed name := by
    unfold Schema.expandedRef
    split
    · exact ⟨rfl, rfl, rfl⟩
    · exact isNamed_leafRef s name
  cases expand with
  | false => exact isNamed_leafRef s name
  | true => exact hexpanded

theorem text_typeRef (h : (s.shape? t.leaf).isSome) (expand : Bool) :
    (s.typeRef expand t).text = t.text := by
  rw [typeRef_eq_wrapRef h, text_wrapRef fun name => (isNamed_leafOf s expand name).text]

theorem wrappers_typeRef (h : (s.shape? t.leaf).isSome) (expand : Bool) :
    (s.typeRef expand t).wrappers = t.wrappers := by
  rw [typeRef_eq_wrapRef h, wrappers_wrapRef fun name => (isNamed_leafOf s expand name).wrappers]

theorem leaf_typeRef (h : (s.shape? t.leaf).isSome) (expand : Bool) :
    (s.typeRef expand t).leaf = s.leafOf expand t.leaf := by
  rw [typeRef_eq_wrapRef h, leaf_wrapRef fun name => (isNamed_leafOf s expand name).leaf]

/-- The variant inside the wrappers is that of the kind of the named type. -/
theorem isOf_typeRef {kind : TypeKind} (h : s.kind? t.leaf = some kind) (expand : Bool) :
    (s.typeRef expand t).leaf.IsOf kind t.leaf := by
  obtain ⟨shape, hshape, rfl⟩ := Option.map_eq_some_iff.mp h
  rw [leaf_typeRef (Option.isSome_iff_exists.mpr ⟨shape, hshape⟩)]
  cases expand with
  | false => exact isOf_leafRef hshape
  | true => exact isOf_expandedRef hshape

/-- Without expansion no object has fields. -/
theorem isFlat_typeRef (s : Schema) (t : TypeExpr) : (s.typeRef false t).isFlat := by
  by_cases h : (s.shape? t.leaf).isSome
  · unfold TypeRef.isFlat
    rw [leaf_typeRef h]
    have hleaf := @isFlat_leafRef s t.leaf
    unfold TypeRef.isFlat at hleaf
    rwa [← (isNamed_leafOf s false t.leaf).leaf]
  · unfold Schema.typeRef
    rw [if_pos (by simpa using h)]
    rfl

/-- With expansion an object lists its fields in their order, each with the shape of its type. -/
theorem leaf_typeRef_object (hs : s.Coherent) {interfaces : List String} {fields : List SchemaField}
    (h : s.shape? t.leaf = some (.object interfaces fields)) :
    (s.typeRef true t).leaf =
      .object t.leaf (fields.map fun f => (f.name, s.typeRef false f.type)) := by
  have hfields : (fields.map fun f => (f.name, Schema.wrapRef s.leafRef f.type)) =
      fields.map fun f => (f.name, s.typeRef false f.type) := by
    refine List.map_congr_left fun f hf => ?_
    obtain ⟨type, htype, hshape⟩ := Schema.mem_of_shape? h
    have hknown := hs.fieldTypes type htype f (by rw [hshape]; exact hf)
    rw [typeRef_eq_wrapRef hknown]
    rfl
  rw [leaf_typeRef (Option.isSome_iff_exists.mpr ⟨_, h⟩)]
  show s.expandedRef t.leaf = _
  unfold Schema.expandedRef
  rw [h, ← hfields]

theorem isScalarLike_typeRef (h : (s.shape? t.leaf).isSome) (expand : Bool) :
    (s.typeRef expand t).isScalarLike = decide (s.kind? t.leaf = some .scalar) := by
  rw [typeRef_eq_wrapRef h]
  cases expand with
  | false => exact isScalarLike_wrapRef s (isScalarLike_leafRef s) t
  | true => exact isScalarLike_wrapRef s (isScalarLike_expandedRef s) t

theorem classify_typeRef (hs : s.Coherent) (h : (s.shape? t.leaf).isSome) (expand : Bool) :
    (s.typeRef expand t).classify = t.jsonType := by
  rw [typeRef_eq_wrapRef h]
  refine classify_wrapRef ?_
  cases expand with
  | false => exact classify_leafRef hs h
  | true => exact (classify_expandedRef s t.leaf).trans (classify_leafRef hs h)

/-- The mock value of a type depends on its text and on whether it is a scalar. -/
theorem mock_typeRef (h : (s.shape? t.leaf).isSome) (expand : Bool) :
    (s.typeRef expand t).mock = if s.kind? t.leaf = some .scalar then
      (mockScalars.lookup t.text).getD .null else .null := by
  unfold TypeRef.mock
  rw [isScalarLike_typeRef h, text_typeRef h]
  simp

end

/-- The shape of a type of a schema is faithful, and objects in it are listed one level deep.

With fields or without, the shape has the text of the type, which is read as this type in the schema,
and the wrappers of the type in their order around a variant of the kind of the named type. With
fields, an object inside the wrappers lists the fields of its type in their order, each with the shape
of its type, in which no object has fields; without, no object has fields. The JSON type, whether it
is a scalar, and the mock value are the same for the type and for both of its shapes. -/
theorem typeRef_faithful (s : Schema) (hs : s.Coherent) (t : TypeExpr) (ht : t.isWritable)
    (hknown : (s.shape? t.leaf).isSome) :
    (∀ expand, (s.typeRef expand t).text = t.text ∧
      (∀ limit, t.depth ≤ limit → s.typeOfText? limit (s.typeRef expand t).text = some t) ∧
      (s.typeRef expand t).wrappers = t.wrappers ∧
      ∀ kind, s.kind? t.leaf = some kind → (s.typeRef expand t).leaf.IsOf kind t.leaf) ∧
    (∀ interfaces fields, s.shape? t.leaf = some (.object interfaces fields) →
      (s.typeRef true t).leaf =
        .object t.leaf (fields.map fun f => (f.name, s.typeRef false f.type)) ∧
      ∀ f ∈ fields, (s.typeRef false f.type).isFlat) ∧
    (s.typeRef false t).isFlat ∧
    ∀ x ∈ [TypeOrRef.type t, .ref (s.typeRef true t), .ref (s.typeRef false t)],
      (s.ensureRef x).classify = t.jsonType ∧
      (s.ensureRef x).isScalarLike = decide (s.kind? t.leaf = some .scalar) ∧
      (s.ensureRef x).mock = if s.kind? t.leaf = some .scalar then
        (mockScalars.lookup t.text).getD .null else .null := by
  refine ⟨fun expand => ⟨text_typeRef hknown expand, fun limit hlimit => ?_,
    wrappers_typeRef hknown expand, fun kind hkind => isOf_typeRef hkind expand⟩,
    fun interfaces fields h => ⟨leaf_typeRef_object hs h, fun f _ => isFlat_typeRef s f.type⟩,
    isFlat_typeRef s t, fun x hx => ?_⟩
  · unfold Schema.typeOfText?
    rw [text_typeRef hknown, parseTypeWithin_text ht hlimit, Option.filter_some, if_pos hknown]
  · have hanswers : ∀ expand, (s.typeRef expand t).classify = t.jsonType ∧
        (s.typeRef expand t).isScalarLike = decide (s.kind? t.leaf = some .scalar) ∧
        (s.typeRef expand t).mock = if s.kind? t.leaf = some .scalar then
          (mockScalars.lookup t.text).getD .null else .null := fun expand =>
      ⟨classify_typeRef hs hknown expand, isScalarLike_typeRef hknown expand,
        mock_typeRef hknown expand⟩
    simp only [List.mem_cons, List.not_mem_nil, or_false] at hx
    rcases hx with rfl | rfl | rfl
    · exact hanswers true
    · exact hanswers true
    · exact hanswers false

/-- A schema with two types that refer to each other. -/
def teams : Schema where
  types :=
    [⟨"Team", .object [] [⟨"lead", [], .nonNull (.named "Person"), false⟩]⟩,
     ⟨"Person", .object [] [⟨"name", [], .named "String", false⟩,
      ⟨"teams", [], .list (.nonNull (.named "Team")), false⟩]⟩,
     ⟨"String", .scalar⟩]
  query := some "Person"
  mutation := none
  subscription := none
  directives := []

/-- A wrapped object lists its fields, and the object in one of these lists none. -/
theorem teams_faithful : teams.Coherent ∧ (TypeExpr.nonNull (.list (.named "Team"))).isWritable ∧
    (teams.shape? (TypeExpr.nonNull (.list (.named "Team"))).leaf).isSome ∧
    (teams.typeRef true (.nonNull (.list (.named "Team")))).leaf =
      .object "Team" [("lead", .nonNull (.object "Person" []))] ∧
    teams.typeOfText? 1 (teams.typeRef true (.nonNull (.list (.named "Team")))).text =
      some (.nonNull (.list (.named "Team"))) := by
  have hs : teams.Coherent := by constructor <;> decide
  obtain ⟨hshape, hobject, -⟩ :=
    typeRef_faithful teams hs (.nonNull (.list (.named "Team"))) (by decide) (by decide)
  exact ⟨hs, by decide, by decide, (hobject _ _ rfl).1, (hshape true).2.1 1 le_rfl⟩

end GraphPaths
