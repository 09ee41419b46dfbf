import GraphPaths.Proofs.Outcome
import GraphPaths.Schema.Build
import Mathlib

/-!
# Coherent schemas

The fields of a type and the arguments of a field are told apart by their names, and the type of a
field is one of the schema's types. `Schema.Coherent` states this, and `coherent_of_build` shows it
of every schema that is made of a text: a document in which a field or an argument is defined twice,
or a type is used that nobody defines, breaks the rules for schema documents
(`Document.violations`).

The rules are checked in one pass over the places of the document (`checkAll`). What it has met of
fields is the list of all fields of the types so far (`check_fields`), and a document without
violations has met no field twice (`nodup_fields_of_checkAll`).
-/

namespace GraphPaths

open Graphql

/-- Names tell the fields of each type and the arguments of each field apart, the types that fields
have are there, and the standard scalars are scalars. -/
structure Schema.Coherent (s : Schema) : Prop where
  fieldNames : ∀ t ∈ s.types, (t.shape.fields.map SchemaField.name).Nodup
  argumentNames : ∀ t ∈ s.types, ∀ f ∈ t.shape.fields, (f.arguments.map SchemaInput.name).Nodup
  fieldTypes : ∀ t ∈ s.types, ∀ f ∈ t.shape.fields, (s.shape? f.type.leaf).isSome
  scalars : ∀ t ∈ s.types, t.name ∈ standardScalars → t.shape.kind = .scalar

/-- A type can be found by its name. -/
theorem Schema.isSome_shape?_iff (s : Schema) (name : String) :
    (s.shape? name).isSome ↔ name ∈ s.types.map NamedType.name := by
  simp [Schema.shape?, List.find?_isSome]

theorem Schema.mem_of_shape? {s : Schema} {name : String} {shape : TypeShape}
    (h : s.shape? name = some shape) : ∃ t ∈ s.types, t.shape = shape := by
  obtain ⟨t, ht, rfl⟩ := Option.map_eq_some_iff.mp h
  exact ⟨t, List.mem_of_find?_eq_some ht, rfl⟩

namespace Graphql

/-! ## What the rules find -/

/-- The types that are defined or extended at some places, in order. -/
def typesAt (vs : List Visit) : List TypeDefinition :=
  vs.filterMap fun
    | .type _ t => some t
    | _ => none

/-- The fields of a type under its name. -/
def namedFields (t : TypeDefinition) : List (String × String) :=
  t.body.fieldNames.map (t.name, ·)

/-- Members that are met for the first time all join those met before. -/
theorem nodup_of_repeats {α : Type} [BEq α] [LawfulBEq α] :
    ∀ (xs met : List α), (repeats met xs).1 = [] →
      (repeats met xs).2 = met ++ xs ∧ (met.Nodup → (met ++ xs).Nodup)
  | [], met, _ => by simp [repeats]
  | x :: xs, met, h => by
    unfold repeats at h ⊢
    split at h
    · simp at h
    · next hx =>
      rw [if_neg hx]
      obtain ⟨hall, hnd⟩ := nodup_of_repeats xs (met ++ [x]) h
      have hmem : x ∉ met := by simpa using hx
      have hcons : met ++ [x] ++ xs = met ++ x :: xs := by simp
      rw [← hcons]
      refine ⟨hall, fun hm => hnd ?_⟩
      rw [List.nodup_append]
      refine ⟨hm, List.nodup_singleton x, fun a ha b hb => ?_⟩
      rw [List.mem_singleton.mp hb]
      exact fun hab => hmem (hab ▸ ha)

/-- Members without duplicates are distinct. -/
theorem nodup_of_duplicates {xs : List String} (h : duplicates xs = []) : xs.Nodup := by
  rw [List.nodup_iff_count_le_one]
  intro x
  by_cases hx : x ∈ xs
  · have := List.filter_eq_nil_iff.mp h x (List.mem_eraseDups.mpr hx)
    simpa using this
  · rw [List.count_eq_zero_of_not_mem hx]
    exact Nat.zero_le 1

/-- A place changes what has been met of fields by the fields of the type that it defines. -/
theorem check_fields (d : Document) (m : Met) (v : Visit) (h : (check d m v).2 = []) :
    (check d m v).1.fields = m.fields ++ (typesAt [v]).flatMap namedFields ∧
      (m.fields.Nodup → (check d m v).1.fields.Nodup) := by
  cases v with
  | type isExtension t =>
    simp only [check, checkType, List.append_eq_nil_iff, List.map_eq_nil_iff] at h ⊢
    obtain ⟨hall, hnd⟩ := nodup_of_repeats (namedFields t) m.fields h.1.1.1.2
    refine ⟨?_, fun hm => ?_⟩
    · simpa [typesAt, namedFields] using hall
    · have := hnd hm
      rw [← hall] at this
      exact this
  | objectField name =>
    simp only [check, typesAt, List.filterMap_cons_none, List.filterMap_nil, List.flatMap_nil,
      List.append_nil]
    split
    · split <;> exact ⟨rfl, id⟩
    · exact ⟨rfl, id⟩
  | _ => exact ⟨by simp [check, checkSchema, checkDirectiveDefinition, checkDirectiveDirectives,
      checkDirectiveExtension, typesAt], id⟩

theorem checkAll_cons (d : Document) (m : Met) (v : Visit) (vs : List Visit) :
    checkAll d m (v :: vs) = (check d m v).2 ++ checkAll d (check d m v).1 vs :=
  rfl

/-- A document without violations has none at any of its places. -/
theorem check_of_mem {d : Document} : ∀ {vs : List Visit} {m : Met} {v : Visit},
    checkAll d m vs = [] → v ∈ vs → ∃ m, (check d m v).2 = []
  | w :: vs, m, v, h, hv => by
    rw [checkAll_cons] at h
    obtain ⟨hw, hvs⟩ := List.append_eq_nil_iff.mp h
    rcases List.mem_cons.mp hv with rfl | hv
    · exact ⟨m, hw⟩
    · exact check_of_mem hvs hv

theorem typesAt_append (vs ws : List Visit) : typesAt (vs ++ ws) = typesAt vs ++ typesAt ws := by
  simp [typesAt]

/-- No field of a type is met twice in a document without violations. -/
theorem nodup_fields_of_checkAll {d : Document} : ∀ {vs : List Visit} {m : Met},
    checkAll d m vs = [] → m.fields.Nodup →
      (m.fields ++ (typesAt vs).flatMap namedFields).Nodup
  | [], m, _, hm => by simpa [typesAt] using hm
  | v :: vs, m, h, hm => by
    rw [checkAll_cons] at h
    obtain ⟨hv, hvs⟩ := List.append_eq_nil_iff.mp h
    obtain ⟨hfields, hnd⟩ := check_fields d m v hv
    have := nodup_fields_of_checkAll hvs (hnd hm)
    rw [hfields, List.append_assoc, ← List.flatMap_append, ← typesAt_append] at this
    exact this

/-! ## Definitions and their places -/

/-- The definitions and extensions of types in a document, each with the flag of an extension. -/
def Document.typeParts (d : Document) : List (Bool × TypeDefinition) :=
  d.filterMap fun
    | .type isExtension t => some (isExtension, t)
    | _ => none

theorem mem_typeParts_of_mem_types {d : Document} {t : TypeDefinition} (h : t ∈ d.types) :
    (false, t) ∈ d.typeParts := by
  obtain ⟨x, hx, hxt⟩ := List.mem_filterMap.mp h
  refine List.mem_filterMap.mpr ⟨x, hx, ?_⟩
  split at hxt <;> simp_all

/-- The extensions of a type, in order, are among the parts of types. -/
theorem extensions_sublist (d : Document) (name : String) :
    List.Sublist ((d.extensions name).map (true, ·)) d.typeParts := by
  induction d with
  | nil => exact List.Sublist.slnil
  | cons x d ih =>
    cases x with
    | type isExtension t =>
      cases isExtension with
      | false => exact ih.cons (false, t)
      | true =>
        by_cases hn : t.name = name
        · have := ih.cons_cons (true, t)
          simpa [Document.extensions, Document.typeParts, hn] using this
        · have := ih.cons (true, t)
          simpa [Document.extensions, Document.typeParts, hn] using this
    | _ => exact ih

theorem name_of_mem_extensions {d : Document} {name : String} {t : TypeDefinition}
    (h : t ∈ d.extensions name) : t.name = name := by
  obtain ⟨x, -, hx⟩ := List.mem_filterMap.mp h
  split at hx
  · split at hx
    · next hn => exact (Option.some.inj hx) ▸ by simpa using hn
    · contradiction
  · contradiction

/-- A part of a type is a place of the document, and so are the places inside it. -/
theorem mem_visits_of_typeParts {d : Document} {isExtension : Bool} {t : TypeDefinition}
    (h : (isExtension, t) ∈ d.typeParts) {v : Visit} (hv : v ∈ t.visits isExtension) :
    v ∈ d.visits := by
  obtain ⟨x, hx, hxt⟩ := List.mem_filterMap.mp h
  split at hxt
  · obtain ⟨rfl, rfl⟩ := Prod.mk.inj (Option.some.inj hxt)
    exact List.mem_flatMap.mpr ⟨_, hx, hv⟩
  · contradiction

/-- The parts of types are, in order, among the types that the rules come by. -/
theorem typeParts_sublist (d : Document) :
    List.Sublist (d.typeParts.map Prod.snd) (typesAt d.visits) := by
  induction d with
  | nil => exact List.Sublist.slnil
  | cons x d ih =>
    show List.Sublist _ (typesAt (x.visits ++ Document.visits d))
    rw [typesAt_append]
    cases x with
    | type isExtension t =>
      have hhead : List.Sublist [t] (typesAt (t.visits isExtension)) := by
        simp [TypeDefinition.visits, typesAt]
      exact hhead.append ih
    | _ => exact ih.trans (List.sublist_append_right _ _)

/-- The type of a field is named in the visit of the field's type. -/
theorem mem_visits_fieldType {isExtension : Bool} {t : TypeDefinition} {f : FieldDefinition}
    (h : f ∈ t.body.fields) : Visit.typeName f.type.leaf true ∈ t.visits isExtension := by
  have hf : Visit.typeName f.type.leaf true ∈ f.visits := by simp [FieldDefinition.visits]
  have hfs : ∀ fields : List FieldDefinition, f ∈ fields →
      Visit.typeName f.type.leaf true ∈ fields.flatMap FieldDefinition.visits :=
    fun fields hmem => List.mem_flatMap.mpr ⟨f, hmem, hf⟩
  unfold TypeDefinition.visits
  cases hb : t.body with
  | object interfaces fields =>
    rw [hb] at h
    simp [hfs fields h]
  | interface interfaces fields =>
    rw [hb] at h
    simp [hfs fields h]
  | _ => simp [hb, TypeBody.fields] at h

/-! ## Joined bodies -/

/-- The fields of joined bodies are named by the bodies. -/
theorem fields_join_sublist (body : TypeBody) (bodies : List TypeBody) :
    List.Sublist ((body.join bodies).fields.map FieldDefinition.name)
      (body.fieldNames ++ bodies.flatMap TypeBody.fieldNames) := by
  cases body with
  | object interfaces fields =>
    simp only [TypeBody.join, TypeBody.fields, TypeBody.fieldNames, List.map_append,
      List.map_flatMap]
    refine List.Sublist.append_left (List.Sublist.flatMap_right _ fun b _ => ?_) _
    cases b <;> simp [TypeBody.fieldNames]
  | interface interfaces fields =>
    simp only [TypeBody.join, TypeBody.fields, TypeBody.fieldNames, List.map_append,
      List.map_flatMap]
    refine List.Sublist.append_left (List.Sublist.flatMap_right _ fun b _ => ?_) _
    cases b <;> simp [TypeBody.fieldNames]
  | _ => simp [TypeBody.join, TypeBody.fields]

/-- A field of joined bodies is a field of one of them. -/
theorem mem_fields_join {body : TypeBody} {bodies : List TypeBody} {f : FieldDefinition}
    (h : f ∈ (body.join bodies).fields) : ∃ b ∈ body :: bodies, f ∈ b.fields := by
  cases body with
  | object interfaces fields =>
    rcases List.mem_append.mp h with h | h
    · exact ⟨_, List.mem_cons_self, h⟩
    · obtain ⟨b, hb, hf⟩ := List.mem_flatMap.mp h
      refine ⟨b, List.mem_cons_of_mem _ hb, ?_⟩
      cases b <;> simp_all [TypeBody.fields]
  | interface interfaces fields =>
    rcases List.mem_append.mp h with h | h
    · exact ⟨_, List.mem_cons_self, h⟩
    · obtain ⟨b, hb, hf⟩ := List.mem_flatMap.mp h
      refine ⟨b, List.mem_cons_of_mem _ hb, ?_⟩
      cases b <;> simp_all [TypeBody.fields]
  | _ => simp [TypeBody.join, TypeBody.fields] at h

/-- Every field of a type stands in one of the type's parts. -/
theorem mem_typeParts_of_joined {d : Document} {t : TypeDefinition} (ht : t ∈ d.types) {f : FieldDefinition}
    (hf : f ∈ (t.body.join ((d.extensions t.name).map TypeDefinition.body)).fields) :
    ∃ isExtension part, (isExtension, part) ∈ d.typeParts ∧ f ∈ part.body.fields := by
  obtain ⟨b, hb, hfb⟩ := mem_fields_join hf
  rcases List.mem_cons.mp hb with rfl | hb
  · exact ⟨_, t, mem_typeParts_of_mem_types ht, hfb⟩
  · obtain ⟨e, he, rfl⟩ := List.mem_map.mp hb
    exact ⟨_, e, (extensions_sublist d t.name).subset (List.mem_map.mpr ⟨e, he, rfl⟩), hfb⟩

/-! ## Documents that keep the rules -/

section Valid

variable {d : Document} (h : d.violations = [])
include h

/-- A type has no field twice, its extensions counted. -/
theorem nodup_fields_joined {t : TypeDefinition} (ht : t ∈ d.types) :
    ((t.body.join ((d.extensions t.name).map TypeDefinition.body)).fields.map
      FieldDefinition.name).Nodup := by
  have hall : (d.typeParts.flatMap (namedFields ∘ Prod.snd)).Nodup := by
    have := nodup_fields_of_checkAll h List.nodup_nil
    rw [show Met.nothing.fields = [] from rfl, List.nil_append] at this
    have hsub := (typeParts_sublist d).flatMap namedFields
    rw [List.flatMap_map] at hsub
    exact this.sublist hsub
  obtain ⟨heach, hdisjoint⟩ := List.nodup_flatMap.mp hall
  have hbase := mem_typeParts_of_mem_types ht
  have hext := extensions_sublist d t.name
  have hparts : (((false, t) :: (d.extensions t.name).map (true, ·)).flatMap
      (namedFields ∘ Prod.snd)).Nodup := by
    refine List.nodup_flatMap.mpr ⟨?_, List.pairwise_cons.mpr ⟨?_, hdisjoint.sublist hext⟩⟩
    · intro x hx
      rcases List.mem_cons.mp hx with rfl | hx
      · exact heach _ hbase
      · exact heach _ (hext.subset hx)
    · intro x hx
      have hsymm : Std.Symm (Function.onFun List.Disjoint
          (namedFields ∘ (Prod.snd : Bool × TypeDefinition → TypeDefinition))) :=
        ⟨fun _ _ hd => List.disjoint_symm hd⟩
      refine hdisjoint.forall hbase (hext.subset hx) fun heq => ?_
      obtain ⟨e, -, rfl⟩ := List.mem_map.mp hx
      simp at heq
  have hnamed : ((t.body.fieldNames ++
      ((d.extensions t.name).map TypeDefinition.body).flatMap TypeBody.fieldNames).map
        (t.name, ·)).Nodup := by
    have hnames : ∀ e ∈ d.extensions t.name,
        namedFields e = e.body.fieldNames.map (t.name, ·) := by
      intro e he
      rw [namedFields, name_of_mem_extensions he]
    rw [List.flatMap_cons, List.flatMap_map] at hparts
    rw [List.map_append, List.map_flatMap, List.flatMap_map]
    rw [← List.flatMap_congr hnames]
    exact hparts
  exact (hnamed.of_map _).sublist (fields_join_sublist _ _)

/-- A field has no argument twice. -/
theorem nodup_arguments {isExtension : Bool} {part : TypeDefinition}
    (hp : (isExtension, part) ∈ d.typeParts) {f : FieldDefinition} (hf : f ∈ part.body.fields) :
    (f.arguments.map InputValue.name).Nodup := by
  have hv : Visit.type isExtension part ∈ d.visits :=
    mem_visits_of_typeParts hp (by simp [TypeDefinition.visits])
  obtain ⟨m, hm⟩ := check_of_mem h hv
  simp only [check, checkType, List.append_eq_nil_iff, List.flatMap_eq_nil_iff] at hm
  exact nodup_of_duplicates (List.map_eq_nil_iff.mp (hm.1.1.2 f hf))

/-- The type of a field is defined in the document or is a standard one. -/
theorem fieldType_known {isExtension : Bool} {part : TypeDefinition}
    (hp : (isExtension, part) ∈ d.typeParts) {f : FieldDefinition} (hf : f ∈ part.body.fields) :
    f.type.leaf ∈ d.types.map TypeDefinition.name ∨ f.type.leaf ∈ standardTypes := by
  obtain ⟨m, hm⟩ := check_of_mem h (mem_visits_of_typeParts hp (mem_visits_fieldType hf))
  simp only [check, checkTypeName] at hm
  split at hm
  · next hk => simpa using hk
  · simp at hm

end Valid

end Graphql

/-! ## Schemas of documents -/

/-- A field of a schema is that of a definition, up to what is deprecated. -/
def SameField (f : FieldDefinition) (g : SchemaField) : Prop :=
  g.name = f.name ∧ g.type = f.type ∧
    g.arguments.map SchemaInput.name = f.arguments.map InputValue.name

theorem names_of_inputsOf {text : List Char} {vs : List InputValue} {args : List SchemaInput}
    (h : inputsOf text vs = .ok args) :
    args.map SchemaInput.name = vs.map InputValue.name := by
  have hall := forall₂_of_mapM h
  clear h
  induction hall with
  | nil => rfl
  | @cons v a vs args hv _ ih =>
    obtain ⟨deprecated, -, hv⟩ := bind_eq_ok.mp hv
    obtain rfl := Except.ok.inj hv
    rw [List.map_cons, List.map_cons, ih]

theorem sameField_of_fieldOf {text : List Char} {f : FieldDefinition} {g : SchemaField}
    (h : fieldOf text f = .ok g) : SameField f g := by
  obtain ⟨args, hargs, h⟩ := bind_eq_ok.mp h
  obtain ⟨deprecated, -, h⟩ := bind_eq_ok.mp h
  obtain rfl := Except.ok.inj h
  exact ⟨rfl, rfl, names_of_inputsOf hargs⟩

/-- The shape of a type has the fields of its body. -/
theorem sameFields_of_namedType {text : List Char} {t : TypeDefinition} {n : NamedType}
    (h : namedType text t = .ok n) :
    n.name = t.name ∧ List.Forall₂ SameField t.body.fields n.shape.fields := by
  have hfields : ∀ {fields : List FieldDefinition} {gs : List SchemaField},
      fields.mapM (fieldOf text) = .ok gs → List.Forall₂ SameField fields gs :=
    fun hgs => (forall₂_of_mapM hgs).imp fun _ _ => sameField_of_fieldOf
  obtain ⟨shape, hs, h⟩ := bind_eq_ok.mp h
  obtain rfl := Except.ok.inj h
  refine ⟨rfl, ?_⟩
  have hs := mapError_eq_ok.mp hs
  unfold shapeOf at hs
  cases hb : t.body with
  | object interfaces fields =>
    rw [hb] at hs
    obtain ⟨gs, hgs, rfl⟩ := map_eq_ok.mp hs
    exact hfields hgs
  | interface interfaces fields =>
    rw [hb] at hs
    obtain ⟨gs, hgs, rfl⟩ := map_eq_ok.mp hs
    exact hfields hgs
  | inputObject fields =>
    rw [hb] at hs
    obtain ⟨gs, -, rfl⟩ := map_eq_ok.mp hs
    exact .nil
  | _ =>
    rw [hb] at hs
    obtain rfl := Except.ok.inj hs
    exact .nil

theorem fieldNames_eq {fields : List FieldDefinition} {gs : List SchemaField}
    (h : List.Forall₂ SameField fields gs) :
    gs.map SchemaField.name = fields.map FieldDefinition.name := by
  induction h with
  | nil => rfl
  | cons hf _ ih => rw [List.map_cons, List.map_cons, hf.1, ih]

/-- Names tell the fields of a type and the arguments of each field apart, and the types that
fields have are among some. -/
def Sound (known : List String) (t : TypeDefinition) : Prop :=
  (t.body.fields.map FieldDefinition.name).Nodup ∧ ∀ f ∈ t.body.fields,
    (f.arguments.map InputValue.name).Nodup ∧ f.type.leaf ∈ known

/-- The types that describe schemas keep the rules. -/
theorem sound_introspection : ∀ t ∈ Introspection.types,
    Sound ("String" :: "Boolean" :: introspectionTypes) t := by
  unfold Sound
  decide +kernel

/-- The types of a document that keeps the rules. -/
theorem sound_ownTypes {d : Document} (h : d.violations = []) {t : TypeDefinition}
    (ht : t ∈ d.ownTypes) : Sound (d.types.map TypeDefinition.name ++ standardTypes) t := by
  obtain ⟨base, hbase, hown⟩ := List.mem_filterMap.mp ht
  split at hown
  · contradiction
  · obtain rfl := Option.some.inj hown
    refine ⟨nodup_fields_joined h hbase, fun f hf => ?_⟩
    obtain ⟨isExtension, part, hpart, hf⟩ := mem_typeParts_of_joined hbase hf
    exact ⟨nodup_arguments h hpart hf, List.mem_append.mpr (fieldType_known h hpart hf)⟩

/-- A type of a schema that comes of a sound definition. -/
theorem coherent_of_sound {text : List Char} {known : List String} {t : TypeDefinition}
    {n : NamedType} (hn : namedType text t = .ok n) (ht : Sound known t) :
    (n.shape.fields.map SchemaField.name).Nodup ∧ ∀ g ∈ n.shape.fields,
      (g.arguments.map SchemaInput.name).Nodup ∧ g.type.leaf ∈ known := by
  have hfields := (sameFields_of_namedType hn).2
  refine ⟨fieldNames_eq hfields ▸ ht.1, fun g hg => ?_⟩
  obtain ⟨f, hf, -, htype, hargs⟩ := exists_of_forall₂ hfields hg
  rw [hargs, htype]
  exact ht.2 f hf

theorem mem_standardTypes {name : String} :
    name ∈ standardTypes ↔ name ∈ standardScalars ∨ name ∈ introspectionTypes :=
  List.mem_append

/-- A type that a document defines is among its own types unless it is a standard one. -/
theorem mem_ownTypes_names {d : Document} {name : String}
    (h : name ∈ d.types.map TypeDefinition.name) (hs : name ∉ standardTypes) :
    name ∈ d.ownTypes.map TypeDefinition.name := by
  obtain ⟨t, ht, rfl⟩ := List.mem_map.mp h
  have hown : ¬ standardTypes.contains t.name := by simpa using hs
  exact List.mem_map.mpr ⟨_, List.mem_filterMap.mpr ⟨t, ht, if_neg hown⟩, rfl⟩

theorem names_of_namedTypes {text : List Char} {ts : List TypeDefinition} {ns : List NamedType}
    (h : ts.mapM (namedType text) = .ok ns) :
    ns.map NamedType.name = ts.map TypeDefinition.name := by
  have hall := forall₂_of_mapM h
  clear h
  induction hall with
  | nil => rfl
  | cons hn _ ih => rw [List.map_cons, List.map_cons, ih, (sameFields_of_namedType hn).1]

/-- A standard scalar that a field has is in use. -/
theorem mem_usedScalars {d : Document} {types : List NamedType} {directives : List SchemaDirective}
    {t : NamedType} {g : SchemaField} (ht : t ∈ types) (hg : g ∈ t.shape.fields)
    (hs : g.type.leaf ∈ standardScalars) : g.type.leaf ∈ usedScalars d types directives := by
  have href : g.type.leaf ∈ t.shape.references := by
    unfold TypeShape.references
    split
    · next hshape => simp [hshape, TypeShape.fields] at hg
    · exact List.mem_flatMap.mpr ⟨g, hg, List.mem_cons_self⟩
  refine List.mem_filter.mpr ⟨hs, ?_⟩
  have : g.type.leaf ∈ types.flatMap fun t => t.shape.references :=
    List.mem_flatMap.mpr ⟨t, ht, href⟩
  simp [this]

section Build

variable {text : List Char} {d : Document} {types described : List NamedType}
  {directives : List SchemaDirective}

/-- The named types of a schema: those of the document, the scalars in use, and those that describe
schemas. -/
theorem mem_allTypes {name : String} (htypes : d.ownTypes.mapM (namedType text) = .ok types)
    (hdescribed : Introspection.types.mapM (namedType text) = .ok described) :
    name ∈ (types ++ (usedScalars d types directives).map (NamedType.mk · .scalar)
        ++ described).map NamedType.name ↔
      (name ∈ d.ownTypes.map TypeDefinition.name ∨ name ∈ usedScalars d types directives)
        ∨ name ∈ introspectionTypes := by
  have hnames : described.map NamedType.name = introspectionTypes :=
    (names_of_namedTypes hdescribed).trans rfl
  rw [List.map_append, List.map_append, hnames, names_of_namedTypes htypes, List.map_map]
  simp [or_assoc]

/-- A type of a schema comes of a definition, or is a scalar in use, or describes schemas. -/
theorem origin_of_mem (htypes : d.ownTypes.mapM (namedType text) = .ok types)
    (hdescribed : Introspection.types.mapM (namedType text) = .ok described) {t : NamedType}
    (ht : t ∈ types ++ (usedScalars d types directives).map (NamedType.mk · .scalar)
      ++ described) :
    (t ∈ types ∧ ∃ own ∈ d.ownTypes, namedType text own = .ok t) ∨ t.shape = .scalar ∨
      ∃ base ∈ Introspection.types, namedType text base = .ok t := by
  rcases List.mem_append.mp ht with ht | ht
  · rcases List.mem_append.mp ht with ht | ht
    · obtain ⟨own, hown, hn⟩ := exists_of_forall₂ (forall₂_of_mapM htypes) ht
      exact .inl ⟨ht, own, hown, hn⟩
    · obtain ⟨name, -, rfl⟩ := List.mem_map.mp ht
      exact .inr (.inl rfl)
  · obtain ⟨base, hbase, hn⟩ := exists_of_forall₂ (forall₂_of_mapM hdescribed) ht
    exact .inr (.inr ⟨base, hbase, hn⟩)

/-- The scalars that introspection needs are in use. -/
theorem mem_usedScalars_introspection {name : String} (h : name ∈ ["String", "Boolean"]) :
    name ∈ usedScalars d types directives := by
  refine List.mem_filter.mpr ⟨?_, ?_⟩
  · revert name
    decide
  · simp only [List.mem_cons, List.not_mem_nil, or_false] at h
    rcases h with rfl | rfl <;> rfl

/-- The fields of a type of a schema are as those of a sound definition, and their types are among
those that the schema has. -/
theorem sound_of_mem (hd : d.violations = [])
    (htypes : d.ownTypes.mapM (namedType text) = .ok types)
    (hdescribed : Introspection.types.mapM (namedType text) = .ok described) {t : NamedType}
    (ht : t ∈ types ++ (usedScalars d types directives).map (NamedType.mk · .scalar)
      ++ described) :
    (t.shape.fields.map SchemaField.name).Nodup ∧ ∀ g ∈ t.shape.fields,
      (g.arguments.map SchemaInput.name).Nodup ∧
        ((g.type.leaf ∈ d.ownTypes.map TypeDefinition.name ∨
          g.type.leaf ∈ usedScalars d types directives) ∨ g.type.leaf ∈ introspectionTypes) := by
  rcases origin_of_mem htypes hdescribed ht with ⟨ht, own, hown, hn⟩ | hscalar | ⟨base, hbase, hn⟩
  · obtain ⟨hnodup, hfields⟩ := coherent_of_sound hn (sound_ownTypes hd hown)
    refine ⟨hnodup, fun g hg => ⟨(hfields g hg).1, ?_⟩⟩
    by_cases hs : g.type.leaf ∈ standardTypes
    · rcases mem_standardTypes.mp hs with hs | hs
      · exact .inl (.inr (mem_usedScalars ht hg hs))
      · exact .inr hs
    · have hknown := (List.mem_append.mp (hfields g hg).2).resolve_right hs
      exact .inl (.inl (mem_ownTypes_names hknown hs))
  · rw [hscalar]
    exact ⟨List.nodup_nil, nofun⟩
  · obtain ⟨hnodup, hfields⟩ := coherent_of_sound hn (sound_introspection base hbase)
    refine ⟨hnodup, fun g hg => ⟨(hfields g hg).1, ?_⟩⟩
    rcases List.mem_append.mp (show _ ∈ ["String", "Boolean"] ++ introspectionTypes from
      (hfields g hg).2) with hs | hs
    · exact .inl (.inr (mem_usedScalars_introspection hs))
    · exact .inr hs

/-- Only scalars have the names of standard scalars. -/
theorem scalar_of_mem (htypes : d.ownTypes.mapM (namedType text) = .ok types)
    (hdescribed : Introspection.types.mapM (namedType text) = .ok described) {t : NamedType}
    (ht : t ∈ types ++ (usedScalars d types directives).map (NamedType.mk · .scalar)
      ++ described) (hname : t.name ∈ standardScalars) : t.shape.kind = .scalar := by
  rcases origin_of_mem htypes hdescribed ht with ⟨-, own, hown, hn⟩ | hscalar | ⟨base, hbase, hn⟩
  · rw [(sameFields_of_namedType hn).1] at hname
    obtain ⟨definition, -, hdefinition⟩ := List.mem_filterMap.mp hown
    split at hdefinition
    · contradiction
    · next hstandard =>
      obtain rfl := Option.some.inj hdefinition
      have hmem : definition.name ∈ standardTypes := List.mem_append_left _ hname
      exact absurd (by simpa using hmem) hstandard
  · rw [hscalar]
    rfl
  · rw [(sameFields_of_namedType hn).1] at hname
    have hdisjoint : ∀ base ∈ Introspection.types, base.name ∉ standardScalars := by
      decide +kernel
    exact absurd hname (hdisjoint base hbase)

/-- The schema of a document that keeps the rules is coherent. -/
theorem coherent_of_schemaOf {s : Schema} (hd : d.violations = []) (h : schemaOf text d = .ok s) :
    s.Coherent := by
  obtain ⟨_, -, h⟩ := bind_eq_ok.mp h
  obtain ⟨directives, -, h⟩ := bind_eq_ok.mp h
  obtain ⟨types, htypes, h⟩ := bind_eq_ok.mp h
  obtain ⟨described, hdescribed, h⟩ := bind_eq_ok.mp h
  obtain rfl := Except.ok.inj h
  refine ⟨fun t ht => (sound_of_mem hd htypes hdescribed ht).1,
    fun t ht f hf => ((sound_of_mem hd htypes hdescribed ht).2 f hf).1, fun t ht f hf => ?_,
    fun t ht => scalar_of_mem htypes hdescribed ht⟩
  rw [Schema.isSome_shape?_iff]
  exact (mem_allTypes htypes hdescribed).mpr ((sound_of_mem hd htypes hdescribed ht).2 f hf).2

end Build

/-- The schema of a text is coherent. -/
theorem coherent_of_build {text : String} {s : Schema} (h : Schema.build text = .ok s) :
    s.Coherent := by
  unfold Schema.build at h
  split at h
  · contradiction
  · split at h
    · next hd => exact coherent_of_schemaOf hd (mapError_eq_ok.mp h)
    · contradiction

end GraphPaths
