import GraphPaths.Proofs.Schema.Loading
import GraphPaths.Schema.Count

/-!
# Counted types

Each type that is counted is of one sort (`total_ofTypes`), and the types left out are those named
`Query` and `Mutation` (`total_counts`), so that all standard scalars are counted
(`standardScalar_counts`). The types left out need not be those that operations start from: the
counts differ from those without the roots by the types that are one and not the other
(`counts_add`). The two are the same for a text in which queries and mutations start from the types
named after them (`counts_of_build`), as in every text without a definition or an extension of the
schema (`rootsByName_of_notMem`).

The types of a schema have different names (`nodup_names_of_schemaOf`), since a document in which a type
is defined twice breaks the rules.
-/

namespace GraphPaths

open Graphql

/-! ## Sorts -/

namespace TypeCounts

/-- The number of all types that are counted. -/
def total (c : TypeCounts) : Nat := c.object + c.standardScalar + c.other

instance : Add TypeCounts where
  add a b := ⟨a.object + b.object, a.standardScalar + b.standardScalar, a.other + b.other⟩

/-- The numbers of some types of each sort. -/
def ofTypes (ts : List NamedType) : TypeCounts :=
  let others := ts.filter fun t => t.shape.kind != .object
  ⟨(ts.filter fun t => t.shape.kind == .object).length,
    others.countP fun t => isStandardScalarName t.name,
    others.countP fun t => !isStandardScalarName t.name⟩

/-- Every type is of one sort. -/
theorem total_ofTypes (ts : List NamedType) : (ofTypes ts).total = ts.length := by
  have hobjects : ts.length = (ts.filter fun t => t.shape.kind == .object).length +
      (ts.filter fun t => t.shape.kind != .object).length :=
    List.length_eq_length_filter_add _
  have hothers := List.length_eq_countP_add_countP (fun t : NamedType => isStandardScalarName t.name)
    (l := ts.filter fun t => t.shape.kind != .object)
  simp only [Bool.not_eq_true, Bool.decide_eq_false] at hothers
  rw [hobjects, hothers, ← Nat.add_assoc]
  rfl

/-- The types that are left out are the ones that the counts of the others lack. -/
theorem total_ofTypes_filter (ts : List NamedType) (p : NamedType → Bool) :
    (ofTypes (ts.filter fun t => !p t)).total + (ts.filter p).length = ts.length := by
  rw [total_ofTypes, Nat.add_comm]
  exact (List.length_eq_length_filter_add p).symm

theorem ofTypes_append (ts us : List NamedType) :
    ofTypes (ts ++ us) = ofTypes ts + ofTypes us := by
  unfold ofTypes
  simp only [List.filter_append, List.length_append, List.countP_append]
  rfl

theorem ofTypes_perm {ts us : List NamedType} (h : ts.Perm us) : ofTypes ts = ofTypes us := by
  unfold ofTypes
  simp only [(h.filter _).length_eq, (h.filter _).countP_eq]

end TypeCounts

namespace Schema

/-! ## The types left out -/

/-- Whether queries or mutations start from the type with a name. -/
def isRoot (s : Schema) (name : String) : Bool :=
  s.query == some name || s.mutation == some name

/-- The numbers of types of each sort without those that queries and mutations start from. -/
def rootlessCounts (s : Schema) : TypeCounts :=
  .ofTypes (s.ownTypes.filter fun t => !s.isRoot t.name)

variable (s : Schema)

/-- All types are counted but those that are named as roots are by default. -/
theorem total_counts :
    s.counts.total + (s.ownTypes.filter fun t => isRootName t.name).length = s.ownTypes.length :=
  TypeCounts.total_ofTypes_filter s.ownTypes fun t => isRootName t.name

/-- All types are counted but the roots. -/
theorem total_rootlessCounts :
    s.rootlessCounts.total + (s.ownTypes.filter fun t => s.isRoot t.name).length =
      s.ownTypes.length :=
  TypeCounts.total_ofTypes_filter s.ownTypes fun t => s.isRoot t.name

/-- The counts lack the types that are named as roots and are none, and have in addition the roots
with other names. -/
theorem counts_add :
    s.counts + .ofTypes (s.ownTypes.filter fun t => isRootName t.name && !s.isRoot t.name) =
      s.rootlessCounts +
        .ofTypes (s.ownTypes.filter fun t => s.isRoot t.name && !isRootName t.name) := by
  -- Both sides count the types that are not both.
  have hperm : ∀ p q : NamedType → Bool,
      ((s.ownTypes.filter fun t => !p t) ++ s.ownTypes.filter fun t => p t && !q t).Perm
        (s.ownTypes.filter fun t => !(p t && q t)) := by
    intro p q
    have hsplit := List.filter_append_perm (fun t => !p t)
      (s.ownTypes.filter fun t => !(p t && q t))
    have hnot : ∀ t, (!p t && !(p t && q t)) = !p t := fun t => by cases p t <;> rfl
    have hboth : ∀ t, (!!p t && !(p t && q t)) = (p t && !q t) := fun t => by cases p t <;> rfl
    simpa only [List.filter_filter, hnot, hboth] using hsplit
  have hcounts : s.counts = .ofTypes (s.ownTypes.filter fun t => !isRootName t.name) := rfl
  have hsame := hperm (fun t => s.isRoot t.name) fun t => isRootName t.name
  simp only [Bool.and_comm (s.isRoot _) (isRootName _)] at hsame
  rw [hcounts, rootlessCounts, ← TypeCounts.ofTypes_append, ← TypeCounts.ofTypes_append]
  exact TypeCounts.ofTypes_perm ((hperm _ _).trans hsame.symm)

/-- A root with another name is counted, and a type that is named as a root is not. -/
example : counts ⟨[⟨"Root", .object [] []⟩, ⟨"Mutation", .union []⟩], some "Root", none, none, []⟩ =
    ⟨1, 0, 0⟩ := by
  decide +kernel

/-- All standard scalars of a coherent schema are counted. -/
theorem standardScalar_counts (hs : s.Coherent) :
    s.counts.standardScalar = s.types.countP fun t => isStandardScalarName t.name := by
  have hscalar : ∀ t ∈ s.types, isStandardScalarName t.name →
      t.shape.kind = .scalar ∧ isRootName t.name = false ∧ isIntrospectionName t.name = false := by
    intro t ht hname
    have hmem : t.name ∈ ["ID", "String", "Int", "Float", "Boolean"] := by
      simpa [isStandardScalarName] using hname
    have hother : ∀ name ∈ ["ID", "String", "Int", "Float", "Boolean"], name ∈ standardScalars ∧
        isRootName name = false ∧ isIntrospectionName name = false := by decide +kernel
    obtain ⟨hstandard, hother⟩ := hother t.name hmem
    exact ⟨hs.scalars t ht hstandard, hother⟩
  have hcounts : s.counts.standardScalar =
      (((s.types.filter fun t => !isIntrospectionName t.name).filter
        fun t => !isRootName t.name).filter fun t => t.shape.kind != .object).countP
          fun t => isStandardScalarName t.name := rfl
  rw [hcounts, List.countP_filter, List.countP_filter, List.countP_filter]
  refine List.countP_congr fun t ht => ?_
  constructor
  · intro h
    simp only [Bool.and_eq_true] at h
    exact h.1.1.1
  · intro h
    obtain ⟨hkind, hroot, hintrospection⟩ := hscalar t ht h
    simp [h, hkind, hroot, hintrospection]

end Schema

namespace Graphql

/-! ## Types with different names -/

/-- The names of the types that are defined at some places, in order. -/
def definedAt (vs : List Visit) : List String :=
  vs.filterMap fun
    | .type false t => some t.name
    | _ => none

/-- A place changes what has been met of types by the type that it defines. -/
theorem check_types (d : Document) (m : Met) (v : Visit) (h : (check d m v).2 = []) :
    (check d m v).1.types = m.types ++ definedAt [v] ∧
      (m.types.Nodup → (check d m v).1.types.Nodup) := by
  cases v with
  | type isExtension t =>
    simp only [check, checkType, List.append_eq_nil_iff] at h ⊢
    cases isExtension with
    | true => exact ⟨by simp [definedAt], id⟩
    | false =>
      have hnew : t.name ∉ m.types := by simpa using h.1.1.1.1.1
      refine ⟨by simp [definedAt, hnew], fun hm => ?_⟩
      simpa [hnew] using hm.append (List.nodup_singleton t.name) (by simpa using hnew)
  | objectField name =>
    simp only [check, definedAt, List.filterMap_cons_none, List.filterMap_nil, List.append_nil]
    split
    · split <;> exact ⟨rfl, id⟩
    · exact ⟨rfl, id⟩
  | _ => exact ⟨by simp [check, checkSchema, checkDirectiveDefinition, checkDirectiveDirectives,
      checkDirectiveExtension, definedAt], id⟩

/-- No type is met twice in a document without violations. -/
theorem nodup_types_of_checkAll {d : Document} : ∀ {vs : List Visit} {m : Met},
    checkAll d m vs = [] → m.types.Nodup → (m.types ++ definedAt vs).Nodup
  | [], m, _, hm => by simpa [definedAt] using hm
  | v :: vs, m, h, hm => by
    rw [checkAll_cons] at h
    obtain ⟨hv, hvs⟩ := List.append_eq_nil_iff.mp h
    obtain ⟨htypes, hnodup⟩ := check_types d m v hv
    have hrest := nodup_types_of_checkAll hvs (hnodup hm)
    have hcons : definedAt (v :: vs) = definedAt [v] ++ definedAt vs :=
      List.filterMap_append (l := [v])
    rw [htypes, List.append_assoc] at hrest
    rwa [hcons]

/-- The types of a document are, in order, among those that the rules come by. -/
theorem types_sublist (d : Document) :
    List.Sublist (d.types.map TypeDefinition.name) (definedAt d.visits) := by
  induction d with
  | nil => exact List.Sublist.slnil
  | cons x d ih =>
    have happend : definedAt (Document.visits (x :: d)) =
        definedAt x.visits ++ definedAt (Document.visits d) := List.filterMap_append
    rw [happend]
    cases x with
    | type isExtension t =>
      cases isExtension with
      | true => exact ih.trans (List.sublist_append_right _ _)
      | false =>
        have hhead : List.Sublist [t.name] (definedAt (t.visits false)) := by
          simp [TypeDefinition.visits, definedAt]
        exact hhead.append ih
    | _ => exact ih.trans (List.sublist_append_right _ _)

/-- A document that keeps the rules defines no type twice. -/
theorem nodup_types {d : Document} (h : d.violations = []) :
    (d.types.map TypeDefinition.name).Nodup :=
  (nodup_types_of_checkAll h List.nodup_nil).sublist (types_sublist d)

end Graphql

section Build

variable {text : List Char} {d : Document} {s : Schema}

/-- The types that a document defines besides the standard ones, by name. -/
theorem names_ownTypes (d : Document) : d.ownTypes.map TypeDefinition.name =
    (d.types.map TypeDefinition.name).filter fun name => !standardTypes.contains name := by
  unfold Document.ownTypes
  induction d.types with
  | nil => rfl
  | cons t ts ih =>
    cases ht : standardTypes.contains t.name <;>
      simp only [List.filterMap_cons, List.map_cons, List.filter_cons, ht, Bool.false_eq_true, if_true,
        if_false, Bool.not_true, Bool.not_false, ih]

theorem root?_of_schemaOf (h : schemaOf text d = .ok s) (o : OperationType) :
    s.root? o = d.root? o := by
  obtain ⟨_, -, h⟩ := bind_eq_ok.mp h
  obtain ⟨directives, -, h⟩ := bind_eq_ok.mp h
  obtain ⟨types, -, h⟩ := bind_eq_ok.mp h
  obtain ⟨described, -, h⟩ := bind_eq_ok.mp h
  obtain rfl := Except.ok.inj h
  cases o <;> rfl

/-- The types of the schema of a document, by name. -/
theorem names_of_schemaOf (h : schemaOf text d = .ok s) :
    ∃ scalars, scalars.Sublist standardScalars ∧ s.types.map NamedType.name =
      d.ownTypes.map TypeDefinition.name ++ scalars ++ introspectionTypes := by
  obtain ⟨_, -, h⟩ := bind_eq_ok.mp h
  obtain ⟨directives, -, h⟩ := bind_eq_ok.mp h
  obtain ⟨types, htypes, h⟩ := bind_eq_ok.mp h
  obtain ⟨described, hdescribed, h⟩ := bind_eq_ok.mp h
  obtain rfl := Except.ok.inj h
  refine ⟨usedScalars d types directives, List.filter_sublist, ?_⟩
  have hnames : described.map NamedType.name = introspectionTypes :=
    (names_of_namedTypes hdescribed).trans rfl
  have hscalars : ∀ names : List String,
      (names.map (NamedType.mk · .scalar)).map NamedType.name = names := by
    intro names
    rw [List.map_map]
    exact List.map_id' names
  rw [List.map_append, List.map_append, hnames, names_of_namedTypes htypes, hscalars]

/-- The types of the schema of a document that keeps the rules have different names. -/
theorem nodup_names_of_schemaOf (hd : d.violations = []) (h : schemaOf text d = .ok s) :
    (s.types.map NamedType.name).Nodup := by
  obtain ⟨scalars, hscalars, hnames⟩ := names_of_schemaOf h
  have hstandard : (scalars ++ introspectionTypes).Sublist standardTypes :=
    hscalars.append (List.Sublist.refl _)
  have hnodup : standardTypes.Nodup := by decide
  rw [hnames, List.append_assoc, names_ownTypes]
  refine ((nodup_types hd).filter _).append (hnodup.sublist hstandard) fun name hown hname => ?_
  have hmem := hstandard.subset hname
  simpa [hmem] using (List.mem_filter.mp hown).2

/-! ## Roots by name -/

/-- Queries and mutations start from the types that are named after them, if there are any. -/
def RootsByName (d : Document) : Prop :=
  ∀ o ∈ [OperationType.query, .mutation], d.root? o =
    if o.defaultName ∈ d.types.map TypeDefinition.name then some o.defaultName else none

/-- Without a definition or an extension of the schema the roots are found by name. -/
theorem rootsByName_of_notMem (h : ∀ isExtension ds roots, .schema isExtension ds roots ∉ d) :
    RootsByName d := by
  have hdefines : d.definesSchema = false := by
    refine List.any_eq_false.mpr fun x hx => ?_
    cases x with
    | schema isExtension ds roots => exact absurd hx (h isExtension ds roots)
    | _ => exact Bool.false_ne_true
  have hnamed : ∀ o, d.namedRoots o = [] := by
    intro o
    refine List.eq_nil_iff_forall_not_mem.mpr fun name hname => ?_
    obtain ⟨root, hroot, -⟩ := List.mem_map.mp (List.mem_reverse.mp hname)
    rcases List.mem_append.mp (List.mem_filter.mp hroot).1 with hroot | hroot
    all_goals
      obtain ⟨x, hx, hroot⟩ := List.mem_flatMap.mp hroot
      cases x with
      | schema isExtension ds roots => exact h isExtension ds roots hx
      | _ => exact nomatch hroot
  intro o _
  unfold Document.root?
  rw [hdefines, hnamed]
  by_cases hmem : o.defaultName ∈ d.types.map TypeDefinition.name
  · obtain ⟨t, ht, hname⟩ := List.mem_map.mp hmem
    have hany : (d.types.any fun t => t.name == o.defaultName) = true :=
      List.any_eq_true.mpr ⟨t, ht, by simpa using hname⟩
    rw [hany, if_pos hmem]
    rfl
  · have hany : (d.types.any fun t => t.name == o.defaultName) = false :=
      List.any_eq_false.mpr fun t ht heq => hmem (List.mem_map.mpr ⟨t, ht, by simpa using heq⟩)
    rw [hany, if_neg hmem]
    rfl

/-- A type that has no standard name is in the schema of a document if the document defines it. -/
theorem mem_names_of_schemaOf (h : schemaOf text d = .ok s) {name : String}
    (hname : name ∉ standardTypes) :
    name ∈ s.types.map NamedType.name ↔ name ∈ d.types.map TypeDefinition.name := by
  obtain ⟨scalars, hscalars, hnames⟩ := names_of_schemaOf h
  have hstandard : name ∉ scalars ++ introspectionTypes := fun hmem =>
    hname ((hscalars.append (List.Sublist.refl _)).subset hmem)
  rw [hnames, List.append_assoc, List.mem_append, or_iff_left hstandard, names_ownTypes,
    List.mem_filter]
  simp [hname]

/-- If the roots are found by name, each is the type of that name, if there is one. -/
theorem root?_of_rootsByName (h : schemaOf text d = .ok s) (hroots : RootsByName d)
    {o : OperationType} (ho : o ∈ [.query, .mutation]) :
    s.root? o =
      if o.defaultName ∈ s.types.map NamedType.name then some o.defaultName else none := by
  have hname : o.defaultName ∉ standardTypes := by
    rcases List.mem_pair.mp ho with rfl | rfl <;> decide
  rw [root?_of_schemaOf h, hroots o ho]
  simp only [mem_names_of_schemaOf h hname]

/-- Then the types that are named as roots are the roots. -/
theorem isRootName_eq_isRoot (h : schemaOf text d = .ok s) (hroots : RootsByName d) {name : String}
    (hname : name ∈ s.types.map NamedType.name) : isRootName name = s.isRoot name := by
  have hstart : ∀ o ∈ [OperationType.query, .mutation],
      (s.root? o == some name) = (name == o.defaultName) := by
    intro o ho
    rw [root?_of_rootsByName h hroots ho, Bool.eq_iff_iff, beq_iff_eq, beq_iff_eq]
    split
    · next hmem => exact ⟨fun heq => (Option.some.inj heq).symm, fun heq => congrArg some heq.symm⟩
    · next hmem => exact ⟨nofun, fun heq => absurd (heq ▸ hname) hmem⟩
  have hquery := hstart .query (by simp)
  have hmutation := hstart .mutation (by simp)
  exact (congrArg₂ (· || ·) hquery hmutation).symm

/-- The types from which queries and mutations start. -/
def Schema.startingTypes (s : Schema) : List String :=
  s.query.toList ++ s.mutation.toList

/-- Then each of the roots is one of the types left out, and there are no others. -/
theorem perm_startingTypes (hd : d.violations = []) (h : schemaOf text d = .ok s)
    (hroots : RootsByName d) :
    ((s.ownTypes.filter fun t => isRootName t.name).map NamedType.name).Perm s.startingTypes := by
  have hown : ∀ name, isRootName name → isIntrospectionName name = false := by
    intro name hname
    simp only [isRootName, Bool.or_eq_true, beq_iff_eq] at hname
    rcases hname with rfl | rfl <;> decide +kernel
  have hnodup : ((s.ownTypes.filter fun t => isRootName t.name).map NamedType.name).Nodup :=
    (nodup_names_of_schemaOf hd h).sublist
      ((List.filter_sublist.trans List.filter_sublist).map _)
  have hquery : s.query = _ := root?_of_rootsByName h hroots (o := .query) (by simp)
  have hmutation : s.mutation = _ := root?_of_rootsByName h hroots (o := .mutation) (by simp)
  have hstart : s.startingTypes.Nodup := by
    unfold Schema.startingTypes
    rw [hquery, hmutation]
    split <;> split <;> simp [OperationType.defaultName]
  refine (List.perm_ext_iff_of_nodup hnodup hstart).mpr fun name => ?_
  have hroot : name ∈ s.startingTypes ↔ s.isRoot name := by
    simp [Schema.startingTypes, Schema.isRoot]
  rw [hroot, List.mem_map]
  constructor
  · rintro ⟨t, ht, rfl⟩
    obtain ⟨ht, hname⟩ := List.mem_filter.mp ht
    rwa [← isRootName_eq_isRoot h hroots (List.mem_map_of_mem (List.mem_filter.mp ht).1)]
  · intro hname
    have hmem : name ∈ s.types.map NamedType.name := by
      simp only [Schema.isRoot, Bool.or_eq_true, beq_iff_eq, hquery, hmutation] at hname
      rcases hname with hname | hname
      all_goals
        split at hname
        · next hmem => exact Option.some.inj hname ▸ hmem
        · contradiction
    rw [← isRootName_eq_isRoot h hroots hmem] at hname
    obtain ⟨t, ht, rfl⟩ := List.mem_map.mp hmem
    exact ⟨t, List.mem_filter.mpr ⟨List.mem_filter.mpr ⟨ht, by simp [hown _ hname]⟩, hname⟩, rfl⟩

/-- Counts of a text in which queries and mutations start from the types that are named after them:
all types but these are counted. -/
theorem counts_of_build {source : String} (h : Schema.build source = .ok s)
    (hparse : Graphql.parse source = .ok d) (hroots : RootsByName d) :
    s.counts = s.rootlessCounts ∧ s.counts.total + s.startingTypes.length = s.ownTypes.length := by
  unfold Schema.build at h
  simp only [hparse] at h
  split at h
  · next hd =>
    have hs := mapError_eq_ok.mp h
    refine ⟨?_, ?_⟩
    · have hsame : ∀ t ∈ s.ownTypes, (!isRootName t.name) = !s.isRoot t.name := fun t ht =>
        congrArg _ (isRootName_eq_isRoot hs hroots (List.mem_map_of_mem (List.mem_filter.mp ht).1))
      exact congrArg TypeCounts.ofTypes (List.filter_congr hsame)
    · have hlength := (perm_startingTypes hd hs hroots).length_eq
      rw [List.length_map] at hlength
      rw [← hlength]
      exact s.total_counts
  · contradiction

end Build

end GraphPaths
