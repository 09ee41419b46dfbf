import GraphPaths.Proofs.Examples.Roots

/-!
# How building examples fails

If something is asked for that is no kind, building fails with the first such choice, and no root
is looked at (`buildExamples_of_unknownKind`). Otherwise it fails just if a root that is asked for has
no fields to be gone through, with the fault of the first such root; if there is none, every field of
every root that is asked for has an entry (`buildExamples_precedence`). Roots that are not asked for
make no difference (`buildExamples_congr_roots`).
-/

namespace GraphPaths

/-! ## What is asked for -/

/-- The kind that a choice is, or names. -/
def KindChoice.kind? : KindChoice → Option OperationKind
  | .kind k => some k
  | .named v => OperationKind.ofText? v.shown

/-- The value of a choice that names no kind. -/
def KindChoice.unknown? : KindChoice → Option Value
  | .kind _ => none
  | .named v => if (OperationKind.ofText? v.shown).isNone then some v else none

/-- Whether the root of a kind is asked for; what counts as absent asks for both. -/
def asksFor (kinds : Kinds) (kind : OperationKind) : Bool :=
  kinds.isEmpty || (kinds.choices?.getD []).any fun c => c.kind? == some kind

/-- The first value among the choices that names no kind. -/
def unknownKind? (kinds : Kinds) : Option Value :=
  if kinds.isEmpty then none else (kinds.choices?.getD []).findSome? KindChoice.unknown?

/-- Work over a list ends with the first member that it fails on. -/
theorem mapM_of_findSome? {ε α β γ : Type} {f : α → Except ε β} {fault? : α → Option γ} {e : γ → ε}
    (herror : ∀ x c, fault? x = some c → f x = .error (e c))
    (hok : ∀ x, fault? x = none → ∃ y, f x = .ok y) {xs : List α} {c : γ}
    (h : xs.findSome? fault? = some c) : xs.mapM f = .error (e c) := by
  induction xs with
  | nil => contradiction
  | cons x xs ih =>
    rw [List.mapM_cons]
    rw [List.findSome?_cons] at h
    cases hx : fault? x with
    | some c' =>
      rw [hx] at h
      obtain rfl := Option.some.inj h
      rw [herror x c' hx]
      rfl
    | none =>
      rw [hx] at h
      obtain ⟨y, hy⟩ := hok x hx
      rw [hy, ih h]
      rfl

theorem OperationKind.ofValue_eq_error {v : Value} (h : (OperationKind.ofText? v.shown).isNone) :
    OperationKind.ofValue v = .error (.unknownKind v.shown) := by
  unfold OperationKind.ofValue
  rw [Option.isNone_iff_eq_none.mp h]

theorem KindChoice.read_eq_ok {c : KindChoice} {kind : OperationKind} :
    c.read = .ok kind ↔ c.kind? = some kind := by
  unfold KindChoice.read KindChoice.kind?
  cases c with
  | kind k => simp
  | named v => exact OperationKind.ofValue_eq_ok

/-- A choice that names no kind is refused. -/
theorem KindChoice.read_eq_error (c : KindChoice) (v : Value) (h : c.unknown? = some v) :
    c.read = .error (.unknownKind v.shown) := by
  unfold KindChoice.unknown? at h
  unfold KindChoice.read
  cases c with
  | kind k => contradiction
  | named w =>
    obtain ⟨hnone, hw⟩ := Option.ite_none_right_eq_some.mp h
    obtain rfl := Option.some.inj hw
    exact OperationKind.ofValue_eq_error hnone

theorem KindChoice.exists_read (c : KindChoice) (h : c.unknown? = none) :
    ∃ kind, c.read = .ok kind := by
  simp only [KindChoice.read_eq_ok]
  unfold KindChoice.unknown? at h
  unfold KindChoice.kind?
  cases c with
  | kind k => exact ⟨k, rfl⟩
  | named v =>
    rw [ite_eq_right_iff, Option.isNone_iff_eq_none] at h
    exact Option.ne_none_iff_exists'.mp fun hnone => Option.some_ne_none v (h hnone)

theorem requestedKinds_of_unknownKind {kinds : Kinds} {v : Value}
    (h : unknownKind? kinds = some v) :
    requestedKinds kinds = .error (.unknownKind v.shown) := by
  unfold unknownKind? at h
  split at h
  · contradiction
  · next hempty =>
    cases hchoices : kinds.choices? with
    | none =>
      rw [hchoices] at h
      contradiction
    | some choices =>
      rw [hchoices, Option.getD_some] at h
      rw [requestedKinds_of_choices hempty hchoices]
      exact mapM_of_findSome? KindChoice.read_eq_error KindChoice.exists_read h

/-- Where every choice is a kind or names one, the kinds are those that are asked for. -/
theorem exists_requestedKinds {kinds : Kinds} (hkinds : kinds.isEmpty ∨ kinds.choices?.isSome)
    (h : unknownKind? kinds = none) :
    ∃ requested, requestedKinds kinds = .ok requested ∧
      ∀ kind, kind ∈ requested ↔ asksFor kinds kind := by
  unfold asksFor
  unfold unknownKind? at h
  split at h
  · next hempty =>
    refine ⟨OperationKind.all, requestedKinds_of_isEmpty hempty, fun kind => ?_⟩
    rw [hempty, Bool.true_or]
    cases kind <;> decide
  · next hempty =>
    obtain ⟨choices, hchoices⟩ := Option.isSome_iff_exists.mp (hkinds.resolve_left hempty)
    rw [hchoices, Option.getD_some, List.findSome?_eq_none_iff] at h
    obtain ⟨requested, hrequested⟩ := exists_mapM_ok fun c hc => KindChoice.exists_read c (h c hc)
    have hall := forall₂_of_mapM hrequested
    refine ⟨requested, (requestedKinds_of_choices hempty hchoices).trans hrequested,
      fun kind => ?_⟩
    rw [Bool.eq_false_iff.mpr hempty, Bool.false_or, hchoices, Option.getD_some, List.any_eq_true]
    constructor
    · intro hkind
      obtain ⟨c, hc, hread⟩ := exists_of_forall₂ hall hkind
      exact ⟨c, hc, by simpa using KindChoice.read_eq_ok.mp hread⟩
    · rintro ⟨c, hc, hkind⟩
      obtain ⟨kind', hkind', hread⟩ := exists_right_of_forall₂ hall hc
      have heq := (KindChoice.read_eq_ok.mp hread).symm.trans (by simpa using hkind)
      exact Option.some.inj heq ▸ hkind'

/-- The kinds that were read are those that are asked for. -/
theorem mem_requestedKinds {kinds : Kinds} {requested : List OperationKind}
    (h : requestedKinds kinds = .ok requested) (kind : OperationKind) :
    kind ∈ requested ↔ asksFor kinds kind := by
  have hkinds : kinds.isEmpty ∨ kinds.choices?.isSome := by
    by_contra hnone
    rw [not_or, Option.not_isSome_iff_eq_none] at hnone
    unfold requestedKinds at h
    rw [if_neg hnone.1, hnone.2] at h
    contradiction
  cases hunknown : unknownKind? kinds with
  | some v =>
    rw [requestedKinds_of_unknownKind hunknown] at h
    contradiction
  | none =>
    obtain ⟨requested', hrequested, hmem⟩ := exists_requestedKinds hkinds hunknown
    exact Except.ok.inj (hrequested.symm.trans h) ▸ hmem kind

/-- Something unknown is refused whatever the roots are, and without a record. -/
theorem buildExamples_of_unknownKind {kinds : Kinds} {v : Value} (h : unknownKind? kinds = some v)
    (roots : Roots) (values : ExampleValues) (withName : Bool) (records : List LogRecord) :
    buildExamples roots values kinds withName records =
      (.error (.unknownKind v.shown), records) := by
  unfold buildExamples
  rw [requestedKinds_of_unknownKind h]
  rfl

/-! ## Roots -/

/-- The fields of a root, as far as they can be had. -/
def Root.schemaFields (root : Root) : List SchemaField :=
  match root.fields with
  | .fields fields => fields
  | _ => []

/-- What keeps a root from being gone through, under the name of the root: its fields cannot be
resolved, or are no mapping. -/
def Root.fault? (root : Root) : Option ExampleError :=
  match root.fields with
  | .unresolvable reason => some (.unresolvable root.name reason)
  | .noMapping => some (.noMapping root.name)
  | _ => none

/-- A root is an object type or stands in for one: its fields are a mapping of fields, or there is a
fault. -/
def Root.IsObject (root : Root) : Prop :=
  root.fault? = none → root.fields = .names [] ∨ root.fields = .fields root.schemaFields

/-- What is wrong with the root of a kind, if it is asked for. -/
def Roots.faultOf? (roots : Roots) (kinds : Kinds) (kind : OperationKind) : Option ExampleError :=
  if asksFor kinds kind then (roots.root? kind).bind Root.fault? else none

/-- What is wrong with the first of the roots that are asked for and have a fault. -/
def Roots.fault? (roots : Roots) (kinds : Kinds) : Option ExampleError :=
  OperationKind.all.findSome? (roots.faultOf? kinds)

variable {roots : Roots} {kinds : Kinds} {withName : Bool} {kind : OperationKind} {root : Root}
  {named : List (String × Value)} {values : ExampleValues} {requested : List OperationKind}

/-- A fault of the query root comes before one of the mutation root. -/
theorem Roots.fault?_eq :
    roots.fault? kinds = (roots.faultOf? kinds .query).or (roots.faultOf? kinds .mutation) := by
  unfold fault? OperationKind.all
  cases hquery : roots.faultOf? kinds .query <;>
    cases hmutation : roots.faultOf? kinds .mutation <;>
      simp [hquery, hmutation]

theorem Roots.isSome_faultOf?_iff : (roots.faultOf? kinds kind).isSome ↔
    ∃ root, asksFor kinds kind ∧ roots.root? kind = some root ∧ root.fault?.isSome := by
  unfold faultOf?
  cases roots.root? kind <;> by_cases h : asksFor kinds kind <;> simp [h]

/-- There is a fault if some root that is asked for has one. -/
theorem Roots.isSome_fault?_iff : (roots.fault? kinds).isSome ↔
    ∃ kind root, asksFor kinds kind ∧ roots.root? kind = some root ∧ root.fault?.isSome := by
  unfold fault?
  rw [List.findSome?_isSome_iff]
  simp only [isSome_faultOf?_iff]
  exact ⟨fun ⟨kind, _, h⟩ => ⟨kind, h⟩, fun ⟨kind, h⟩ => ⟨kind, by cases kind <;> decide, h⟩⟩

/-- An entry is the example for the field that it is kept under. -/
def ShowsField (f : SchemaField) (entry : String × Example) : Prop :=
  entry.1 = f.name ∧ entry.2.fieldName = f.name

theorem showsField_of_keyedExample {rootName : String} {f : SchemaField} {entry : String × Example}
    (h : keyedExample roots values withName kind rootName f = .ok entry) : ShowsField f entry := by
  obtain ⟨e, he, rfl⟩ := map_eq_ok.mp h
  obtain ⟨_, -, he⟩ := bind_eq_ok.mp (mapError_eq_ok.mp he)
  obtain rfl := Except.ok.inj he
  exact ⟨rfl, rfl⟩

/-- A root without a fault has an entry for each of its fields. -/
theorem fieldExamples_of_isObject (hroot : root.IsObject) (h : root.fault? = none) :
    ∃ ex, fieldExamples roots (.named named) withName kind root = .ok ex ∧
      List.Forall₂ ShowsField root.schemaFields ex := by
  unfold fieldExamples
  rcases hroot h with hfields | hfields
  · refine ⟨[], by rw [hfields], ?_⟩
    unfold Root.schemaFields
    rw [hfields]
    exact .nil
  · have hread : ∀ f ∈ root.schemaFields, ∃ entry,
        keyedExample roots (.named named) withName kind root.name f = .ok entry := fun f _ => by
      obtain ⟨e, he⟩ := Schema.exampleFor_named roots.refOf withName kind root.name named f
      exact ⟨(f.name, e), map_eq_ok.mpr ⟨e, mapError_eq_ok.mpr he, rfl⟩⟩
    obtain ⟨ex, hex⟩ := exists_mapM_ok hread
    rw [hfields]
    exact ⟨ex, hex, (forall₂_of_mapM hex).imp fun f entry => showsField_of_keyedExample⟩

theorem fieldExamples_of_fault {e : ExampleError} (h : root.fault? = some e) :
    fieldExamples roots values withName kind root = .error e := by
  unfold Root.fault? at h
  unfold fieldExamples
  split at h
  · next hfields => rw [hfields, ← Option.some.inj h]
  · next hfields => rw [hfields, ← Option.some.inj h]
  · contradiction

/-- The fields of the root of a kind, if it is asked for. -/
def Roots.fieldsOf (roots : Roots) (kinds : Kinds) (kind : OperationKind) : List SchemaField :=
  if asksFor kinds kind then ((roots.root? kind).map Root.schemaFields).getD [] else []

theorem requestedExamples_of_fault (values : ExampleValues) (withName : Bool) {e : ExampleError}
    (hr : requestedKinds kinds = .ok requested)
    (h : roots.faultOf? kinds kind = some e) :
    requestedExamples roots values withName requested kind = .error e := by
  unfold Roots.faultOf? at h
  split at h
  · next hasks =>
    obtain ⟨root, hroot, hfault⟩ := Option.bind_eq_some_iff.mp h
    unfold requestedExamples rootExamples
    rw [if_pos ((mem_requestedKinds hr kind).mpr hasks), hroot]
    exact fieldExamples_of_fault hfault
  · contradiction

/-- Where there is no fault there is an entry for every field. -/
theorem requestedExamples_of_isObject (named : List (String × Value)) (withName : Bool)
    (hr : requestedKinds kinds = .ok requested)
    (hroots : ∀ root, roots.root? kind = some root → root.IsObject)
    (h : roots.faultOf? kinds kind = none) :
    ∃ ex, requestedExamples roots (.named named) withName requested kind = .ok ex ∧
      List.Forall₂ ShowsField (roots.fieldsOf kinds kind) ex := by
  unfold Roots.faultOf? at h
  unfold requestedExamples rootExamples Roots.fieldsOf
  by_cases hasks : asksFor kinds kind
  · rw [if_pos hasks] at h
    rw [if_pos ((mem_requestedKinds hr kind).mpr hasks), if_pos hasks]
    cases hroot : roots.root? kind with
    | none => exact ⟨[], rfl, .nil⟩
    | some root =>
      rw [hroot] at h
      exact fieldExamples_of_isObject (hroots root hroot) h
  · rw [if_neg fun hmem => hasks ((mem_requestedKinds hr kind).mp hmem), if_neg hasks]
    exact ⟨[], rfl, .nil⟩

/-! ## Outcomes -/

/-- Examples that were kept under the names of their fields keep these through a merge. -/
theorem fieldName_of_mem_merge {fields fields' : List SchemaField} {ex ex' : Examples}
    (h : List.Forall₂ ShowsField fields ex) (h' : List.Forall₂ ShowsField fields' ex')
    {entry : String × Example} (hentry : entry ∈ Examples.merge (Examples.merge [] ex) ex') :
    entry.2.fieldName = entry.1 := by
  have hshown : ∀ {fields : List SchemaField} {ex : Examples}, List.Forall₂ ShowsField fields ex →
      entry ∈ ex → entry.2.fieldName = entry.1 := by
    intro fields ex h hentry
    obtain ⟨f, -, hkey, hname⟩ := exists_of_forall₂ h hentry
    rw [hkey, hname]
  rcases Examples.mem_merge hentry with hentry | hentry
  · exact hshown h ((Examples.mem_merge hentry).resolve_left List.not_mem_nil)
  · exact hshown h' hentry

/-- The first fault of a root that is asked for ends the work. -/
theorem buildExamples_of_fault {e : ExampleError} (hr : requestedKinds kinds = .ok requested)
    (hroots : ∀ kind root, roots.root? kind = some root → root.IsObject)
    (h : roots.fault? kinds = some e) :
    (buildExamples roots (.named named) kinds withName).Yields (.error e) := by
  have hyields := buildExamples_yields roots (.named named) withName kinds
  rw [hr] at hyields
  rw [Roots.fault?_eq, Option.or_eq_some_iff] at h
  rcases h with hquery | ⟨hquery, hmutation⟩
  · have herror := requestedExamples_of_fault (.named named) withName hr hquery
    simp only [bind, Except.bind, herror] at hyields
    exact hyields
  · obtain ⟨ex, hex, -⟩ := requestedExamples_of_isObject named withName hr (hroots .query) hquery
    have herror := requestedExamples_of_fault (.named named) withName hr hmutation
    simp only [bind, Except.bind, hex, herror] at hyields
    exact hyields

/-- Without a fault there is an entry for every field of every root that is asked for. -/
theorem buildExamples_of_isObject (named : List (String × Value)) (withName : Bool)
    (hr : requestedKinds kinds = .ok requested)
    (hroots : ∀ kind root, roots.root? kind = some root → root.IsObject)
    (h : roots.fault? kinds = none) :
    ∃ ex, (buildExamples roots (.named named) kinds withName).Yields (.ok ex) ∧
      ∀ kind, ∀ f ∈ roots.fieldsOf kinds kind,
        ∃ e, List.lookup f.name ex = some e ∧ e.fieldName = f.name := by
  have hnone : ∀ kind, roots.faultOf? kinds kind = none := fun kind =>
    List.findSome?_eq_none_iff.mp h kind (by cases kind <;> decide)
  obtain ⟨query, hquery, hshows⟩ :=
    requestedExamples_of_isObject named withName hr (hroots .query) (hnone .query)
  obtain ⟨mutation, hmutation, hshows'⟩ :=
    requestedExamples_of_isObject named withName hr (hroots .mutation) (hnone .mutation)
  refine ⟨Examples.merge (Examples.merge [] query) mutation, ?_, fun kind f hf => ?_⟩
  · have hyields := buildExamples_yields roots (.named named) withName kinds
    rw [hr] at hyields
    simp only [bind, Except.bind, hquery, hmutation] at hyields
    exact hyields
  · have hkey : f.name ∈ Examples.keys (Examples.merge (Examples.merge [] query) mutation) := by
      rw [Examples.mem_keys_merge, Examples.mem_keys_merge]
      cases kind with
      | query =>
        obtain ⟨entry, hentry, hname, -⟩ := exists_right_of_forall₂ hshows hf
        exact .inl (.inr (hname ▸ List.mem_map_of_mem hentry))
      | mutation =>
        obtain ⟨entry, hentry, hname, -⟩ := exists_right_of_forall₂ hshows' hf
        exact .inr (hname ▸ List.mem_map_of_mem hentry)
    cases hlookup : List.lookup f.name (Examples.merge (Examples.merge [] query) mutation) with
    | none =>
      obtain ⟨entry, hentry, hname⟩ := List.mem_map.mp hkey
      exact absurd (List.lookup_eq_none_iff.mp hlookup entry hentry) (by simp [hname])
    | some e => exact ⟨e, rfl, fieldName_of_mem_merge hshows hshows' (mem_of_lookup hlookup)⟩

/-- Roots that are not asked for make no difference. -/
theorem buildExamples_congr_roots {roots' : Roots} (values : ExampleValues) (withName : Bool)
    (hrefs : roots'.refOf = roots.refOf)
    (h : ∀ kind, asksFor kinds kind → roots'.root? kind = roots.root? kind) :
    buildExamples roots' values kinds withName = buildExamples roots values kinds withName := by
  funext records
  unfold buildExamples
  have hread : ∀ x : Except ExampleError (List OperationKind),
      Job.ofExcept x records = (x, records) := fun _ => rfl
  cases hr : requestedKinds kinds with
  | error e => rw [Job.bind_of_error _ (hread _), Job.bind_of_error _ (hread _)]
  | ok requested =>
    have hstep : addKind roots' values withName requested =
        addKind roots values withName requested := by
      funext ex kind
      unfold addKind
      split
      · next hkind =>
        have hmem : kind ∈ requested := by simpa using hkind
        rw [h kind ((mem_requestedKinds hr kind).mp hmem), hrefs]
      · rfl
    rw [Job.bind_of_ok _ (hread _), Job.bind_of_ok _ (hread _), hstep]

/-- Something unknown among the choices is told before any root is looked at. After that the outcome
is the fault of the first root that is asked for and has one, and otherwise an entry for every field
of the roots that are asked for; no other root matters. -/
theorem buildExamples_precedence (roots : Roots) (kinds : Kinds) (named : List (String × Value))
    (withName : Bool) (hkinds : kinds.isEmpty ∨ kinds.choices?.isSome)
    (hroots : ∀ kind root, roots.root? kind = some root → root.IsObject) :
    (∀ v, unknownKind? kinds = some v → ∀ (roots' : Roots) values records,
      buildExamples roots' values kinds withName records =
        (.error (.unknownKind v.shown), records)) ∧
    (unknownKind? kinds = none →
      ((∃ e, (buildExamples roots (.named named) kinds withName).Yields (.error e)) ↔
        ∃ kind root, asksFor kinds kind ∧ roots.root? kind = some root ∧ root.fault?.isSome) ∧
      (∀ e, roots.fault? kinds = some e →
        (buildExamples roots (.named named) kinds withName).Yields (.error e)) ∧
      (∀ roots', roots'.refOf = roots.refOf →
        (∀ kind, asksFor kinds kind → roots'.root? kind = roots.root? kind) →
          buildExamples roots' (.named named) kinds withName =
            buildExamples roots (.named named) kinds withName) ∧
      (roots.fault? kinds = none →
        ∃ ex, (buildExamples roots (.named named) kinds withName).Yields (.ok ex) ∧
          ∀ kind root, asksFor kinds kind → roots.root? kind = some root →
            ∀ f ∈ root.schemaFields,
              ∃ e, List.lookup f.name ex = some e ∧ e.fieldName = f.name)) := by
  refine ⟨fun v hv roots' values => buildExamples_of_unknownKind hv roots' values withName,
    fun hunknown => ?_⟩
  obtain ⟨requested, hr, -⟩ := exists_requestedKinds hkinds hunknown
  refine ⟨?_, fun e => buildExamples_of_fault hr hroots, fun roots' hrefs h =>
    buildExamples_congr_roots _ withName hrefs h, fun h => ?_⟩
  · rw [← Roots.isSome_fault?_iff]
    cases h : roots.fault? kinds with
    | some e => exact iff_of_true ⟨e, buildExamples_of_fault hr hroots h⟩ rfl
    | none =>
      obtain ⟨ex, hyields, -⟩ := buildExamples_of_isObject named withName hr hroots h
      refine iff_of_false ?_ Bool.false_ne_true
      rintro ⟨e, herror⟩
      exact nomatch herror.run_fst.symm.trans hyields.run_fst
  · obtain ⟨ex, hyields, hex⟩ := buildExamples_of_isObject named withName hr hroots h
    refine ⟨ex, hyields, fun kind root hasks hroot f hf => hex kind f ?_⟩
    unfold Roots.fieldsOf
    rw [if_pos hasks, hroot]
    exact hf

/-- Two roots with a fault each. -/
def faultyRoots : Roots :=
  ⟨some ⟨"Query", .noMapping⟩, some ⟨"Mutation", .unresolvable "boom"⟩, fun _ => .other ""⟩

/-- The fault of the query root is told although the mutation root is asked for first. -/
theorem faultyRoots_precedence :
    (Kinds.list [.kind .mutation, .named (.text " Query")]).choices?.isSome ∧
    unknownKind? (.list [.kind .mutation, .named (.text " Query")]) = none ∧
    (∀ kind root, faultyRoots.root? kind = some root → root.IsObject) ∧
    (buildExamples faultyRoots (.named []) (.list [.kind .mutation, .named (.text " Query")])
      false).Yields (.error (.noMapping "Query")) := by
  have hknown : unknownKind? (.list [.kind .mutation, .named (.text " Query")]) = none := by
    decide +kernel
  have hroots : ∀ kind root, faultyRoots.root? kind = some root → root.IsObject := by
    rintro (_ | _) root h hfault <;> obtain rfl := Option.some.inj h <;> contradiction
  have hfault : faultyRoots.fault? (.list [.kind .mutation, .named (.text " Query")]) =
      some (.noMapping "Query") := by decide +kernel
  exact ⟨rfl, hknown, hroots,
    ((buildExamples_precedence faultyRoots _ [] false (.inr rfl) hroots).2 hknown).2.1 _ hfault⟩

end GraphPaths
