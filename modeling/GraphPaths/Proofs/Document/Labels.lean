import GraphPaths.Proofs.Transform
import GraphPaths.Proofs.Value.Alike

/-!
# Documents up to labels

Labels of example values only reach labels of the document. `SameOutcome` relates two computations
that fail with related errors or give related results, and it goes through steps made one after
another (`SameOutcome.bind`) and through work over a list (`UnderKeys.of_mapM`). With it example
values that are equal up to labels are followed through the request of a field
(`sameOutcome_requestFor`), the examples (`sameOutcome_buildExamples`) and what they become to the
document (`sameOutcome_transformWith`).
-/

namespace GraphPaths

/-! ## Outcomes -/

/-- Both computations fail, with errors as `E` says, or both give results, as `R` says. -/
inductive SameOutcome {ε δ α β : Type} (E : ε → δ → Prop) (R : α → β → Prop) :
    Except ε α → Except δ β → Prop
  | error {e : ε} {e' : δ} (h : E e e') : SameOutcome E R (.error e) (.error e')
  | ok {a : α} {b : β} (h : R a b) : SameOutcome E R (.ok a) (.ok b)

namespace SameOutcome

variable {ε ε' δ δ' α β γ κ : Type} {E : ε → δ → Prop} {E' : ε' → δ' → Prop} {R : α → β → Prop}
  {S : γ → κ → Prop} {x : Except ε α} {y : Except δ β}

theorem bind {f : α → Except ε γ} {g : β → Except δ κ} (h : SameOutcome E R x y)
    (hnext : ∀ a b, R a b → SameOutcome E S (f a) (g b)) : SameOutcome E S (x >>= f) (y >>= g) := by
  cases h with
  | error h => exact .error h
  | ok h => exact hnext _ _ h

theorem map {f : α → γ} {g : β → κ} (h : SameOutcome E R x y) (hf : ∀ a b, R a b → S (f a) (g b)) :
    SameOutcome E S (x.map f) (y.map g) := by
  cases h with
  | error h => exact .error h
  | ok h => exact .ok (hf _ _ h)

theorem mapError {f : ε → ε'} {g : δ → δ'} (h : SameOutcome E R x y)
    (hf : ∀ e e', E e e' → E' (f e) (g e')) : SameOutcome E' R (x.mapError f) (y.mapError g) := by
  cases h with
  | error h => exact .error (hf _ _ h)
  | ok h => exact .ok h

/-- Errors that are related more closely than needed. -/
theorem imp_error {D : ε → δ → Prop} (h : SameOutcome E R x y) (hE : ∀ e e', E e e' → D e e') :
    SameOutcome D R x y := by
  cases h with
  | error h => exact .error (hE _ _ h)
  | ok h => exact .ok h

/-- A computation has the outcome of itself. -/
theorem refl (x : Except ε α) : SameOutcome Eq Eq x x := by
  cases x with
  | error e => exact .error rfl
  | ok a => exact .ok rfl

end SameOutcome

/-! ## Keys -/

/-- Members under the same keys, in the same order, that are related. -/
inductive UnderKeys {α β : Type} (R : α → β → Prop) : List (String × α) → List (String × β) → Prop
  | nil : UnderKeys R [] []
  | cons {key : String} {a : α} {b : β} {xs : List (String × α)} {ys : List (String × β)}
      (h : R a b) (rest : UnderKeys R xs ys) : UnderKeys R ((key, a) :: xs) ((key, b) :: ys)

namespace UnderKeys

variable {α β : Type} {R : α → β → Prop} {xs : List (String × α)} {ys : List (String × β)}

theorem lookup (h : UnderKeys R xs ys) (key : String) :
    Option.Rel R (xs.lookup key) (ys.lookup key) := by
  induction h with
  | nil => exact .none
  | @cons k a b xs ys hab _ ih =>
    by_cases hkey : key = k
    · subst hkey
      rw [List.lookup_cons_self, List.lookup_cons_self]
      exact .some hab
    · rw [lookup_cons_of_ne hkey, lookup_cons_of_ne hkey]
      exact ih

theorem refl {R : α → α → Prop} (hR : ∀ a, R a a) : ∀ xs : List (String × α), UnderKeys R xs xs
  | [] => .nil
  | (_, a) :: xs => .cons (hR a) (refl hR xs)

/-- Work over a list that gives one member after another. -/
theorem of_mapM {ι ε δ : Type} {E : ε → δ → Prop} {f : ι → Except ε (String × α)}
    {g : ι → Except δ (String × β)} : ∀ {is : List ι},
    (∀ i ∈ is, SameOutcome E (fun x y => x.1 = y.1 ∧ R x.2 y.2) (f i) (g i)) →
      SameOutcome E (UnderKeys R) (is.mapM f) (is.mapM g)
  | [], _ => .ok .nil
  | i :: is, h => by
    rw [List.mapM_cons, List.mapM_cons]
    refine (h i List.mem_cons_self).bind ?_
    rintro ⟨key, a⟩ ⟨_, b⟩ ⟨rfl, hab⟩
    refine (of_mapM fun j hj => h j (List.mem_cons_of_mem i hj)).bind fun xs ys hrest => ?_
    exact .ok (.cons hab hrest)

end UnderKeys

open Value (Alike)

/-! ## Values -/

/-- Values without labels are the same. -/
def Value.SamePlain (v w : Value) : Prop :=
  v.plain = w.plain

theorem Value.SamePlain.refl (v : Value) : v.SamePlain v :=
  rfl

/-- No places. -/
def nowhere : Places :=
  ⟨fun _ => False, fun _ => False⟩

theorem samePlain_of_alike {v w : Value} (h : Alike nowhere v w) : v.SamePlain w :=
  h.plain_eq (fun _ => id) fun _ => id

theorem UnderKeys.alike {fields fields' : List (String × Value)}
    (h : UnderKeys Value.SamePlain fields fields') :
    Alike nowhere (.record fields) (.record fields') := by
  induction h with
  | nil => exact .refl _
  | cons hv _ ih => exact .field (.same hv) ih

theorem isEmpty_plain (v : Value) : v.plain.isEmpty = v.isEmpty := by
  unfold Value.isEmpty
  induction v using Value.bare.induct with
  | case1 l v ih => exact ih
  | case2 v hv =>
    cases v with
    | shared l w => exact absurd rfl (hv l w)
    | list items => cases items <;> rfl
    | map entries => cases entries <;> rfl
    | set members => cases members <;> rfl
    | _ => rfl

/-! ## Examples -/

/-- Mappings that hold the same under all texts, up to labels. -/
structure SameRequest (r r' : Value) : Prop where
  isMapping : r.entries?.isSome
  isMapping' : r'.entries?.isSome
  get? : ∀ key, Option.Rel Value.SamePlain (r.get? key) (r'.get? key)

/-- Examples that differ in labels of their requests only. -/
structure SameExample (e e' : Example) : Prop where
  summary : e.summary = e'.summary
  request : SameRequest e.request e'.request
  response : e.response = e'.response
  returnType : e.returnType = e'.returnType

/-- Examples under the same keys that differ in labels only. -/
abbrev SameExamples : Examples → Examples → Prop :=
  UnderKeys SameExample

theorem SameExamples.put {e e' : Example} (he : SameExample e e') (key : String) {ex ex' : Examples}
    (h : SameExamples ex ex') : SameExamples (ex.put key e) (ex'.put key e') := by
  induction h with
  | nil => exact .cons he .nil
  | cons hx hrest ih =>
    unfold Examples.put
    split
    · exact .cons he hrest
    · exact .cons hx ih

theorem SameExamples.merge {new new' : Examples} (hnew : SameExamples new new') :
    ∀ {old old' : Examples}, SameExamples old old' →
      SameExamples (old.merge new) (old'.merge new') := by
  induction hnew with
  | nil => exact id
  | cons he _ ih => exact fun hold => ih (SameExamples.put he _ hold)

/-- Example values that are the same up to labels under every name. -/
def SameValues (values values' : ExampleValues) : Prop :=
  ∀ name, SameOutcome Eq (Option.Rel Value.SamePlain) (values.find? name) (values'.find? name)

section

variable {values values' : ExampleValues} (h : SameValues values values')
include h

theorem sameOutcome_requestFor (kind : OperationKind) (f : SchemaField) (withName : Bool) :
    SameOutcome Eq SameRequest (requestFor kind f values withName)
      (requestFor kind f values' withName) := by
  have hvariables : SameOutcome Eq (UnderKeys Value.SamePlain)
      (variableValues f.arguments values) (variableValues f.arguments values') := by
    refine UnderKeys.of_mapM fun a _ => (h a.name).bind fun v v' hv => .ok ⟨rfl, ?_⟩
    cases hv with
    | none => exact rfl
    | some hv => exact hv
  refine hvariables.bind fun given given' hgiven => .ok ⟨rfl, rfl, fun key => ?_⟩
  rw [Value.get?_record, Value.get?_record]
  refine UnderKeys.lookup ?_ key
  exact .cons rfl (.cons (samePlain_of_alike hgiven.alike) (.refl Value.SamePlain.refl _))

theorem sameOutcome_exampleFor (refOf : Graphql.TypeExpr → TypeRef) (kind : OperationKind)
    (rootName : String) (withName : Bool) (f : SchemaField) :
    SameOutcome Eq SameExample (exampleFor refOf kind rootName values withName f)
      (exampleFor refOf kind rootName values' withName f) :=
  (sameOutcome_requestFor h kind f withName).bind fun _ _ hrequest =>
    .ok ⟨rfl, hrequest, rfl, rfl⟩

theorem sameOutcome_fieldExamples (roots : Roots) (withName : Bool) (kind : OperationKind)
    (root : Root) : SameOutcome Eq SameExamples (fieldExamples roots values withName kind root)
      (fieldExamples roots values' withName kind root) := by
  unfold fieldExamples
  split
  · refine UnderKeys.of_mapM fun f _ => ?_
    refine SameOutcome.map ?_ fun e e' he => ⟨rfl, he⟩
    exact (sameOutcome_exampleFor h roots.refOf kind root.name withName f).mapError
      fun _ _ he => congrArg ExampleError.values he
  · exact .ok .nil
  all_goals exact .error rfl

theorem sameOutcome_requestedExamples (roots : Roots) (withName : Bool)
    (requested : List OperationKind) (kind : OperationKind) :
    SameOutcome Eq SameExamples (requestedExamples roots values withName requested kind)
      (requestedExamples roots values' withName requested kind) := by
  unfold requestedExamples rootExamples
  split
  · split
    · exact .ok .nil
    · exact sameOutcome_fieldExamples h roots withName kind _
  · exact .ok .nil

theorem sameOutcome_buildExamples (roots : Roots) (kinds : Kinds) (withName : Bool) :
    SameOutcome Eq SameExamples (buildExamples roots values kinds withName).run.1
      (buildExamples roots values' kinds withName).run.1 := by
  rw [(buildExamples_yields roots values withName kinds).run_fst,
    (buildExamples_yields roots values' withName kinds).run_fst]
  refine (SameOutcome.refl (requestedKinds kinds)).bind ?_
  rintro requested _ rfl
  refine (sameOutcome_requestedExamples h roots withName requested .query).bind ?_
  intro query query' hquery
  refine (sameOutcome_requestedExamples h roots withName requested .mutation).bind ?_
  exact fun mutation mutation' hmutation =>
    .ok (SameExamples.merge hmutation (SameExamples.merge hquery .nil))

end

/-! ## Documents -/

/-- Operations that differ in labels only. -/
structure SameOperation (op op' : ApiOperation) : Prop where
  id : op.id = op'.id
  summary : op.summary = op'.summary
  query : op.query.SamePlain op'.query
  variableValues : Option.Rel Value.SamePlain op.variableValues op'.variableValues
  operationName : Option.Rel Value.SamePlain op.operationName op'.operationName
  response : op.response = op'.response
  tag : op.tag = op'.tag

theorem SameExample.part? {e e' : Example} (h : SameExample e e') (key : String) :
    Option.Rel Value.SamePlain (e.part? key) (e'.part? key) := by
  have hrequest := h.request.get? key
  unfold Example.part?
  generalize e.request.get? key = part, e'.request.get? key = part' at hrequest
  cases hrequest with
  | none => exact .none
  | @some v v' hv =>
    have hempty : v.isEmpty = v'.isEmpty := by
      rw [← isEmpty_plain v, ← isEmpty_plain v', hv]
    rw [Option.filter_some, Option.filter_some, hempty]
    split
    · exact .some hv
    · exact .none

theorem SameExample.sameOutcome_apiOperation {e e' : Example} (h : SameExample e e')
    (field : String) (tag : Option RouteTag) :
    SameOutcome Eq SameOperation (e.apiOperation field tag) (e'.apiOperation field tag) := by
  have hquery := h.request.get? "query"
  have hvariables := h.part? "variables"
  have hname := h.part? "operationName"
  unfold Example.apiOperation
  generalize e.request.get? "query" = query, e'.request.get? "query" = query' at hquery
  cases hquery with
  | none =>
    show SameOutcome Eq SameOperation (.error (if e.request.entries?.isSome then _ else _))
      (.error (if e'.request.entries?.isSome then _ else _))
    rw [if_pos h.request.isMapping, if_pos h.request.isMapping']
    exact .error rfl
  | some hquery => exact .ok ⟨rfl, h.summary, hquery, hvariables, hname, h.response, rfl⟩

/-- A property that need not be there, made of values that differ in labels only. -/
theorem alike_property (name : String) (f : Value → Value) {v v' : Option Value}
    (hf : ∀ v v' : Value, v.SamePlain v' → Alike nowhere (f v) (f v'))
    (h : Option.Rel Value.SamePlain v v') {rest rest' : List (String × Value)}
    (hrest : Alike nowhere (.record rest) (.record rest')) :
    Alike nowhere (.record ((v.map fun v => (name, f v)).toList ++ rest))
      (.record ((v'.map fun v => (name, f v)).toList ++ rest')) := by
  cases h with
  | none => exact hrest
  | some hv => exact .field (hf _ _ hv) hrest

namespace SameOperation

variable {op op' : ApiOperation} (h : SameOperation op op')
include h

theorem alike_requestSchema : Alike nowhere op.requestSchema op'.requestSchema := by
  have hname := alike_property "operationName"
    (fun v => .record [("type", .text "string"), ("example", v)])
    (fun _ _ hv => .field (.refl _) (.field (.same hv) (.refl _))) h.operationName
    (.refl (.record []))
  rw [List.append_nil, List.append_nil] at hname
  unfold ApiOperation.requestSchema
  refine .field (.refl _) (.field (.field ?_ ?_) (.refl _))
  · exact .field (.refl _) (.field (.refl _) (.field (.same h.query) (.refl _)))
  · exact alike_property "variables" _ (fun _ _ hv => .field (.refl _) (.field (.refl _)
      (.field (.refl _) (.field (.same hv) (.refl _))))) h.variableValues hname

theorem alike : Alike nowhere op.toValue op'.toValue := by
  unfold ApiOperation.toValue
  rw [h.id, h.summary, h.response, h.tag]
  exact .field (.refl _) (.field (.refl _) (.field (.refl _) (.field (.field (.refl _)
    (.field (.field (.field h.alike_requestSchema (.refl _)) (.refl _)) (.refl _))) (.refl _))))

end SameOperation

/-- Documents with operations that differ in labels only. -/
theorem alike_operations {ops ops' : List ApiOperation} (h : List.Forall₂ SameOperation ops ops')
    (d : ApiDocument) : Alike nowhere ({ d with operations := ops } : ApiDocument).toValue
      ({ d with operations := ops' } : ApiDocument).toValue := by
  have hpaths : Alike nowhere
      (.record (ops.map fun op => ("/" ++ op.id, .record [("post", op.toValue)])))
      (.record (ops'.map fun op => ("/" ++ op.id, .record [("post", op.toValue)]))) := by
    induction h with
    | nil => exact .refl _
    | cons hop _ ih =>
      rw [List.map_cons, List.map_cons, hop.id]
      exact .field (.field hop.alike (.refl _)) ih
  exact .field (.refl _) (.field (.refl _) (.field (.refl _) (.field hpaths (.refl _))))

theorem SameExample.component_eq {e e' : Example} (h : SameExample e e') (field : String) :
    e.component field = e'.component field := by
  unfold Example.component Example.dataKeys Example.data? Example.declaredType
  rw [h.response, h.returnType]

/-- Parts of documents that differ in labels only. -/
structure SamePart (part part' : ApiPart) : Prop where
  component : part.component = part'.component
  operation : SameOperation part.operation part'.operation

theorem SameExample.sameOutcome_apiPart {e e' : Example} (h : SameExample e e') (field : String)
    (tag : Option RouteTag) :
    SameOutcome Eq SamePart (e.apiPart field tag) (e'.apiPart field tag) := by
  unfold Example.apiPart
  rw [h.component_eq]
  refine (SameOutcome.refl (e'.component field)).bind ?_
  rintro component _ rfl
  exact (h.sameOutcome_apiOperation field tag).bind fun op op' hop => .ok ⟨rfl, hop⟩

theorem sameOutcome_apiParts (o : Options) {ex ex' : Examples} (h : SameExamples ex ex') :
    SameOutcome Eq (List.Forall₂ SamePart) (apiParts o ex) (apiParts o ex') := by
  unfold apiParts
  induction h with
  | nil => exact .ok .nil
  | cons he _ ih =>
    rw [List.mapM_cons, List.mapM_cons]
    refine (he.sameOutcome_apiPart _ _).bind fun part part' hpart => ?_
    exact ih.bind fun parts parts' hparts => .ok (.cons hpart hparts)

/-- Documents of examples and parts that differ in labels only. -/
theorem alike_documentOf (o : Options) {ex ex' : Examples} (h : SameExamples ex ex')
    {parts parts' : List ApiPart} (hparts : List.Forall₂ SamePart parts parts') :
    Alike nowhere (documentOf o ex parts).toValue (documentOf o ex' parts').toValue := by
  have hcomponents : parts.map ApiPart.component = parts'.map ApiPart.component := by
    induction hparts with
    | nil => rfl
    | cons hpart _ ih => exact congrArg₂ List.cons hpart.component ih
  have htags : ∀ tags, ex.foldl (fun tags x => addTag tags (o.tag? x.1)) tags =
      ex'.foldl (fun tags x => addTag tags (o.tag? x.1)) tags := by
    clear hparts hcomponents
    induction h with
    | nil => exact fun _ => rfl
    | cons _ _ ih => exact fun tags => ih _
  have hdocument : documentOf o ex parts =
      { documentOf o ex' parts' with operations := parts.map ApiPart.operation } :=
    congrArg₂ (fun components tags => (⟨o.openapi, o.info, o.serverUrl,
      parts.map ApiPart.operation, components, tags⟩ : ApiDocument)) hcomponents (htags [])
  rw [hdocument]
  refine alike_operations ?_ (documentOf o ex' parts')
  exact List.forall₂_map_left_iff.mpr (List.forall₂_map_right_iff.mpr
    (hparts.imp fun _ _ hpart => hpart.operation))

/-- Documents that are the same up to labels. -/
def SameDocument (d d' : ApiDocument) : Prop :=
  d.toValue.SamePlain d'.toValue

/-- Example values that are the same up to labels give the same document up to labels, or the same
error. -/
theorem sameOutcome_transformWith (s : Schema) (o : Options) {values values' : ExampleValues}
    (h : SameValues values values') (kinds : Kinds) : SameOutcome Eq SameDocument
      (transformWith s { o with exampleValues := values } kinds).run.1
      (transformWith s { o with exampleValues := values' } kinds).run.1 := by
  rw [(transformWith_yields s _ kinds).run_fst, (transformWith_yields s _ kinds).run_fst]
  have hbuild := sameOutcome_buildExamples h s.roots kinds o.namesOperation
  refine (hbuild.mapError fun _ _ he => congrArg TransformError.examples he).bind ?_
  intro ex ex' hex
  refine SameOutcome.mapError ?_ fun _ _ he => congrArg TransformError.assembly he
  exact (sameOutcome_apiParts o hex).bind fun parts parts' hparts =>
    .ok (samePlain_of_alike (alike_documentOf o hex hparts))

end GraphPaths
