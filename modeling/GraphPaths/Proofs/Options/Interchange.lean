import GraphPaths.Proofs.Document.Labels
import GraphPaths.Proofs.Document.Reach
import GraphPaths.Proofs.Options.Respelled

/-!
# Options in other spellings give the same document

Mappings that differ by edits of their keys give options that differ in labels only, or are refused
for the same reasons (`sameOutcome_ofValue`), so that a schema and given examples get the same
document for both (`respelled_options_agree`). Where options are given as keywords a key can be
refused before any option is read: one that is no text, or the name of the parameter for the schema
(`not_generate_keeps_document`).
-/

namespace GraphPaths

/-! ## Options -/

/-- Options that differ in labels of their example values only. -/
inductive SameOptions : Options → Options → Prop
  | mk (o : Options) {named named' : List (String × Value)}
      (h : UnderKeys Value.SamePlain named named') :
      SameOptions { o with exampleValues := .named named } { o with exampleValues := .named named' }

/-- Options that are refused for the same reasons, perhaps told in other spellings. -/
inductive SameInvalid : OptionsError → OptionsError → Prop
  | mk {errors errors' : List OptionError}
      (h : errors.map OptionError.canonical = errors'.map OptionError.canonical) :
      SameInvalid (.invalid errors) (.invalid errors')

/-- Labels start anywhere. -/
theorem underKeys_label : ∀ (fields : List (String × Value)) (n m : Nat),
    UnderKeys Value.SamePlain (Value.label n fields).1 (Value.label m fields).1
  | [], _, _ => .nil
  | (k, v) :: fields, n, m => by
    unfold Value.label
    split
    · exact .cons rfl (underKeys_label fields (n + 1) (m + 1))
    · exact .cons rfl (underKeys_label fields n m)

theorem ofValue_of_entries? {v : Value} {es : List (Value × Value)} (h : v.entries? = some es) :
    Options.ofValue v = ((checkEntries es).mapError OptionsError.invalid).map fun o =>
      { o with exampleValues := (o.exampleValues.label v.labelBound).1 } := by
  unfold Options.ofValue
  rw [entriesOf_of_entries? h]
  show (checkEntries es).mapError OptionsError.invalid >>= _ = _
  cases checkEntries es <;> rfl

section

variable {v v' : Value} {es es' : List (Value × Value)} (hv : v.entries? = some es)
  (hv' : v'.entries? = some es') (hone : OneEach optionSpellings es)
  (h : Edits optionSpellings OptionEdited es es')
include hv hv' hone h

/-- Mappings that differ by edits give options that differ in labels only, or are refused for the
same reasons. -/
theorem sameOutcome_ofValue :
    SameOutcome SameInvalid SameOptions (Options.ofValue v) (Options.ofValue v') := by
  have hsame := checkEntries_edits hone h
  rw [ofValue_of_entries? hv, ofValue_of_entries? hv']
  cases hes : checkEntries es with
  | error errors =>
    cases hes' : checkEntries es' with
    | error errors' =>
      rw [hes, hes'] at hsame
      exact .error (.mk (Except.error.inj hsame))
    | ok o' => rw [hes, hes'] at hsame; contradiction
  | ok o =>
    cases hes' : checkEntries es' with
    | error errors' => rw [hes, hes'] at hsame; contradiction
    | ok o' =>
      rw [hes, hes'] at hsame
      obtain rfl : o = o' := Except.ok.inj hsame
      obtain ⟨named, hnamed⟩ := exampleValues_of_checkEntries hes
      -- New labels start above those of the whole mapping, also above those of unknown keys.
      refine .ok ?_
      dsimp only
      rw [hnamed]
      exact .mk o (underKeys_label named v.labelBound v'.labelBound)

end

/-! ## Documents -/

/-- Errors of a document that are the same, up to the spellings of options. -/
inductive SameTransformError : TransformError → TransformError → Prop
  | options {e e' : OptionsError} (h : SameInvalid e e') :
      SameTransformError (.options e) (.options e')
  | same (e : TransformError) : SameTransformError e e

/-- Errors of a document for options as keywords that are the same, up to the spellings. -/
inductive SameGenerateError : GenerateError → GenerateError → Prop
  | transform {e e' : TransformError} (h : SameTransformError e e') :
      SameGenerateError (.transform e) (.transform e')

/-- Work with options that are given as data starts with reading them. -/
theorem run_readOptions {α : Type} (options : Value) (next : Options → Job TransformError α)
    {outcome : Options → Except TransformError α} (h : ∀ o, (next o).Yields (outcome o)) :
    ((Job.ofExcept (Options.ofValue options)).mapError TransformError.options >>= next).run.1 =
      (Options.ofValue options).mapError TransformError.options >>= outcome :=
  (((Job.yields_ofExcept _).mapError _).bind fun o _ => h o).run_fst

section

variable {v v' : Value} (h : SameOutcome SameInvalid SameOptions (Options.ofValue v)
  (Options.ofValue v'))
include h

theorem sameOutcome_transform (s : Schema) (kinds : Kinds) :
    SameOutcome SameTransformError SameDocument (transform s v kinds).run.1
      (transform s v' kinds).run.1 := by
  have hrun : ∀ options, (transform s options kinds).run.1 =
      (Options.ofValue options).mapError TransformError.options >>= fun o =>
        (transformWith s o kinds).run.1 := by
    refine fun options => run_readOptions options _ fun o => ?_
    rw [(transformWith_yields s o kinds).run_fst]
    exact transformWith_yields s o kinds
  rw [hrun, hrun]
  refine (h.mapError fun _ _ he => SameTransformError.options he).bind ?_
  rintro _ _ ⟨o, hnamed⟩
  refine (sameOutcome_transformWith s o ?_ kinds).imp_error fun e _ he => he ▸ .same e
  exact fun name => .ok (hnamed.lookup name)

theorem sameOutcome_assembleFrom (ex : Examples) :
    SameOutcome SameTransformError Eq (assembleFrom v ex).run.1 (assembleFrom v' ex).run.1 := by
  have hrun : ∀ options, (assembleFrom options ex).run.1 =
      (Options.ofValue options).mapError TransformError.options >>= fun o =>
        (apiParts o ex >>= fun parts => .ok (documentOf o ex parts)).mapError
          TransformError.assembly :=
    fun options => run_readOptions options _ fun o => (assemble_yields o ex).mapError _
  rw [hrun, hrun]
  refine (h.mapError fun _ _ he => SameTransformError.options he).bind ?_
  -- Example values are not read any more where there are examples.
  rintro _ _ ⟨o, -⟩
  exact (SameOutcome.refl _).imp_error fun e _ he => he ▸ .same e

end

/-! ## Keywords -/

/-- Whether a key can be given as a keyword beside the schema. -/
def isKeyword (key : Value) : Bool :=
  key.text?.any (· ≠ schemaParameter)

theorem checkKeyword_eq_ok {key : Value} (h : isKeyword key) : checkKeyword key = .ok () := by
  unfold isKeyword at h
  unfold checkKeyword
  cases hname : key.text? with
  | none => rw [hname] at h; contradiction
  | some name =>
    rw [hname] at h
    have hne : name ≠ schemaParameter := by simpa using h
    exact if_neg (by simpa using hne)

/-- Options whose keys can be keywords count as a mapping of them. -/
theorem run_generate (s : Schema) {es : List (Value × Value)} (h : ∀ e ∈ es, isKeyword e.1) :
    (generate s es).run.1 =
      ((transform s (.map es) .absent).run.1).mapError GenerateError.transform := by
  obtain ⟨units, hunits⟩ : ∃ units, es.mapM (fun e => checkKeyword e.1) = .ok units :=
    exists_mapM_ok fun e he => ⟨(), checkKeyword_eq_ok (h e he)⟩
  have htransform := transform_yields s (.map es) .absent
  have hsteps : generate s es = Job.ofExcept (es.mapM fun e => checkKeyword e.1) >>= fun _ =>
      (transform s (.map es) .absent).mapError GenerateError.transform := rfl
  rw [hsteps, hunits, htransform.run_fst]
  exact (htransform.mapError GenerateError.transform).run_fst

/-! ## Mappings that differ by edits -/

/-- Spellings of options can be changed for each other, and keys that spell none do nothing.

Two mappings, in which each option is spelled once, may differ in the spellings of options, in keys
that spell no option, in the order of their keys, and in further keys of the routes and of their
tags. Then both give options, which differ in labels only, or both are refused for the same reasons,
up to the spellings in which these are told. So a schema has the same document for both, whatever
kinds are asked for, or the same error; and so have examples. With the options as keywords a schema
has the same document for both if all keys can be keywords: texts other than the name of the
parameter for the schema. -/
theorem respelled_options_agree {v v' : Value} {es es' : List (Value × Value)}
    (hv : v.entries? = some es) (hv' : v'.entries? = some es')
    (hone : OneEach optionSpellings es) (h : Edits optionSpellings OptionEdited es es') :
    SameOutcome SameInvalid SameOptions (Options.ofValue v) (Options.ofValue v') ∧
    (∀ s kinds, SameOutcome SameTransformError SameDocument (transform s v kinds).run.1
      (transform s v' kinds).run.1) ∧
    (∀ ex, SameOutcome SameTransformError Eq (assembleFrom v ex).run.1 (assembleFrom v' ex).run.1) ∧
    ∀ s, (∀ e ∈ es, isKeyword e.1) → (∀ e ∈ es', isKeyword e.1) →
      SameOutcome SameGenerateError SameDocument (generate s es).run.1 (generate s es').run.1 := by
  have hoptions := sameOutcome_ofValue hv hv' hone h
  refine ⟨hoptions, sameOutcome_transform hoptions, sameOutcome_assembleFrom hoptions, ?_⟩
  intro s hkeys hkeys'
  rw [run_generate s hkeys, run_generate s hkeys']
  have hmaps := sameOutcome_ofValue (Value.entries?_map es) (Value.entries?_map es') hone h
  exact (sameOutcome_transform hmaps s .absent).mapError fun _ _ he => .transform he

/-- The routes of a field with a tag. -/
def routesWith (tag : List (Value × Value)) : Value :=
  .record [("find", .record [("tags", .map tag)])]

/-- Options in snake case. -/
def snakeOptions : List (Value × Value) :=
  [(.text "route_map", routesWith [(.text "name", .text "t")]), (.text "title", .text "T")]

/-- The options in camel case, in another order, with a further key beside them and in the tag. -/
def camelOptions : List (Value × Value) :=
  [(.text "title", .text "T"), (.text "x", .null),
    (.text "routeMap", routesWith [(.text "name", .text "t"), (.text "color", .text "red")])]

theorem snakeOptions_edits : Edits optionSpellings OptionEdited snakeOptions camelOptions := by
  have htag : TagEdited (.map [(.text "name", .text "t")])
      (.map [(.text "name", .text "t"), (.text "color", .text "red")]) :=
    ⟨_, _, rfl, rfl, by decide, .single (@Edit.insert _ _ [_] [] _ (by decide))⟩
  have hroutes : RouteMapEdited (routesWith [(.text "name", .text "t")])
      (routesWith [(.text "name", .text "t"), (.text "color", .text "red")]) := by
    refine ⟨_, _, rfl, rfl, .cons ⟨rfl, .inr ⟨_, _, rfl, rfl, by decide, .single ?_⟩⟩ .nil⟩
    exact @Edit.respell _ _ [] [] ["tags"] _ _ _ _ (by decide) (by decide) (by decide) (.inr htag)
  refine .tail (.tail (.single (.reorder (List.Perm.swap _ _ _)))
    (@Edit.insert _ _ [_] [_] (.text "x", .null) (by decide))) ?_
  exact @Edit.respell _ _ [_, _] [] ["routeMap", "route_map"] _ _ _ _ (by decide) (by decide)
    (by decide) (.inr ⟨rfl, hroutes⟩)

/-- Both mappings give a document, as a mapping and as keywords, and it is the same. -/
theorem camelOptions_agree : OneEach optionSpellings snakeOptions ∧
    Edits optionSpellings OptionEdited snakeOptions camelOptions ∧
    (∃ d d', (transform search (.map snakeOptions) .absent).run.1 = .ok d ∧
      (transform search (.map camelOptions) .absent).run.1 = .ok d' ∧ SameDocument d d') ∧
    SameOutcome SameGenerateError SameDocument (generate search snakeOptions).run.1
      (generate search camelOptions).run.1 := by
  have hone : OneEach optionSpellings snakeOptions := by decide
  obtain ⟨-, htransform, -, hgenerate⟩ := respelled_options_agree (Value.entries?_map snakeOptions)
    (Value.entries?_map camelOptions) hone snakeOptions_edits
  refine ⟨hone, snakeOptions_edits, ?_, hgenerate search (by decide) (by decide)⟩
  obtain ⟨d, hd⟩ : ∃ d, (transform search (.map snakeOptions) .absent).run.1 = .ok d := ⟨_, rfl⟩
  have hsame := htransform search .absent
  rw [hd] at hsame ⊢
  generalize (transform search (.map camelOptions) .absent).run.1 = outcome at hsame
  cases hsame with
  | ok h => exact ⟨d, _, rfl, rfl, h⟩

/-- A key that spells no option can keep a schema from its document. -/
theorem not_generate_keeps_document : ¬∀ (s : Schema) (es es' : List (Value × Value)),
    OneEach optionSpellings es → Edits optionSpellings OptionEdited es es' →
      SameOutcome SameGenerateError SameDocument (generate s es).run.1 (generate s es').run.1 := by
  intro h
  have hedit : Edit optionSpellings OptionEdited [] [(.text schemaParameter, .int 1)] :=
    @Edit.insert _ _ [] [] _ (by decide)
  have hsame := h search [] _ (by decide) (.single hedit)
  obtain ⟨d, hd⟩ : ∃ d, (generate search []).run.1 = .ok d := ⟨_, rfl⟩
  have hrepeated : (generate search [(.text schemaParameter, .int 1)]).run.1 =
      .error (.repeated schemaParameter) := rfl
  rw [hd, hrepeated] at hsame
  exact nomatch hsame

end GraphPaths
