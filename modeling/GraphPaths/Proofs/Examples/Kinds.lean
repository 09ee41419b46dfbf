import GraphPaths.Proofs.Examples.Build
import GraphPaths.Proofs.Text.Lowering

/-!
# Kinds that are asked for

Only the set of kinds that a request stands for matters (`buildExamples_congr`): a root is gone
through if its kind is among those asked for. A kind may be written in capitals and with white space
around it (`ofValue_padded`), since neither is left after stripping and lowering, and in no other way
(`ofText?_eq_some_iff`).
-/

namespace GraphPaths

/-! ## Spelling -/

theorem isLetter_of_mem_keyword {kind : OperationKind} {c : Char} (h : c ∈ kind.keyword.toList) :
    Text.isLetter c := by
  have hall : kind.keyword.toList.all Text.isLetter := by cases kind <;> decide
  exact List.all_eq_true.mp hall c h

theorem all_find_keyword (kind : OperationKind) :
    OperationKind.all.find? (fun k => k.keyword == kind.keyword) = some kind := by
  cases kind <;> decide

/-- No keyword has the letter that the Kelvin sign is lowered to. -/
theorem ne_kelvin_of_mem_keyword {kind : OperationKind} {c : Char} (h : c ∈ kind.keyword.toList) :
    c ≠ 'k' := by
  rintro rfl
  cases kind <;> exact absurd h (by decide)

theorem lower_eq_keyword_iff {cs : List Char} {kind : OperationKind} :
    Text.lower (String.ofList cs) = kind.keyword ↔ cs.map Text.lowerChar = kind.keyword.toList := by
  have hkeyword : ∀ d ∈ kind.keyword.toList, Text.isLetter d ∧ d ≠ 'k' :=
    fun d hd => ⟨isLetter_of_mem_keyword hd, ne_kelvin_of_mem_keyword hd⟩
  rw [← Text.lowerFrom_eq_iff hkeyword [], ← String.toList_inj, Text.lower,
    String.toList_ofList, String.toList_ofList]

/-- A text names a kind if it is the keyword but for the case of ASCII letters and for white space
around it. -/
theorem ofText?_eq_some_iff {s : String} {kind : OperationKind} :
    OperationKind.ofText? s = some kind ↔
      (Text.strip s.toList).map Text.lowerChar = kind.keyword.toList := by
  rw [← lower_eq_keyword_iff]
  unfold OperationKind.ofText?
  constructor
  · intro h
    have hkeyword := List.find?_some h
    exact (beq_iff_eq.mp hkeyword).symm
  · intro h
    rw [h, all_find_keyword]

theorem OperationKind.ofValue_eq_ok {v : Value} {kind : OperationKind} :
    OperationKind.ofValue v = .ok kind ↔ OperationKind.ofText? v.shown = some kind := by
  unfold OperationKind.ofValue
  cases OperationKind.ofText? v.shown <;> simp

theorem ofValue_text_eq_ok {s : String} {kind : OperationKind} :
    OperationKind.ofValue (.text s) = .ok kind ↔
      (Text.strip s.toList).map Text.lowerChar = kind.keyword.toList := by
  have hshown : (Value.text s).shown = s := rfl
  rw [OperationKind.ofValue_eq_ok, hshown, ofText?_eq_some_iff]

theorem isLetter_of_map_lowerChar {word : List Char} {kind : OperationKind}
    (hw : word.map Text.lowerChar = kind.keyword.toList) : ∀ c ∈ word, Text.isLetter c :=
  fun _ hc => Text.isLetter_of_lowerChar (isLetter_of_mem_keyword (hw ▸ List.mem_map_of_mem hc))

/-- A keyword names its kind in letters of either case and with white space around it. -/
theorem ofValue_padded (kind : OperationKind) {before word after : List Char}
    (hb : ∀ c ∈ before, Text.isBlank c) (ha : ∀ c ∈ after, Text.isBlank c)
    (hw : word.map Text.lowerChar = kind.keyword.toList) :
    OperationKind.ofValue (.text (String.ofList (before ++ word ++ after))) = .ok kind := by
  have hstrip : Text.strip (before ++ word ++ after) = word :=
    Text.stripBy_padded hb ha fun c hc =>
      Text.isBlank_of_isLetter (isLetter_of_map_lowerChar hw c hc)
  rw [ofValue_text_eq_ok, String.toList_ofList, hstrip, hw]

/-! ## Sets of kinds -/

theorem addKind_congr (roots : Roots) (values : ExampleValues) (withName : Bool)
    {requested requested' : List OperationKind} (h : ∀ k, k ∈ requested ↔ k ∈ requested') :
    addKind roots values withName requested = addKind roots values withName requested' := by
  have hcontains : ∀ k, requested.contains k = requested'.contains k := fun k => by
    rw [Bool.eq_iff_iff]
    simpa using h k
  funext ex kind
  unfold addKind
  rw [hcontains]

/-- Requests that stand for the same kinds give the same examples, with the same records. -/
theorem buildExamples_congr (roots : Roots) (values : ExampleValues) (withName : Bool)
    {kinds kinds' : Kinds} {requested requested' : List OperationKind}
    (hk : requestedKinds kinds = .ok requested) (hk' : requestedKinds kinds' = .ok requested')
    (h : ∀ k, k ∈ requested ↔ k ∈ requested') :
    buildExamples roots values kinds withName = buildExamples roots values kinds' withName := by
  unfold buildExamples
  rw [hk, hk']
  refine congrArg (fun step => Job.ofExcept (.ok step) >>= fun step =>
    OperationKind.all.foldlM step []) (addKind_congr roots values withName h)

/-- What counts as absent stands for both kinds. -/
theorem requestedKinds_of_isEmpty {kinds : Kinds} (h : kinds.isEmpty) :
    requestedKinds kinds = .ok OperationKind.all := by
  unfold requestedKinds
  rw [if_pos h]

/-- The kinds that choices stand for. -/
theorem requestedKinds_of_choices {kinds : Kinds} (h : ¬kinds.isEmpty) {choices : List KindChoice}
    (hchoices : kinds.choices? = some choices) :
    requestedKinds kinds = choices.mapM KindChoice.read := by
  unfold requestedKinds
  rw [if_neg h, hchoices]

/-- Choices by values are read as these values are. -/
theorem mapM_read_named (items : List Value) :
    (items.map KindChoice.named).mapM KindChoice.read = items.mapM OperationKind.ofValue := by
  induction items with
  | nil => rfl
  | cons v items ih =>
    rw [List.map_cons, List.mapM_cons, List.mapM_cons, ih]
    rfl

/-- The kinds that a list of values stands for. -/
theorem requestedKinds_list {items : List Value} (h : items ≠ []) :
    requestedKinds (.data (.list items)) = items.mapM OperationKind.ofValue := by
  have hempty : ¬(Kinds.data (.list items)).isEmpty := by
    cases items with
    | nil => contradiction
    | cons x xs => exact Bool.false_ne_true
  rw [requestedKinds_of_choices hempty rfl, mapM_read_named]

end GraphPaths
