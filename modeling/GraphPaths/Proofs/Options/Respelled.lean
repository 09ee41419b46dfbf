import GraphPaths.Proofs.Options.Spelling

/-!
# Options that are spelled in other ways

Every check tells the same of a value wherever it stands, and puts the place in front of what is
wrong (`TellsPlace`). So mappings that differ by edits of their keys give the same options or the
same errors, up to the spelling of the option that an error names (`checkEntries_edits`); unknown keys
may also be added to the routes and to their tags, and removed (`RouteMapEdited`).
-/

namespace GraphPaths

/-! ## Places of errors -/

/-- The error at a place that is inside another. -/
def OptionError.below (place : List String) (e : OptionError) : OptionError :=
  ⟨place ++ e.place, e.fault⟩

/-- What is wrong with a value does not depend on the place around it, which is told with it. -/
def TellsPlace {α : Type} (check : List String → Value → Checked α) : Prop :=
  ∀ place rest v, check (place ++ rest) v =
    (check rest v).mapError (List.map (OptionError.below place))

section

variable {α β : Type} {f : OptionError → OptionError}

theorem mapError_map (a : Checked α) (g : α → β) :
    (a.map g).mapError (List.map f) = (a.mapError (List.map f)).map g := by
  cases a <;> rfl

theorem mapError_mapError (a : Checked α) (g : OptionError → OptionError) :
    (a.mapError (List.map f)).mapError (List.map g) = a.mapError (List.map (g ∘ f)) := by
  cases a with
  | error es => exact congrArg Except.error (List.map_map ..)
  | ok x => rfl

theorem mapError_bothOf (a : Checked α) (b : Checked β) :
    (bothOf a b).mapError (List.map f) =
      bothOf (a.mapError (List.map f)) (b.mapError (List.map f)) := by
  cases a with
  | error es =>
    cases b with
    | error es' => exact congrArg Except.error List.map_append
    | ok y => rfl
  | ok x => cases b <;> rfl

theorem mapError_allOf (g : α → Checked β) : ∀ xs : List α,
    (allOf g xs).mapError (List.map f) = allOf (fun x => (g x).mapError (List.map f)) xs
  | [] => rfl
  | x :: xs => by
    have ih := mapError_allOf g xs
    simp only [allOf]
    rw [← ih]
    cases g x with
    | error es =>
      cases allOf g xs with
      | error es' => exact congrArg Except.error List.map_append
      | ok ys => rfl
    | ok y => cases allOf g xs <;> rfl

theorem TellsPlace.map {check : List String → Value → Checked α} (h : TellsPlace check)
    (g : α → β) : TellsPlace fun place v => (check place v).map g := by
  intro place rest v
  show (check (place ++ rest) v).map g = ((check rest v).map g).mapError _
  rw [h, mapError_map]

end

theorem tellsPlace_checkText : TellsPlace checkText := by
  intro place rest v
  unfold checkText
  split
  · rfl
  · next bs => cases Text.Utf8.decode bs <;> rfl
  · rfl

theorem tellsPlace_checkWord (place rest : List String) (word : String) :
    checkWord (place ++ rest) word =
      (checkWord rest word).mapError (List.map (OptionError.below place)) := by
  unfold checkWord
  split <;> rfl

theorem tellsPlace_checkInt (place rest : List String) (i : Int) :
    checkInt (place ++ rest) i =
      (checkInt rest i).mapError (List.map (OptionError.below place)) := by
  unfold checkInt
  split
  · rfl
  · split
    · rfl
    · split <;> rfl

theorem tellsPlace_checkBool : TellsPlace checkBool := by
  intro place rest v
  unfold checkBool
  split
  · rfl
  · exact tellsPlace_checkInt place rest _
  · split
    · exact tellsPlace_checkInt place rest _
    · rfl
  · exact tellsPlace_checkWord place rest _
  · split
    · exact tellsPlace_checkWord place rest _
    · rfl
  · rfl

theorem tellsPlace_checkMapping {α : Type} {check : List String → Value → Checked α}
    (h : TellsPlace check) : TellsPlace fun place => checkMapping place check := by
  intro place rest v
  show checkMapping (place ++ rest) check v = (checkMapping rest check v).mapError _
  unfold checkMapping
  cases v.entries? with
  | none => rfl
  | some es =>
    simp only [mapError_map, mapError_allOf, mapError_bothOf, List.append_assoc]
    refine congrArg (fun g => (allOf g es).map (mergeFields [])) (funext fun e => ?_)
    rw [tellsPlace_checkText, h]

theorem tellsPlace_checkTag : TellsPlace checkTag := by
  intro place rest v
  unfold checkTag
  cases v.entries? with
  | none => rfl
  | some es =>
    simp only [mapError_map, mapError_bothOf]
    congr 2
    · split
      · simp [Except.mapError, OptionError.below]
      · rw [List.append_assoc, tellsPlace_checkText]
    · split
      · rfl
      · rfl
      · rw [List.append_assoc, tellsPlace_checkText, mapError_map]

theorem tellsPlace_checkRoute : TellsPlace checkRoute := by
  intro place rest v
  unfold checkRoute
  cases v.entries? with
  | none => rfl
  | some es =>
    dsimp only
    split
    · rfl
    · rfl
    · rw [List.append_assoc, tellsPlace_checkTag, mapError_map]

/-! ## Tags and routes -/

/-- Two mappings in which each option of a table is spelled once differ by edits. -/
def Edited (table : List (List String)) (R : List String → Value → Value → Prop)
    (v v' : Value) : Prop :=
  ∃ es es', v.entries? = some es ∧ v'.entries? = some es' ∧ OneEach table es ∧ Edits table R es es'

/-- What a tag holds. -/
def tagTable : List (List String) :=
  [["name"], ["description"]]

/-- What a route holds. -/
def routeTable : List (List String) :=
  [["tags"]]

/-- Two tags with the same name and description. -/
def TagEdited : Value → Value → Prop :=
  Edited tagTable fun _ _ _ => False

/-- Two routes with the same tags, up to edits of these. -/
def RouteEdited : Value → Value → Prop :=
  Edited routeTable fun _ => TagEdited

/-- Two mappings with the same routes, up to edits of these. -/
def RouteMapEdited (v v' : Value) : Prop :=
  ∃ es es', v.entries? = some es ∧ v'.entries? = some es' ∧
    List.Forall₂ (fun e e' => e.1 = e'.1 ∧ (e.2 = e'.2 ∨ RouteEdited e.2 e'.2)) es es'

section

variable {es es' : List (Value × Value)} {place : List String} {v v' : Value}

/-- What a mapping holds under a text is what is given for an option that is spelled so only. -/
theorem get?_map (es : List (Value × Value)) (key : String) :
    (Value.map es).get? key = (givenOption es [key]).map Prod.snd := by
  unfold givenOption Value.get?
  show (es.find? fun e => e.1.text? == some key).map Prod.snd = _
  rw [List.findSome?_cons]
  cases es.find? fun e => e.1.text? == some key <;> rfl

/-- What is given for an option of a table whose values are not changed. -/
theorem Edit.get?_eq {table : List (List String)} (htable : Unambiguous table)
    (hone : OneEach table es) (h : Edit table (fun _ _ _ => False) es es') {key : String}
    (hkey : [key] ∈ table) : (Value.map es).get? key = (Value.map es').get? key := by
  have hgiven := h.givenOption htable hone hkey
  rw [get?_map, get?_map]
  generalize GraphPaths.givenOption es [key] = given, GraphPaths.givenOption es' [key] = given'
    at hgiven
  cases hgiven with
  | none => rfl
  | some hrel => exact congrArg some (hrel.2.2.resolve_right id)

theorem checkTag_of_entries? (h : v.entries? = some es) :
    checkTag place v = checkTag place (.map es) := by
  unfold checkTag Value.get?
  rw [h]
  rfl

theorem checkTag_edited (place : List String) (h : TagEdited v v') :
    checkTag place v = checkTag place v' := by
  obtain ⟨es, es', hes, hes', hone, hedits⟩ := h
  have htable : Unambiguous tagTable := by decide
  have hstep : ∀ es es', OneEach tagTable es → Edit tagTable (fun _ _ _ => False) es es' →
      checkTag place (.map es) = checkTag place (.map es') := by
    intro es es' hone hedit
    have hname := hedit.get?_eq htable hone (show ["name"] ∈ tagTable by decide)
    have hdescription := hedit.get?_eq htable hone (show ["description"] ∈ tagTable by decide)
    unfold checkTag
    rw [hname, hdescription]
    rfl
  rw [checkTag_of_entries? hes, checkTag_of_entries? hes']
  exact (hedits.congr htable hstep hone).1

theorem checkRoute_of_entries? (h : v.entries? = some es) :
    checkRoute place v = checkRoute place (.map es) := by
  unfold checkRoute Value.get?
  rw [h]
  rfl

/-- The settings of a field by the value of its tags. -/
def routeOf (place : List String) (tags : Option Value) : Checked RouteConfig :=
  match tags with
  | none | some .null => .ok ⟨none⟩
  | some x => (checkTag (place ++ ["tags"]) x).map fun t => ⟨some t⟩

theorem checkRoute_map (es : List (Value × Value)) :
    checkRoute place (.map es) = routeOf place ((Value.map es).get? "tags") :=
  rfl

theorem routeOf_of_entries? (h : v.entries? = some es) :
    routeOf place (some v) = (checkTag (place ++ ["tags"]) v).map fun t => ⟨some t⟩ := by
  cases v with
  | null => contradiction
  | _ => rfl

/-- Tags that are the same up to edits give the same settings. -/
theorem routeOf_congr {tags tags' : Option Value}
    (h : Option.Rel (fun v v' => v = v' ∨ TagEdited v v') tags tags') :
    routeOf place tags = routeOf place tags' := by
  cases h with
  | none => rfl
  | some hrel =>
    rcases hrel with rfl | hedited
    · rfl
    · have hsame := checkTag_edited (place ++ ["tags"]) hedited
      obtain ⟨es, es', hes, hes', -⟩ := hedited
      rw [routeOf_of_entries? hes, routeOf_of_entries? hes', hsame]

theorem checkRoute_edited (place : List String) (h : RouteEdited v v') :
    checkRoute place v = checkRoute place v' := by
  obtain ⟨es, es', hes, hes', hone, hedits⟩ := h
  have htable : Unambiguous routeTable := by decide
  have hstep : ∀ es es', OneEach routeTable es → Edit routeTable (fun _ => TagEdited) es es' →
      checkRoute place (.map es) = checkRoute place (.map es') := by
    intro es es' hone hedit
    rw [checkRoute_map, checkRoute_map]
    refine routeOf_congr ?_
    have hgiven := hedit.givenOption htable hone (show ["tags"] ∈ routeTable by decide)
    rw [get?_map, get?_map]
    generalize givenOption es ["tags"] = given, givenOption es' ["tags"] = given' at hgiven
    cases hgiven with
    | none => exact .none
    | some hrel => exact .some hrel.2.2
  rw [checkRoute_of_entries? hes, checkRoute_of_entries? hes']
  exact (hedits.congr htable hstep hone).1

theorem allOf_congr {α β : Type} {f : α → Checked β} {xs ys : List α}
    (h : List.Forall₂ (fun x y => f x = f y) xs ys) : allOf f xs = allOf f ys := by
  induction h with
  | nil => rfl
  | cons hx _ ih => simp only [allOf, hx, ih]

theorem checkMapping_edited (place : List String) (h : RouteMapEdited v v') :
    checkMapping place checkRoute v = checkMapping place checkRoute v' := by
  obtain ⟨es, es', hes, hes', hroutes⟩ := h
  unfold checkMapping
  rw [hes, hes']
  refine congrArg (Except.map (mergeFields [])) (allOf_congr (hroutes.imp ?_))
  rintro ⟨key, w⟩ ⟨_, w'⟩ ⟨rfl, rfl | hedited⟩
  · rfl
  · exact congrArg (bothOf _) (checkRoute_edited _ hedited)

end

/-! ## Options -/

/-- The spellings of the options, for each the one first that counts first. -/
def optionSpellings : List (List String) :=
  [["serverUrl", "server_url"], ["title"], ["openapi"], ["version"], ["summary"], ["description"],
   ["exampleValues", "example_values"], ["routeMap", "route_map"],
   ["includeOperationName", "include_operation_name"]]

/-- How the value of an option may be changed: the routes, by edits. -/
def OptionEdited (row : List String) (v v' : Value) : Prop :=
  row = ["routeMap", "route_map"] ∧ RouteMapEdited v v'

/-- The spelling of an option that counts first. -/
def firstSpelling (s : String) : String :=
  ((optionSpellings.find? (s ∈ ·)).bind List.head?).getD s

/-- The error under the first spelling of its option. -/
def OptionError.canonical (e : OptionError) : OptionError :=
  ⟨e.place.modifyHead firstSpelling, e.fault⟩

theorem unambiguous_optionSpellings : Unambiguous optionSpellings := by
  decide

theorem firstSpelling_eq : ∀ row ∈ optionSpellings, ∀ s ∈ row, ∀ s' ∈ row,
    firstSpelling s = firstSpelling s' := by
  decide

section

variable {es es' : List (Value × Value)} (hone : OneEach optionSpellings es)
include hone

/-- An edit of the entries keeps what comes of an option, up to the spelling in its errors. -/
theorem checkOption_edit (h : Edit optionSpellings OptionEdited es es') {α : Type}
    {row : List String} (hrow : row ∈ optionSpellings) (default : α)
    {check : List String → Value → Checked α} (hplace : TellsPlace check)
    (hcheck : ∀ v v', OptionEdited row v v' → check [] v = check [] v') :
    (checkOption es row default check).mapError (List.map OptionError.canonical) =
      (checkOption es' row default check).mapError (List.map OptionError.canonical) := by
  have hgiven := h.givenOption unambiguous_optionSpellings hone hrow
  rw [checkOption_eq, checkOption_eq]
  generalize givenOption es row = given, givenOption es' row = given' at hgiven
  cases hgiven with
  | none => rfl
  | @some x x' hrel =>
    obtain ⟨s, v⟩ := x
    obtain ⟨s', v'⟩ := x'
    obtain ⟨hs, hs', hvalue⟩ := hrel
    have hsame : check [] v = check [] v' := by
      rcases hvalue with heq | hedited
      · exact congrArg (check []) heq
      · exact hcheck v v' hedited
    -- The spelling is the first part of every place, and the check does not depend on it.
    have hspelling : OptionError.canonical ∘ OptionError.below [s] =
        OptionError.canonical ∘ OptionError.below [s'] :=
      funext fun e => congrArg (fun first => OptionError.mk (first :: e.place) e.fault)
        (firstSpelling_eq row hrow s hs s' hs')
    show (check ([s] ++ []) v).mapError _ = (check ([s'] ++ []) v').mapError _
    rw [hplace, hplace, mapError_mapError, mapError_mapError, hsame, hspelling]

/-- Only the value of the routes is changed. -/
theorem checkOption_edit_of_ne (h : Edit optionSpellings OptionEdited es es') {α : Type}
    {row : List String} (hrow : row ∈ optionSpellings) (hne : row ≠ ["routeMap", "route_map"])
    (default : α) {check : List String → Value → Checked α} (hplace : TellsPlace check) :
    (checkOption es row default check).mapError (List.map OptionError.canonical) =
      (checkOption es' row default check).mapError (List.map OptionError.canonical) :=
  checkOption_edit hone h hrow default hplace fun _ _ hedited => absurd hedited.1 hne

/-- One edit of the entries keeps what comes of them, up to the spellings in the errors. -/
theorem checkEntries_edit (h : Edit optionSpellings OptionEdited es es') :
    (checkEntries es).mapError (List.map OptionError.canonical) =
      (checkEntries es').mapError (List.map OptionError.canonical) := by
  have htext : TellsPlace checkTextValue := tellsPlace_checkText.map Value.text
  have hvalues : TellsPlace fun place v =>
      (checkMapping place (fun _ v => .ok v) v).map ExampleValues.named :=
    (tellsPlace_checkMapping fun _ _ _ => rfl).map ExampleValues.named
  have hnames : TellsPlace fun place v => (checkBool place v).map Value.bool :=
    tellsPlace_checkBool.map Value.bool
  unfold checkEntries
  simp only [mapError_map, mapError_bothOf]
  rw [checkOption_edit_of_ne hone h (by decide) (by decide) _ htext,
    checkOption_edit_of_ne hone h (by decide) (by decide) _ htext,
    checkOption_edit_of_ne hone h (by decide) (by decide) _ tellsPlace_checkText,
    checkOption_edit_of_ne hone h (by decide) (by decide) _ htext,
    checkOption_edit_of_ne hone h (by decide) (by decide) _ htext,
    checkOption_edit_of_ne hone h (by decide) (by decide) _ htext,
    checkOption_edit_of_ne hone h (by decide) (by decide) _ hvalues,
    checkOption_edit hone h (by decide) _ (tellsPlace_checkMapping tellsPlace_checkRoute)
      fun _ _ hedited => checkMapping_edited [] hedited.2,
    checkOption_edit_of_ne hone h (by decide) (by decide) _ hnames]

/-- Entries that differ by edits come to the same, up to the spellings in the errors. -/
theorem checkEntries_edits (h : Edits optionSpellings OptionEdited es es') :
    (checkEntries es).mapError (List.map OptionError.canonical) =
      (checkEntries es').mapError (List.map OptionError.canonical) :=
  (h.congr unambiguous_optionSpellings (fun _ _ hone => checkEntries_edit hone) hone).1

end

end GraphPaths
