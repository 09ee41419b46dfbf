import GraphPaths.Proofs.Export.Stages
import GraphPaths.Proofs.MappingFile
import GraphPaths.Proofs.Options.Editing
import GraphPaths.Proofs.Options.Labels

/-!
# Flags of an export

The flags of an export set single options over those of a file, and a second file adds example
values. All this comes to editing the mapping of options (`flags_edit_options`): each option that a
flag sets is put in the place of what the mapping says about it, under either spelling, and the
example values of both files are merged by their keys. Where the merged values stand does not matter,
since example values count by what is found under each name only (`transformWith_congr`).
-/

namespace GraphPaths

namespace CommandLine

/-! ## Flags -/

/-- The flags that set options, each with the spellings of its option. -/
def flagOptions : List (String × List String) :=
  [("--server-url", ["serverUrl", "server_url"]), ("--title", ["title"]),
   ("--openapi-version", ["openapi"]), ("--api-version", ["version"]), ("--summary", ["summary"]),
   ("--description", ["description"]),
   ("--operation-name", ["includeOperationName", "include_operation_name"])]

/-- The spellings of the option for example values. -/
def valueSpellings : List String :=
  ["exampleValues", "example_values"]

/-- The value of a flag, if it was given; that of a switch is true. -/
def flag? (s : Settings) (spelling : String) : Option Value :=
  (findParameter exportParameters spelling).bind fun p =>
    if p.kind == .switch then if s.isOn p.name then some (.bool true) else none
    else (s.one? p.name).map .text

/-- Entries with the options set that flags were given for, and with some example values. -/
def editedEntries (es : List (Value × Value)) (s : Settings) (values : List (String × Value)) :
    List (Value × Value) :=
  setOption (setOptions es (changesOf flagOptions Prod.snd fun row => flag? s row.1))
    valueSpellings (.record values)

/-- A mapping of options that was edited as flags and example values say. -/
def editedOptions (m : Value) (s : Settings) (values : List (String × Value)) : Value :=
  .map (editedEntries (m.entries?.getD []) s values)

/-- Options in which the flags that were given go before the options that were there. -/
structure Overrides (s : Settings) (o o' : Options) : Prop where
  serverUrl : o'.serverUrl = (flag? s "--server-url").getD o.serverUrl
  title : o'.title = (flag? s "--title").getD o.title
  openapi : .text o'.openapi = (flag? s "--openapi-version").getD (.text o.openapi)
  version : o'.version = (flag? s "--api-version").getD o.version
  summary : o'.summary = (flag? s "--summary").getD o.summary
  description : o'.description = (flag? s "--description").getD o.description
  operationName :
    o'.includeOperationName = (flag? s "--operation-name").getD o.includeOperationName
  routeMap : o'.routeMap = o.routeMap

section

variable {es : List (Value × Value)} (s : Settings) (values : List (String × Value))

/-- What is given for an option that no flag sets stays. -/
theorem givenOption_editedEntries_of_disjoint {other : List String}
    (hvalues : ∀ x ∈ other, x ∉ valueSpellings)
    (hflags : ∀ row ∈ flagOptions, ∀ x ∈ other, x ∉ row.2) :
    givenOption (editedEntries es s values) other = givenOption es other := by
  unfold editedEntries
  rw [givenOption_setOption_of_disjoint _ hvalues, givenOption_setOptions_of_disjoint]
  intro change hchange
  obtain ⟨row, hrow, heq⟩ := mem_changesOf hchange
  exact heq ▸ hflags row hrow

/-- What is given for an option that a flag sets is the value of the flag. -/
theorem givenOption_editedEntries {row : String × List String} (hrow : row ∈ flagOptions) :
    givenOption (editedEntries es s values) row.2 = match flag? s row.1 with
      | some v => row.2.head?.map (·, v)
      | none => givenOption es row.2 := by
  have hvalues : ∀ row ∈ flagOptions, ∀ x ∈ row.2, x ∉ valueSpellings := by decide
  have hdisjoint : flagOptions.Pairwise fun a b => ∀ x ∈ a.2, x ∉ b.2 := by decide
  unfold editedEntries
  rw [givenOption_setOption_of_disjoint _ (hvalues row hrow)]
  exact givenOption_setOptions hdisjoint row hrow

/-- An option that a flag sets passes its check if the value of the flag does. -/
theorem checkOption_editedEntries {α : Type} {row : String × List String} (hrow : row ∈ flagOptions)
    {default a b : α} {check : List String → Value → Checked α}
    (h : checkOption es row.2 default check = .ok a)
    (hflag : ∀ v, flag? s row.1 = some v → ∀ place, check place v = .ok b)
    (hnone : flag? s row.1 = none → a = b) :
    checkOption (editedEntries es s values) row.2 default check = .ok b := by
  have hspelled : ∀ row ∈ flagOptions, row.2 ≠ [] := by decide
  rw [checkOption_eq, givenOption_editedEntries s values hrow]
  cases hv : flag? s row.1 with
  | none =>
    rw [checkOption_eq] at h
    exact hnone hv ▸ h
  | some v =>
    obtain ⟨first, rest, hfirst⟩ := List.exists_cons_of_ne_nil (hspelled row hrow)
    rw [hfirst]
    exact hflag v hv [first]

/-- An option that a flag sets to a text. -/
theorem checkText_editedEntries {flag name : String} {spellings : List String}
    (hrow : (flag, spellings) ∈ flagOptions) (hname : flag? s flag = (s.one? name).map .text)
    {default a : Value} (h : checkOption es spellings default checkTextValue = .ok a) :
    checkOption (editedEntries es s values) spellings default checkTextValue =
      .ok (((s.one? name).map Value.text).getD a) := by
  refine checkOption_editedEntries s values hrow h (fun v hv place => ?_) fun hv => ?_
  · rw [hname] at hv
    obtain ⟨text, htext, rfl⟩ := Option.map_eq_some_iff.mp hv
    rw [htext]
    rfl
  · rw [← hname, hv]
    rfl

/-- The version of the notation, which is kept as a text. -/
theorem checkVersion_editedEntries {default a : String}
    (h : checkOption es ["openapi"] default checkText = .ok a) :
    checkOption (editedEntries es s values) ["openapi"] default checkText =
      .ok ((s.one? "openapi_version").getD a) := by
  have hname : flag? s "--openapi-version" = (s.one? "openapi_version").map .text := rfl
  refine checkOption_editedEntries s values
    (by decide : ("--openapi-version", ["openapi"]) ∈ flagOptions) h (fun v hv place => ?_)
    fun hv => ?_
  · rw [hname] at hv
    obtain ⟨text, htext, rfl⟩ := Option.map_eq_some_iff.mp hv
    rw [htext]
    rfl
  · rw [hname] at hv
    rw [Option.map_eq_none_iff.mp hv]
    rfl

/-- Whether requests name their operation, which a switch can only turn on. -/
theorem checkNames_editedEntries {default a : Value}
    (h : checkOption es ["includeOperationName", "include_operation_name"] default
      (fun place v => (checkBool place v).map .bool) = .ok a) :
    checkOption (editedEntries es s values) ["includeOperationName", "include_operation_name"]
      default (fun place v => (checkBool place v).map .bool) =
        .ok (if s.isOn "operation_name" then .bool true else a) := by
  have hname : flag? s "--operation-name" =
      if s.isOn "operation_name" then some (.bool true) else none := rfl
  refine checkOption_editedEntries s values (by decide :
    ("--operation-name", ["includeOperationName", "include_operation_name"]) ∈ flagOptions) h
    (fun v hv place => ?_) fun hv => ?_
  · rw [hname] at hv
    split at hv
    · next hon =>
      obtain rfl := Option.some.inj hv
      rw [if_pos hon]
      rfl
    · contradiction
  · rw [hname] at hv
    split at hv
    · contradiction
    · next hoff => rw [if_neg hoff]

theorem checkMapping_record (place : List String) {fields : List (String × Value)}
    (h : (fields.map Prod.fst).Nodup) :
    checkMapping place (fun _ v => .ok v) (.record fields) = .ok fields := by
  have hall : allOf (fun e : Value × Value =>
      bothOf (checkText (place ++ [e.1.shown] ++ ["[key]"]) e.1) (.ok e.2))
        (fields.map fun f => (Value.text f.1, f.2)) = .ok fields := by
    clear h
    induction fields with
    | nil => rfl
    | cons f fields ih =>
      rw [List.map_cons]
      unfold allOf
      rw [ih]
      rfl
  unfold checkMapping
  rw [Value.entries?_record]
  show (allOf _ _).map (mergeFields []) = _
  rw [hall]
  exact congrArg Except.ok (mergeFields_eq_append h)

/-- Edited entries give the options that the flags change, with the example values. -/
theorem checkEntries_editedEntries (t : FileTree) {o : Options} (h : checkEntries es = .ok o)
    (hvalues : (values.map Prod.fst).Nodup) :
    checkEntries (editedEntries es s values) =
      .ok { o.change (exportOf t s).changes with exampleValues := .named values } := by
  obtain ⟨hserverUrl, htitle, hopenapi, hversion, hsummary, hdescription, -, hroutes, hnames⟩ :=
    checkEntries_eq_ok.mp h
  refine checkEntries_eq_ok.mpr ⟨?_, ?_, ?_, ?_, ?_, ?_, ?_, ?_, ?_⟩
  · exact checkText_editedEntries s values
      (by decide : ("--server-url", ["serverUrl", "server_url"]) ∈ flagOptions) rfl hserverUrl
  · exact checkText_editedEntries s values
      (by decide : ("--title", ["title"]) ∈ flagOptions) rfl htitle
  · exact checkVersion_editedEntries s values hopenapi
  · exact checkText_editedEntries s values
      (by decide : ("--api-version", ["version"]) ∈ flagOptions) rfl hversion
  · exact checkText_editedEntries s values
      (by decide : ("--summary", ["summary"]) ∈ flagOptions) rfl hsummary
  · exact checkText_editedEntries s values
      (by decide : ("--description", ["description"]) ∈ flagOptions) rfl hdescription
  · have hgiven : givenOption (editedEntries es s values) valueSpellings =
        some ("exampleValues", .record values) := givenOption_setOption valueSpellings _
    refine (checkOption_of_given hgiven _ _).trans ?_
    rw [checkMapping_record _ hvalues]
    rfl
  · rw [checkOption_eq] at hroutes ⊢
    rw [givenOption_editedEntries_of_disjoint s values (by decide) (by decide)]
    exact hroutes
  · exact checkNames_editedEntries s values hnames

end

/-- An edited mapping gives the options that the flags change, with the example values. -/
theorem ofValue_editedOptions (t : FileTree) {m : Value} {es : List (Value × Value)} {o : Options}
    (hes : m.entries? = some es) (ho : Options.ofValue m = .ok o) (s : Settings)
    {values : List (String × Value)} (hvalues : (values.map Prod.fst).Nodup) :
    ∃ n, Options.ofValue (editedOptions m s values) = .ok { o.change (exportOf t s).changes with
      exampleValues := .named (Value.label n values).1 } := by
  obtain ⟨entries, checked, hentries, hchecked, rfl⟩ := ofValue_eq_ok.mp ho
  obtain rfl := Except.ok.inj ((entriesOf_of_entries? hes).symm.trans hentries)
  have hedited := checkEntries_editedEntries s values t hchecked hvalues
  have hmap : (editedOptions m s values).entries? = some (editedEntries es s values) := by
    unfold editedOptions
    rw [hes]
    rfl
  exact ⟨(editedOptions m s values).labelBound,
    ofValue_eq_ok.mpr ⟨_, _, entriesOf_of_entries? hmap, hedited, rfl⟩⟩

/-- Options that flags change have the values of the flags. -/
theorem overrides_change (t : FileTree) (s : Settings) (o : Options) (values : ExampleValues) :
    Overrides s o { o.change (exportOf t s).changes with exampleValues := values } where
  serverUrl := rfl
  title := rfl
  openapi := by
    show Value.text ((s.one? "openapi_version").getD o.openapi) =
      ((s.one? "openapi_version").map Value.text).getD (.text o.openapi)
    cases s.one? "openapi_version" <;> rfl
  version := rfl
  summary := rfl
  description := rfl
  operationName := by
    show (if s.isOn "operation_name" then Value.bool true else o.includeOperationName) =
      (if s.isOn "operation_name" then some (Value.bool true) else none).getD o.includeOperationName
    cases s.isOn "operation_name" <;> rfl
  routeMap := rfl

/-! ## Exports -/

/-- What a mapping file holds is a mapping. -/
theorem entries?_of_loadMapping {t : FileTree} {path : Option FilePath} {m : Value}
    (h : (loadMapping t path).run.1 = .ok m) : ∃ es, m.entries? = some es := by
  obtain ⟨-, rfl⟩ | ⟨p, text, v, -, -, -, ⟨-, rfl⟩ | ⟨hes, rfl⟩⟩ := loadMapping_eq_ok_iff.mp h
  · exact ⟨[], rfl⟩
  · exact ⟨[], rfl⟩
  · exact hes

/-- The fields of a mapping under other labels, and some of them under labels of their own. -/
def Relabelled (fields given : List (String × Value)) : Prop :=
  ∃ n, List.Forall₂ (fun f x => x.1 = f.1 ∧
    (x.2 = f.2.raise n ∨ ∃ l, x.2 = .shared l (f.2.raise n))) fields given

/-- Values by name: under each name the value given last, or else the one that was there. -/
structure Merges (fields given values : List (String × Value)) : Prop where
  nodup : (values.map Prod.fst).Nodup
  lookup : ∀ key, values.lookup key = (given.reverse.lookup key).or (fields.lookup key)

section

variable {t : FileTree} {s : Settings} {m file : Value} {o : Options}
  {fields : List (String × Value)}

/-- The options of an export are those of a file, changed by the flags, with the merged example
values. -/
theorem readOptions_exportOf (hm : (loadMapping t (exportOf t s).options).run.1 = .ok m)
    (ho : Options.ofValue m = .ok o)
    (hfile : (loadMapping t (exportOf t s).exampleValues).run.1 = .ok file)
    (hfields : file.fields? = some fields) :
    ∃ given merged, Relabelled fields given ∧ (∀ x ∈ given, x.2.canShare = false) ∧
      Merges o.exampleValues.fields given merged ∧
      ((exportOf t s).readOptions t).run.1 =
        .ok { o.change (exportOf t s).changes with exampleValues := .named merged } := by
  obtain ⟨config, hconfig⟩ := exampleValues_ofValue ho
  rw [(Export.readOptions_yields t (exportOf t s)).run_fst, hm]
  show ∃ given merged, _ ∧ _ ∧ _ ∧
    ((Options.ofValue m).mapError CommandError.options >>= fun o => _) = _
  rw [ho]
  cases hpath : (exportOf t s).exampleValues with
  | none =>
    rw [hpath] at hfile
    obtain rfl := Except.ok.inj hfile
    obtain rfl := Option.some.inj hfields
    refine ⟨[], config, ⟨0, .nil⟩, nofun, ⟨?_, fun key => ?_⟩, ?_⟩
    · have hnodup := nodup_exampleValues ho
      rwa [hconfig] at hnodup
    · rw [hconfig]
      rfl
    · show Except.ok (o.change (exportOf t s).changes) = _
      rw [← hconfig]
      rfl
  | some p =>
    rw [hpath] at hfile
    refine ⟨o.labelledFields file fields, _, ⟨o.labelBound, ?_⟩, fun x hx => canShare_of_label hx,
      ⟨nodup_mergeFields (nodup_exampleValues ho), fun key => lookup_mergeFields key _ _⟩, ?_⟩
    · have hlabelled := forall₂_label (fields.map fun f => (f.1, f.2.raise o.labelBound))
        (max o.labelBound (file.raise o.labelBound).labelBound)
      rwa [List.forall₂_map_left_iff] at hlabelled
    · simp only [hfile]
      show Except.ok ((o.change (exportOf t s).changes).addExampleValues file) = _
      rw [addExampleValues_eq _ hfields]
      rfl

/-- Labelled values that are merged are found as they are. -/
theorem lookup_label_of_merges {given values : List (String × Value)}
    (ho : Options.ofValue m = .ok o) (hgiven : ∀ x ∈ given, x.2.canShare = false)
    (hvalues : Merges o.exampleValues.fields given values) (n : Nat) (key : String) :
    (Value.label n values).1.lookup key = values.lookup key := by
  refine lookup_label fun v hv => ?_
  rw [hvalues.lookup key] at hv
  rcases Option.or_eq_some_iff.mp hv with hv | ⟨-, hv⟩
  · exact hgiven (key, v) (List.mem_reverse.mp (mem_of_lookup hv))
  · exact canShare_of_ofValue ho (key, v) (mem_of_lookup hv)

end

/-- The kinds of operations can be asked for by their keywords. -/
theorem exists_requestedKinds {operations : List String}
    (h : ∀ k ∈ operations, k ∈ OperationKind.all.map OperationKind.keyword) :
    ∃ requested, requestedKinds (kindsOf operations) = .ok requested := by
  have hone : ∀ c ∈ operations.map fun name => KindChoice.named (.text name),
      ∃ kind, c.read = .ok kind := by
    intro c hc
    obtain ⟨k, hk, rfl⟩ := List.mem_map.mp hc
    obtain ⟨kind, -, rfl⟩ := List.mem_map.mp (h k hk)
    exact ⟨kind, by cases kind <;> rfl⟩
  by_cases hempty : (kindsOf operations).isEmpty
  · exact ⟨_, requestedKinds_of_isEmpty hempty⟩
  · rw [requestedKinds_of_choices hempty rfl]
    exact exists_mapM_ok hone

/-- Flags edit the options.

Let an export have a schema without flaws, a file with options that are accepted, and perhaps a file
with example values under texts. Then its document is the one that the options give once they were
edited: for each flag that was given, its value stands in place of all that they said about the
option, and the example values are merged by their names, those of the other file before their own.
So options without a flag stay as they are, and the settings of fields in any case. There is a
document for every selection of kinds of operations, and an export that ends well has written its
text. Labels say which parts of a document are one, and the values of the other file may get new
ones. -/
theorem flags_edit_options (t : FileTree) (l : Logging) (s : Settings) (schema : Schema)
    (m file : Value) (o : Options) (fields : List (String × Value))
    (hschema : (loadSchema t (schemasOf t s)).run.1 = .ok schema)
    (hsound : schema.problems = .ok [])
    (hm : (loadMapping t ((s.one? "config").map FilePath.parse)).run.1 = .ok m)
    (ho : Options.ofValue m = .ok o)
    (hfile : (loadMapping t ((s.one? "example_values").map FilePath.parse)).run.1 = .ok file)
    (hfields : file.fields? = some fields) :
    ∃ given, Relabelled fields given ∧ (∃ values, Merges o.exampleValues.fields given values) ∧
      ∀ values, Merges o.exampleValues.fields given values →
        let document :=
          (transform schema (editedOptions m s values) (kindsOf (s.all "operations"))).run.1
        (∃ o', Options.ofValue (editedOptions m s values) = .ok o' ∧ Overrides s o o' ∧
          ∀ key, o'.exampleValues.fields.lookup key = values.lookup key) ∧
        ((exportOf t s).document t).run.1 = document.mapError .transform ∧
        ((∀ k ∈ s.all "operations", k ∈ OperationKind.all.map OperationKind.keyword) →
          ∃ d, document = .ok d) ∧
        ((runExport t l s).ending = .exit 0 → ∃ d text, document = .ok d ∧
          serialize d.toValue (exportOf t s).formatName = .ok text ∧
          (runExport t l s).files.read (exportOf t s).output = .ok (FileTree.bytesOf text)) := by
  obtain ⟨given, merged, hrelabelled, hgiven, hmerged, hoptions⟩ :=
    readOptions_exportOf hm ho hfile hfields
  obtain ⟨es, hes⟩ := entries?_of_loadMapping hm
  refine ⟨given, hrelabelled, ⟨merged, hmerged⟩, fun values hvalues => ?_⟩
  intro document
  obtain ⟨n, hedited⟩ := ofValue_editedOptions t hes ho s hvalues.nodup
  have hlookup := lookup_label_of_merges ho hgiven hvalues n
  have hdocument : ((exportOf t s).document t).run.1 = document.mapError .transform := by
    have hsame : ∀ key, (ExampleValues.named merged).find? key =
        (ExampleValues.named (Value.label n values).1).find? key := by
      intro key
      show Except.ok (merged.lookup key) = Except.ok ((Value.label n values).1.lookup key)
      rw [hlookup, hmerged.lookup key, hvalues.lookup key]
    refine (Export.document_of_sound (e := exportOf t s) hschema hsound hoptions).trans ?_
    rw [transformWith_congr schema _ hsame, ← run_transform hedited]
    rfl
  refine ⟨⟨_, hedited, overrides_change t s o _, hlookup⟩, hdocument, fun hkinds => ?_,
    fun hend => ?_⟩
  · have hs := coherent_of_loadSchema hschema
    obtain ⟨requested, hrequested⟩ := exists_requestedKinds hkinds
    exact ⟨_, (run_transform hedited schema _).trans ((Schema.transformWith_eq_ok_iff hs rfl).mpr
      ⟨requested, hrequested, fun kind _ => Schema.hasRootFields_of_problems hsound kind, rfl⟩)⟩
  · cases runExport_ends t l s with
    | written d text hd htext _ houtput _ =>
      exact ⟨d, text, mapError_eq_ok.mp (hdocument.symm.trans hd), htext, houtput⟩
    | reported hreported =>
      rw [hreported] at hend
      contradiction
    | failed x _ hfailed =>
      rw [hfailed] at hend
      contradiction

/-- Files with a schema, options in both spellings, and example values. -/
def searchFiles : FileTree :=
  ⟨[(["s.graphql"], FileTree.bytesOf "type Query { find(id: [Int], k: Int): String }"),
    (["c.json"], FileTree.bytesOf
      "\x7b\"server_url\": \"/old\", \"title\": \"A\", \"exampleValues\": \x7b\"id\": [1]\x7d\x7d"),
    (["v.json"], FileTree.bytesOf "\x7b\"k\": 2\x7d")], [], [], []⟩

/-- Settings with flags, one of them empty, and both files. -/
def searchSettings : Settings :=
  [("schemas", ["s.graphql"]), ("output", ["o.json"]), ("config", ["c.json"]),
   ("example_values", ["v.json"]), ("server_url", ["/new"]), ("title", [""]),
   ("operation_name", ["true"])]

/-- The flags edit the options of the file. -/
theorem searchFiles_edited : ∃ schema m o file fields,
    (loadSchema searchFiles (schemasOf searchFiles searchSettings)).run.1 = .ok schema ∧
    schema.problems = .ok [] ∧
    (loadMapping searchFiles (some (.parse "c.json"))).run.1 = .ok m ∧ Options.ofValue m = .ok o ∧
    (loadMapping searchFiles (some (.parse "v.json"))).run.1 = .ok file ∧
    file.fields? = some fields ∧
    ∃ values d text, ((exportOf searchFiles searchSettings).document searchFiles).run.1 = .ok d ∧
      (transform schema (editedOptions m searchSettings values) (kindsOf [])).run.1 = .ok d ∧
      serialize d.toValue "json" = .ok text ∧
      (runExport searchFiles ⟨.info, none⟩ searchSettings).files.read (.parse "o.json") =
        .ok (FileTree.bytesOf text) := by
  have hsound : ((loadSchema searchFiles (schemasOf searchFiles searchSettings)).run.1.toOption.bind
      fun schema => schema.problems.toOption) = some [] := by decide +kernel
  have hconfig : ((loadMapping searchFiles (some (.parse "c.json"))).run.1.toOption.bind
      fun m => (Options.ofValue m).toOption).isSome := by decide +kernel
  have hvalues : ((loadMapping searchFiles (some (.parse "v.json"))).run.1.toOption.bind
      Value.fields?).isSome := by decide +kernel
  obtain ⟨schema, hschema, hproblems⟩ := Option.bind_eq_some_iff.mp hsound
  obtain ⟨o, hconfig⟩ := Option.isSome_iff_exists.mp hconfig
  obtain ⟨m, hm, ho⟩ := Option.bind_eq_some_iff.mp hconfig
  obtain ⟨fields, hvalues⟩ := Option.isSome_iff_exists.mp hvalues
  obtain ⟨file, hfile, hfields⟩ := Option.bind_eq_some_iff.mp hvalues
  replace hschema := toOption_eq_some.mp hschema
  replace hproblems := toOption_eq_some.mp hproblems
  replace hm := toOption_eq_some.mp hm
  replace ho := toOption_eq_some.mp ho
  replace hfile := toOption_eq_some.mp hfile
  obtain ⟨given, -, ⟨values, hmerged⟩, hedited⟩ := flags_edit_options searchFiles ⟨.info, none⟩
    searchSettings schema m file o fields hschema hproblems hm ho hfile hfields
  obtain ⟨-, hdocument, -, hwritten⟩ := hedited values hmerged
  obtain ⟨d, text, hd, htext, hread⟩ := hwritten (by decide +kernel)
  exact ⟨schema, m, o, file, fields, hschema, hproblems, hm, ho, hfile, hfields, values, d, text,
    hdocument.trans (congrArg _ hd), hd, htext, hread⟩

end CommandLine

end GraphPaths
