import GraphPaths.Proofs.Options.Merging
import GraphPaths.Proofs.Outcome

/-!
# Options that pass their checks

Options are accepted if each passes its own check (`checkEntries_eq_ok`). Example values that pass
are values by name (`exampleValues_ofValue`), one for each name (`nodup_exampleValues`), each as it
was given, perhaps behind a label (`exampleValues_eq_label`).
-/

namespace GraphPaths

theorem bothOf_eq_ok {α β : Type} {a : Checked α} {b : Checked β} {x : α} {y : β} :
    bothOf a b = .ok (x, y) ↔ a = .ok x ∧ b = .ok y := by
  unfold bothOf
  cases a <;> cases b <;> simp

/-- Entries give options if each option passes its check. -/
theorem checkEntries_eq_ok {es : List (Value × Value)} {o : Options} :
    checkEntries es = .ok o ↔
      checkOption es ["serverUrl", "server_url"] Options.standard.serverUrl checkTextValue
        = .ok o.serverUrl ∧
      checkOption es ["title"] Options.standard.title checkTextValue = .ok o.title ∧
      checkOption es ["openapi"] Options.standard.openapi checkText = .ok o.openapi ∧
      checkOption es ["version"] Options.standard.version checkTextValue = .ok o.version ∧
      checkOption es ["summary"] Options.standard.summary checkTextValue = .ok o.summary ∧
      checkOption es ["description"] Options.standard.description checkTextValue
        = .ok o.description ∧
      checkOption es ["exampleValues", "example_values"] Options.standard.exampleValues
        (fun place v => (checkMapping place (fun _ v => .ok v) v).map .named)
        = .ok o.exampleValues ∧
      checkOption es ["routeMap", "route_map"] Options.standard.routeMap
        (fun place => checkMapping place checkRoute) = .ok o.routeMap ∧
      checkOption es ["includeOperationName", "include_operation_name"]
        Options.standard.includeOperationName (fun place v => (checkBool place v).map .bool)
        = .ok o.includeOperationName := by
  unfold checkEntries
  rw [map_eq_ok]
  constructor
  · rintro ⟨⟨⟨serverUrl, title, openapi, version, summary, description⟩, values, routes, names⟩,
      h, rfl⟩
    simpa only [bothOf_eq_ok, and_assoc] using h
  · intro h
    refine ⟨((o.serverUrl, o.title, o.openapi, o.version, o.summary, o.description),
      o.exampleValues, o.routeMap, o.includeOperationName), ?_, rfl⟩
    simpa only [bothOf_eq_ok, and_assoc] using h

/-- The first of some spellings that is among the entries, with what is under it. -/
def givenOption (entries : List (Value × Value)) (spellings : List String) :
    Option (String × Value) :=
  spellings.findSome? fun s =>
    (entries.find? fun e => e.1.text? == some s).map fun e => (s, e.2)

theorem checkOption_eq {α : Type} (entries : List (Value × Value)) (spellings : List String)
    (default : α) (check : List String → Value → Checked α) :
    checkOption entries spellings default check = match givenOption entries spellings with
      | some (s, v) => check [s] v
      | none => .ok default :=
  rfl

theorem checkOption_of_given {α : Type} {entries : List (Value × Value)} {spellings : List String}
    {s : String} {v : Value} (h : givenOption entries spellings = some (s, v)) (default : α)
    (check : List String → Value → Checked α) :
    checkOption entries spellings default check = check [s] v := by
  rw [checkOption_eq, h]

/-- An option is the default or what the check makes of what is given. -/
theorem checkOption_eq_ok {α : Type} {entries : List (Value × Value)} {spellings : List String}
    {default a : α} {check : List String → Value → Checked α}
    (h : checkOption entries spellings default check = .ok a) :
    a = default ∨ ∃ place, ∃ given ∈ entries, check place given.2 = .ok a := by
  rw [checkOption_eq] at h
  split at h
  · next s v hgiven =>
    obtain ⟨spelling, -, hfound⟩ := List.exists_of_findSome?_eq_some hgiven
    obtain ⟨given, hfind, heq⟩ := Option.map_eq_some_iff.mp hfound
    obtain ⟨-, rfl⟩ := Prod.mk.inj heq
    exact .inr ⟨[s], given, List.mem_of_find?_eq_some hfind, h⟩
  · exact .inl (Except.ok.inj h).symm

/-- Options are those of checked entries, with labels for the example values. -/
theorem ofValue_eq_ok {v : Value} {o : Options} : Options.ofValue v = .ok o ↔
    ∃ es checked, entriesOf v = .ok es ∧ checkEntries es = .ok checked ∧
      { checked with exampleValues := (checked.exampleValues.label v.labelBound).1 } = o := by
  unfold Options.ofValue
  simp only [bind_eq_ok, mapError_eq_ok]
  constructor
  · rintro ⟨es, hes, checked, hchecked, h⟩
    exact ⟨es, checked, hes, hchecked, Except.ok.inj h⟩
  · rintro ⟨es, checked, hes, hchecked, rfl⟩
    exact ⟨es, hes, checked, hchecked, rfl⟩

/-- Options that come out as texts. -/
structure Options.HasTexts (o : Options) : Prop where
  serverUrl : ∃ s, o.serverUrl = .text s
  title : ∃ s, o.title = .text s
  version : ∃ s, o.version = .text s
  summary : ∃ s, o.summary = .text s
  description : ∃ s, o.description = .text s

theorem checkTextValue_eq_ok {place : List String} {v a : Value}
    (h : checkTextValue place v = .ok a) : ∃ s, a = .text s := by
  obtain ⟨s, -, rfl⟩ := map_eq_ok.mp h
  exact ⟨s, rfl⟩

/-- The head of a document and the address of its server are texts. -/
theorem hasTexts_ofValue {v : Value} {o : Options} (h : Options.ofValue v = .ok o) :
    o.HasTexts := by
  have htext : ∀ {es : List (Value × Value)} {spellings : List String} {d a : Value},
      (∃ s, d = .text s) → checkOption es spellings d checkTextValue = .ok a →
        ∃ s, a = .text s := by
    intro es spellings d a hd ha
    rcases checkOption_eq_ok ha with rfl | ⟨place, given, -, hgiven⟩
    · exact hd
    · exact checkTextValue_eq_ok hgiven
  obtain ⟨entries, checked, -, hchecked, rfl⟩ := ofValue_eq_ok.mp h
  obtain ⟨hserverUrl, htitle, -, hversion, hsummary, hdescription, -⟩ :=
    checkEntries_eq_ok.mp hchecked
  exact ⟨htext ⟨_, rfl⟩ hserverUrl, htext ⟨_, rfl⟩ htitle, htext ⟨_, rfl⟩ hversion,
    htext ⟨_, rfl⟩ hsummary, htext ⟨_, rfl⟩ hdescription⟩

/-- Example values that pass their check are values by name. -/
theorem exampleValues_of_checkEntries {es : List (Value × Value)} {o : Options}
    (h : checkEntries es = .ok o) : ∃ named, o.exampleValues = .named named := by
  obtain ⟨-, -, -, -, -, -, hvalues, -⟩ := checkEntries_eq_ok.mp h
  rcases checkOption_eq_ok hvalues with hdefault | ⟨place, given, -, hgiven⟩
  · exact ⟨[], hdefault⟩
  · obtain ⟨named, -, hnamed⟩ := map_eq_ok.mp hgiven
    exact ⟨named, hnamed.symm⟩

/-- Example values among options are values by name. -/
theorem exampleValues_ofValue {v : Value} {o : Options} (h : Options.ofValue v = .ok o) :
    ∃ named, o.exampleValues = .named named := by
  obtain ⟨entries, checked, -, hchecked, rfl⟩ := ofValue_eq_ok.mp h
  obtain ⟨named, hnamed⟩ := exampleValues_of_checkEntries hchecked
  exact ⟨(Value.label v.labelBound named).1, by rw [hnamed]; rfl⟩

/-! ## Example values -/

theorem forall₂_of_allOf {α β : Type} {f : α → Checked β} : ∀ {xs : List α} {ys : List β},
    allOf f xs = .ok ys → List.Forall₂ (fun x y => f x = .ok y) xs ys
  | [], ys, h => by
    obtain rfl := Except.ok.inj h
    exact .nil
  | x :: xs, ys, h => by
    unfold allOf at h
    split at h
    · next y ys' hy hys =>
      obtain rfl := Except.ok.inj h
      exact .cons hy (forall₂_of_allOf hys)
    all_goals contradiction

/-- A mapping that passes is made of its entries, each of which passes. -/
theorem checkMapping_eq_ok {α : Type} {place : List String}
    {check : List String → Value → Checked α} {v : Value} {named : List (String × α)}
    (h : checkMapping place check v = .ok named) :
    ∃ es read, v.entries? = some es ∧ named = mergeFields [] read ∧
      List.Forall₂ (fun e x => check (place ++ [e.1.shown]) e.2 = .ok x.2) es read := by
  unfold checkMapping at h
  split at h
  · contradiction
  · next es hes =>
    obtain ⟨read, hread, rfl⟩ := map_eq_ok.mp h
    exact ⟨es, read, hes, rfl, (forall₂_of_allOf hread).imp fun e x hx => (bothOf_eq_ok.mp hx).2⟩

/-- The labelled values stand under the same names, each as it was or behind a label. -/
theorem forall₂_label : ∀ (fields : List (String × Value)) (n : Nat),
    List.Forall₂ (fun f x => x.1 = f.1 ∧ (x.2 = f.2 ∨ ∃ l, x.2 = .shared l f.2)) fields
      (Value.label n fields).1
  | [], _ => .nil
  | (k, v) :: fields, n => by
    unfold Value.label
    split
    · exact .cons ⟨rfl, .inr ⟨n, rfl⟩⟩ (forall₂_label fields (n + 1))
    · exact .cons ⟨rfl, .inl rfl⟩ (forall₂_label fields n)

/-- A labelled value is one of the values, perhaps behind a label. -/
theorem mem_label {fields : List (String × Value)} {n : Nat} {x : String × Value}
    (h : x ∈ (Value.label n fields).1) : ∃ f ∈ fields, x.2 = f.2 ∨ ∃ l, x.2 = .shared l f.2 := by
  obtain ⟨f, hf, -, hx⟩ := exists_of_forall₂ (forall₂_label fields n) h
  exact ⟨f, hf, hx⟩

/-- Labels leave the names as they are. -/
theorem keys_label (fields : List (String × Value)) (n : Nat) :
    (Value.label n fields).1.map Prod.fst = fields.map Prod.fst := by
  have hnames : List.Forall₂ (· = ·) (fields.map Prod.fst)
      ((Value.label n fields).1.map Prod.fst) := by
    rw [List.forall₂_map_left_iff, List.forall₂_map_right_iff]
    exact (forall₂_label fields n).imp fun _ _ h => h.1.symm
  exact (List.forall₂_eq_eq_eq ▸ hnames).symm

theorem entriesOf_of_entries? {v : Value} {es : List (Value × Value)} (h : v.entries? = some es) :
    entriesOf v = .ok es := by
  unfold Value.entries? at h
  split at h
  · next es' hbare =>
    obtain rfl := Option.some.inj h
    unfold entriesOf Value.isEmpty
    rw [hbare]
    simp only [List.isEmpty_iff]
    split
    · next hempty => rw [hempty]
    · rfl
  · contradiction

/-- The example values are those of a mapping that is one of the options, with labels. -/
theorem exampleValues_eq_label {v : Value} {o : Options} (h : Options.ofValue v = .ok o)
    {es : List (Value × Value)} (hv : v.entries? = some es) :
    ∃ named n, o.exampleValues = .named (Value.label n named).1 ∧ ∀ x ∈ named, ∃ given ∈ es,
      ∃ fields, given.2.entries? = some fields ∧ ∃ f ∈ fields, x.2 = f.2 := by
  obtain ⟨entries, checked, hentries, hchecked, rfl⟩ := ofValue_eq_ok.mp h
  obtain rfl := Except.ok.inj ((entriesOf_of_entries? hv).symm.trans hentries)
  obtain ⟨-, -, -, -, -, -, hvalues, -⟩ := checkEntries_eq_ok.mp hchecked
  rcases checkOption_eq_ok hvalues with hdefault | ⟨place, given, hmember, hgiven⟩
  · refine ⟨[], v.labelBound, ?_, nofun⟩
    show (checked.exampleValues.label _).1 = _
    rw [hdefault]
    rfl
  · obtain ⟨named, hnamed, hvalues⟩ := map_eq_ok.mp hgiven
    refine ⟨named, v.labelBound, by rw [← hvalues]; rfl, fun x hx => ⟨given, hmember, ?_⟩⟩
    obtain ⟨fields, read, hfields, rfl, hread⟩ := checkMapping_eq_ok hnamed
    have hmem := (mem_of_mem_mergeFields hx).resolve_left List.not_mem_nil
    obtain ⟨f, hf, hsame⟩ := exists_of_forall₂ hread hmem
    exact ⟨fields, hfields, f, hf, (Except.ok.inj hsame).symm⟩

/-- No two example values have one name. -/
theorem nodup_exampleValues {v : Value} {o : Options} (h : Options.ofValue v = .ok o) :
    (o.exampleValues.fields.map Prod.fst).Nodup := by
  obtain ⟨entries, checked, -, hchecked, rfl⟩ := ofValue_eq_ok.mp h
  obtain ⟨-, -, -, -, -, -, hvalues, -⟩ := checkEntries_eq_ok.mp hchecked
  rcases checkOption_eq_ok hvalues with hdefault | ⟨place, given, -, hgiven⟩
  · rw [hdefault]
    exact List.nodup_nil
  · obtain ⟨named, hnamed, hvalues⟩ := map_eq_ok.mp hgiven
    obtain ⟨-, read, -, rfl, -⟩ := checkMapping_eq_ok hnamed
    rw [← hvalues]
    show ((Value.label v.labelBound (mergeFields [] read)).1.map Prod.fst).Nodup
    rw [keys_label]
    exact nodup_mergeFields List.nodup_nil

end GraphPaths
