import GraphPaths.Proofs.Document.Contents
import GraphPaths.Proofs.Json.Readable
import GraphPaths.Proofs.Yaml.Calm
import GraphPaths.Proofs.Yaml.Roundtrip

/-!
# Documents written and read back

A document can be written as JSON just if the example values that it uses can
(`exists_serialize_iff`), its text keeps the grammar of JSON if they hold finite numbers only
(`isValue_serialize`), and the text is read as the document if they are data that JSON has
(`read_serialize`), as they are if the options were read from JSON (`read_serialize_of_json`).

Such a document can be written as YAML too, and it is read back from that text just if all its texts are
drawn where they are legible (`load_serialize_iff`, `load_serialize_iff_of_json`). They are if none has
the character U+0085, no key has one beyond U+FFFF and the document is not too deep
(`load_serialize_of_isCalm`).
-/

namespace GraphPaths

theorem serialize_json_eq_ok {v : Value} {text : String} :
    serialize v "json" = .ok text ↔ Json.text v = .ok text :=
  mapError_eq_ok (f := SerializeError.json)

theorem serialize_yaml_eq_ok {v : Value} {text : String} :
    serialize v "yaml" = .ok text ↔ Yaml.text v = .ok text :=
  mapError_eq_ok (f := SerializeError.number)

/-! ## Example values from JSON -/

/-- What holds of a mapping of options holds of what stands in one of its mappings. -/
theorem Permits.of_given {P : Value → Prop} {Q : List Value → Prop} (h : Permits P Q)
    {options : Value} (hoptions : P options) {es fields : List (Value × Value)}
    (hes : options.entries? = some es) {given f : Value × Value} (hgiven : given ∈ es)
    (hfields : given.2.entries? = some fields) (hf : f ∈ fields) : P f.2 :=
  (h.of_entries? ((h.of_entries? hoptions hes).2 given hgiven) hfields).2 f hf

theorem isCollection_of_isReadable {v : Value} (h : v.isReadable) (hshare : v.canShare) :
    v.isCollection := by
  cases v with
  | list _ | map _ => rfl
  | _ => contradiction

/-- The example values of options that were read from JSON are data that JSON has, each of its labels
standing for one of them. -/
theorem exampleValues_of_json {source : String} {options : Value}
    (hsource : Json.read source = .ok options) (hmap : options.entries?.isSome) {o : Options}
    (ho : Options.ofValue options = .ok o) :
    (∀ x ∈ o.exampleValues.fields, x.2.isReadable) ∧
      ∃ env, ∀ x ∈ o.exampleValues.fields, x.2.LabelledBy env := by
  obtain ⟨es, hes⟩ := Option.isSome_iff_exists.mp hmap
  obtain ⟨named, n, hvalues, hnamed⟩ := exampleValues_eq_label ho hes
  have hreadable : ∀ x ∈ named, x.2.isReadable := by
    intro x hx
    obtain ⟨given, hgiven, fields, hfields, f, hf, heq⟩ := hnamed x hx
    exact heq ▸ permits_readable.of_given (Json.isReadable_of_read hsource) hes hgiven hfields hf
  have hplain : ∀ x ∈ named, ∀ env, x.2.LabelledBy env := by
    intro x hx env
    obtain ⟨given, hgiven, fields, hfields, f, hf, heq⟩ := hnamed x hx
    exact heq ▸ (permits_labelledBy env).of_given (Json.labelledBy_of_read hsource env) hes hgiven
      hfields hf
  rw [hvalues]
  refine ⟨fun x hx => ?_, Value.exists_labelledBy_label n hplain fun f hf =>
    isCollection_of_isReadable (hreadable f hf)⟩
  obtain ⟨f, hf, heq | ⟨l, heq⟩⟩ := mem_label hx
  · exact heq ▸ hreadable f hf
  · rw [heq]
    exact hreadable f hf

/-! ## Documents -/

section

variable {s : Schema} (hs : s.Coherent) {options : Value} {kinds : Kinds} {o : Options}
  (ho : Options.ofValue options = .ok o) {requested : List OperationKind}
  (hk : requestedKinds kinds = .ok requested) {d : ApiDocument}
  (hd : (transform s options kinds).run.1 = .ok d)
include hs ho hk hd

/-- A document can be written as JSON just if the example values that it uses can. -/
theorem exists_serialize_iff : (∃ text, serialize d.toValue "json" = .ok text) ↔
    ∀ v, s.Uses requested o v → v.isWritable := by
  refine Iff.trans ?_ (permits_writable.transform hs ho hk hd)
  simp only [serialize_json_eq_ok]
  exact Json.exists_text_iff d.toValue

/-- The text of a document keeps the grammar of JSON if the example values that it uses hold finite
numbers only. -/
theorem isValue_serialize (hexact : ∀ v, s.Uses requested o v → v.isExact) {text : String}
    (htext : serialize d.toValue "json" = .ok text) : Json.IsValue text.toList :=
  Json.isValue_text (serialize_json_eq_ok.mp htext)
    ((permits_exact.transform hs ho hk hd).mpr hexact)

/-- A document is read back from its text if the example values that it uses are read back from
theirs. -/
theorem read_serialize (hreadable : ∀ v, s.Uses requested o v → v.isReadable) :
    ∃ text, serialize d.toValue "json" = .ok text ∧ Json.read text = .ok d.toValue.plain := by
  have hd := (permits_readable.transform hs ho hk hd).mpr hreadable
  obtain ⟨text, htext⟩ := (Json.exists_text_iff d.toValue).mpr (Json.isWritable_of_isReadable hd)
  exact ⟨text, serialize_json_eq_ok.mpr htext, Json.read_text htext hd⟩

/-- A document is read back from its text as YAML just if all its texts are legible, so long as the
example values that it uses are data that JSON has and each label stands for one of them. -/
theorem load_serialize_iff {env : Nat → Value}
    (hreadable : ∀ v, s.Uses requested o v → v.isReadable)
    (hlabelled : ∀ v, s.Uses requested o v → v.LabelledBy env) :
    ∃ text, serialize d.toValue "yaml" = .ok text ∧
      ((∃ w, Yaml.load text = .ok w ∧ w.plain = d.toValue.plain) ↔
        ∀ site ∈ (Yaml.layout d.toValue).sites, site.legible) := by
  have hreadable := (permits_readable.transform hs ho hk hd).mpr hreadable
  have hlabelled := ((permits_labelledBy env).transform hs ho hk hd).mpr hlabelled
  obtain ⟨es, hne, hes⟩ : ∃ es, es ≠ [] ∧ d.toValue = .map es := ⟨_, List.cons_ne_nil _ _, rfl⟩
  rw [hes] at hreadable hlabelled ⊢
  obtain ⟨text, htext, hload⟩ := Yaml.load_text_iff hne hreadable hlabelled
  exact ⟨text, serialize_yaml_eq_ok.mpr htext, hload⟩

variable {source : String} (hsource : Json.read source = .ok options)
  (hmap : options.entries?.isSome)
include hsource hmap

/-- With options that are a mapping read from JSON, a document can be written as JSON, and it is read
back from its text. -/
theorem read_serialize_of_json :
    ∃ text, serialize d.toValue "json" = .ok text ∧ Json.read text = .ok d.toValue.plain := by
  obtain ⟨hreadable, -⟩ := exampleValues_of_json hsource hmap ho
  refine read_serialize hs ho hk hd fun v ⟨_, _, _, a, _, hlookup⟩ => ?_
  exact hreadable _ (mem_of_lookup hlookup)

/-- With such options a document can be written as YAML, and it is read back from its text just if all
its texts are legible. -/
theorem load_serialize_iff_of_json : ∃ text, serialize d.toValue "yaml" = .ok text ∧
    ((∃ w, Yaml.load text = .ok w ∧ w.plain = d.toValue.plain) ↔
      ∀ site ∈ (Yaml.layout d.toValue).sites, site.legible) := by
  obtain ⟨hreadable, env, hlabelled⟩ := exampleValues_of_json hsource hmap ho
  have hused : ∀ v, s.Uses requested o v → v.isReadable ∧ v.LabelledBy env :=
    fun v ⟨_, _, _, a, _, hlookup⟩ =>
      ⟨hreadable _ (mem_of_lookup hlookup), hlabelled _ (mem_of_lookup hlookup)⟩
  exact load_serialize_iff hs ho hk hd (fun v hv => (hused v hv).1) fun v hv => (hused v hv).2

/-- With such options a calm document that is not too deep is read back from its text as YAML. -/
theorem load_serialize_of_isCalm (hcalm : d.toValue.isCalm) (hdepth : d.toValue.depth < 40) :
    ∃ text w, serialize d.toValue "yaml" = .ok text ∧ Yaml.load text = .ok w ∧
      w.plain = d.toValue.plain := by
  obtain ⟨text, htext, hload⟩ := load_serialize_iff_of_json hs ho hk hd hsource hmap
  obtain ⟨w, hw, hplain⟩ := hload.mpr (Yaml.legible_of_isCalm hcalm hdepth)
  exact ⟨text, w, htext, hw, hplain⟩

end

end GraphPaths
