import GraphPaths.CommandError
import GraphPaths.Proofs.Json.Faults
import GraphPaths.Proofs.Yaml.Faults

/-!
# What comes of a mapping file

A mapping file gives the mapping that its text holds, or an empty one for null (`loadMapping_eq_ok_iff`),
and fails where the file cannot be read, where its text has no value and where the value is no mapping
(`loadMapping_eq_error_iff`). Those are the failures a caller is told to expect (`IsExpected`), but for
bytes that are no text, integers with too many digits, and YAML scalars that are no value of the kind
they are taken as (`loadMapping_fails`).
-/

namespace GraphPaths

/-- The mapping that the value of a file is. -/
def mappingOf (name : String) (v : Value) : Except MappingFileError Value :=
  match v.bare with
  | .null => .ok (.map [])
  | .map _ => .ok v
  | _ => .error (.notMapping name v.kindName)

section

variable {t : FileTree} {p : FilePath} {path : Option FilePath}

theorem loadMapping_some (t : FileTree) (p : FilePath) : (loadMapping t (some p)).run.1 = (do
    let text ← (t.readText p).mapError MappingFileError.text
    let v ← valueOfText p text
    mappingOf p.name v) := by
  refine Job.Yields.run_fst ((Job.yields_ofExcept _).bind fun text _ =>
    (Job.yields_ofExcept _).bind fun v _ => (Job.yields_log _ _).then ?_)
  unfold mappingOf
  cases v.bare with
  | null => exact Job.yields_pure _
  | map es => exact Job.yields_pure _
  | _ => exact Job.yields_throw _

theorem mappingOf_eq_ok_iff {name : String} {v m : Value} : mappingOf name v = .ok m ↔
    v.bare = .null ∧ m = .map [] ∨ (∃ es, v.entries? = some es) ∧ m = v := by
  unfold mappingOf Value.entries?
  cases v.bare <;> simp [eq_comm]

theorem mappingOf_eq_error_iff {name : String} {v : Value} {e : MappingFileError} :
    mappingOf name v = .error e ↔
      v.bare ≠ .null ∧ v.entries? = none ∧ e = .notMapping name v.kindName := by
  unfold mappingOf Value.entries?
  cases v.bare <;> simp [eq_comm]

/-- When loading gives a mapping, and which. -/
theorem loadMapping_eq_ok_iff {m : Value} : (loadMapping t path).run.1 = .ok m ↔
    path = none ∧ m = .map [] ∨ ∃ p text v, path = some p ∧ t.readText p = .ok text ∧
      valueOfText p text = .ok v ∧
      (v.bare = .null ∧ m = .map [] ∨ (∃ es, v.entries? = some es) ∧ m = v) := by
  cases path with
  | none =>
    simp only [true_and, reduceCtorEq, false_and, exists_const, or_false]
    exact ⟨fun h => (Except.ok.inj h).symm, fun h => h ▸ rfl⟩
  | some p =>
    simp only [loadMapping_some, bind_eq_ok, mapError_eq_ok, mappingOf_eq_ok_iff, reduceCtorEq,
      false_and, false_or, Option.some.injEq]
    constructor
    · rintro ⟨text, htext, v, hv, h⟩
      exact ⟨p, text, v, rfl, htext, hv, h⟩
    · rintro ⟨_, text, v, rfl, htext, hv, h⟩
      exact ⟨text, htext, v, hv, h⟩

/-- When loading fails, and how: the file cannot be read, its text has no value, or the value is
neither null nor a mapping. -/
theorem loadMapping_eq_error_iff {e : MappingFileError} :
    (loadMapping t path).run.1 = .error e ↔ ∃ p, path = some p ∧
      ((∃ f, t.readText p = .error f ∧ e = .text f) ∨
        ∃ text, t.readText p = .ok text ∧ (valueOfText p text = .error e ∨
          ∃ v, valueOfText p text = .ok v ∧ v.bare ≠ .null ∧ v.entries? = none ∧
            e = .notMapping p.name v.kindName)) := by
  cases path with
  | none => exact ⟨nofun, nofun⟩
  | some p =>
    simp only [loadMapping_some, bind_eq_error, mapError_eq_ok, mapError_eq_error,
      mappingOf_eq_error_iff, Option.some.injEq, exists_eq_left']
    constructor
    · rintro (⟨f, hf, rfl⟩ | h)
      · exact .inl ⟨f, hf, rfl⟩
      · exact .inr h
    · rintro (⟨f, hf, rfl⟩ | h)
      · exact .inl ⟨f, hf, rfl⟩
      · exact .inr h

/-- An empty file that is no JSON gives an empty mapping. -/
theorem loadMapping_of_empty (hp : p.suffix ≠ ".json") (htext : t.readText p = .ok "") :
    (loadMapping t (some p)).run.1 = .ok (.map []) := by
  have hvalue : valueOfText p "" = .ok .null := by
    unfold valueOfText
    rw [if_neg (by simpa using hp)]
    rfl
  exact loadMapping_eq_ok_iff.mpr (.inr ⟨p, "", .null, rfl, htext, hvalue, .inl ⟨rfl, rfl⟩⟩)

/-! ## Failures -/

/-- The failures that a caller is told to expect: the file cannot be read, its text is no JSON or no
YAML, or it holds no mapping. -/
def MappingFileError.IsExpected : MappingFileError → Prop
  | .text (.file _) | .json (.fault ..) | .yaml .malformed | .notMapping .. => True
  | _ => False

/-- There is a report about every failure that is expected. -/
theorem MappingFileError.IsExpected.isSome_report {e : MappingFileError} (h : e.IsExpected) :
    e.report?.isSome := by
  cases e with
  | yaml f => cases f with
    | malformed => rfl
    | _ => exact h.elim
  | _ => rfl

/-- The failures that a text of JSON has. -/
theorem valueOfText_fails_json {text : String} {e : MappingFileError} (hp : p.suffix = ".json")
    (h : valueOfText p text = .error e) :
    e.IsExpected ∨ ∃ n, e = .json (.number n) ∧ Json.TooManyDigits text.toList n := by
  unfold valueOfText at h
  rw [if_pos (by simpa using hp)] at h
  obtain ⟨f, hf, rfl⟩ := mapError_eq_error.mp h
  cases f with
  | fault => exact .inl trivial
  | number n => exact .inr ⟨n, rfl, Json.number_of_read hf⟩

/-- The failures that a text of YAML has. -/
theorem valueOfText_fails_yaml {text : String} {e : MappingFileError} (hp : p.suffix ≠ ".json")
    (h : valueOfText p text = .error e) : ∃ f, e = .yaml f ∧ Yaml.load text = .error f := by
  unfold valueOfText at h
  rw [if_neg (by simpa using hp)] at h
  obtain ⟨f, hf, rfl⟩ := mapError_eq_error.mp h
  exact ⟨f, rfl, hf⟩

/-- Loading fails as expected, or for bytes that are no text, for an integer of JSON with too many
digits, or for what makes a text of YAML have no value. -/
theorem loadMapping_fails {e : MappingFileError} (h : (loadMapping t path).run.1 = .error e) :
    e.IsExpected ∨ (∃ f, e = .text (.encoding f)) ∨
      ∃ p text, path = some p ∧ t.readText p = .ok text ∧
        (p.suffix = ".json" ∧ (∃ n, e = .json (.number n) ∧ Json.TooManyDigits text.toList n) ∨
          p.suffix ≠ ".json" ∧ ∃ f, e = .yaml f ∧
            (.broken f ∈ Yaml.tokens text ∨ Yaml.ValueFaultOf (Yaml.tokens text) f)) := by
  obtain ⟨p, rfl, ⟨f, -, rfl⟩ | ⟨text, htext, hvalue | ⟨v, -, -, -, rfl⟩⟩⟩ :=
    loadMapping_eq_error_iff.mp h
  · cases f with
    | file f => exact .inl trivial
    | encoding f => exact .inr (.inl ⟨f, rfl⟩)
  · by_cases hp : p.suffix = ".json"
    · rcases valueOfText_fails_json hp hvalue with h | h
      · exact .inl h
      · exact .inr (.inr ⟨p, text, rfl, htext, .inl ⟨hp, h⟩⟩)
    · obtain ⟨f, rfl, hf⟩ := valueOfText_fails_yaml hp hvalue
      exact .inr (.inr ⟨p, text, rfl, htext, .inr ⟨hp, f, rfl, Yaml.fault_of_load hf⟩⟩)
  · exact .inl trivial

section

variable {text : String} {e : MappingFileError} (htext : t.readText p = .ok text)
  (h : (loadMapping t (some p)).run.1 = .error e)
include htext h

/-- What a text makes loading fail with: the failure of the text, or that of a value of another kind. -/
theorem fails_of_text : valueOfText p text = .error e ∨ e.IsExpected := by
  obtain ⟨_, hp, ⟨f, hf, -⟩ | ⟨text', htext', hvalue | ⟨v, -, -, -, rfl⟩⟩⟩ :=
    loadMapping_eq_error_iff.mp h
  · obtain rfl := Option.some.inj hp
    rw [hf] at htext
    contradiction
  · obtain rfl := Option.some.inj hp
    obtain rfl := Except.ok.inj (htext'.symm.trans htext)
    exact .inl hvalue
  · exact .inr trivial

/-- Without integers that are too long a text of JSON fails as expected. -/
theorem isExpected_of_json (hp : p.suffix = ".json")
    (hdigits : ∀ ds, Text.IsDigits ds → ds <:+: text.toList → ds.length ≤ digitLimit) :
    e.IsExpected := by
  rcases fails_of_text htext h with hvalue | he
  · rcases valueOfText_fails_json hp hvalue with he | ⟨n, -, ds, hds, hfound, hlong, -⟩
    · exact he
    · exact absurd (hdigits ds hds hfound) (Nat.not_le.mpr hlong)
  · exact he

/-- Without tags a text of YAML fails as expected if its plain scalars are what they look like, and no
escape or version is at fault. -/
theorem isExpected_of_yaml (hp : p.suffix ≠ ".json") (htags : ¬Yaml.HasTags (Yaml.tokens text))
    (hbroken : ∀ f, .broken f ∈ Yaml.tokens text → f = .malformed)
    (hplain : ∀ s, .scalar s true ∈ Yaml.tokens text →
      ∀ f, Yaml.scalar (Yaml.scalarKind s) s = .error f → f = .malformed) : e.IsExpected := by
  rcases fails_of_text htext h with hvalue | he
  · obtain ⟨f, rfl, hf⟩ := valueOfText_fails_yaml hp hvalue
    obtain rfl : f = .malformed := by
      rcases Yaml.fault_of_load hf with hf | hf | ⟨s, hs, hf⟩ | ⟨hmarked, -⟩
      · exact hbroken f hf
      · exact hf
      · exact hplain s hs f hf
      · exact absurd hmarked htags
    trivial
  · exact he

/-- Without tags there is a report about every failure, but for numbers of too many seconds and codes
far beyond all characters. -/
theorem isSome_report_of_untagged (hp : p.suffix ≠ ".json")
    (htags : ¬Yaml.HasTags (Yaml.tokens text)) :
    e.report?.isSome ∨ e = .yaml .tooLarge ∨ ∃ code, 2 ^ 31 ≤ code ∧ e = .yaml (.codePoint code) := by
  rcases fails_of_text htext h with hvalue | he
  · obtain ⟨f, rfl, hf⟩ := valueOfText_fails_yaml hp hvalue
    rcases Yaml.fault_of_untagged htags hf with hf | rfl | rfl | ⟨n, rfl⟩ | ⟨c, rfl⟩
    · cases f with
      | malformed => exact .inl rfl
      | codePoint code =>
        by_cases hcode : code < 2 ^ 31
        · exact .inl (by simpa [MappingFileError.report?, Yaml.LoadError.report?] using hcode)
        · exact .inr (.inr ⟨code, Nat.not_lt.mp hcode, rfl⟩)
      | number n => exact .inl rfl
      | _ => exact hf.elim
    · exact .inl rfl
    · exact .inr (.inl rfl)
    · exact .inl rfl
    · exact .inl rfl
  · exact .inl he.isSome_report

end

end

end GraphPaths
