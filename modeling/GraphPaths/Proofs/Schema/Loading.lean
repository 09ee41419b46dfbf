import GraphPaths.Proofs.Schema.Coherence
import GraphPaths.SchemaFiles

/-!
# Loading schemas

A schema is loaded if its files can be read and built and if, beyond that, every value of an
enumeration that is deprecated for a reason has a text as its reason (`loadSchema_eq_ok_iff`). The
last comes of the log alone: the schema is written to it, and only then are the values of
enumerations looked at (`enumerationError_eq_none_iff`). Nothing else that a schema may hold,
defaults least of all, keeps it from being loaded (`loadSchema_eq_error_iff`).
-/

namespace GraphPaths

open Graphql

namespace Graphql

/-! ## Reasons of deprecations -/

/-- The values of an enumeration. -/
def TypeBody.enumValues : TypeBody → List EnumValue
  | .enumeration values => values
  | _ => []

/-- Whether a literal is a text. -/
def Literal.isText : Literal → Bool
  | .string _ | .blockString _ => true
  | _ => false

/-- The reason that directives give for a deprecation. -/
def deprecationReason? (ds : List Directive) : Option Literal :=
  (useOf "deprecated" ds).bind fun d =>
    (d.arguments.find? fun a => a.name == "reason").map Argument.value

/-- The values of enumerations are deprecated for reasons that are texts. -/
def Document.ReasonsAreTexts (d : Document) : Prop :=
  ∀ t ∈ d.ownTypes, ∀ v ∈ t.body.enumValues, ∀ reason ∈ deprecationReason? v.directives,
    reason.isText

end Graphql

theorem checkTextArgument_eq_ok_iff (text : List Char) (argument : String) (a : Argument) :
    checkTextArgument text argument a = .ok () ↔ a.value.isText := by
  unfold checkTextArgument
  cases a.value <;> simp [Literal.isText]

/-- It can be told whether something is deprecated unless the reason is no text. -/
theorem exists_deprecated_iff {text : List Char} {ds : List Directive} :
    (∃ b, deprecated text ds = .ok b) ↔ ∀ reason ∈ deprecationReason? ds, reason.isText := by
  unfold deprecated deprecationReason?
  cases useOf "deprecated" ds with
  | none => simp
  | some d =>
    simp only [Option.bind_some]
    cases d.arguments.find? fun a => a.name == "reason" with
    | none => simp
    | some a =>
      have hreason := checkTextArgument_eq_ok_iff text "reason" a
      simp only [Option.map_some, Option.mem_def, Option.some.injEq, forall_eq', ← hreason]
      constructor
      · rintro ⟨b, hb⟩
        obtain ⟨_, ha, -⟩ := bind_eq_ok.mp hb
        exact ha
      · intro ha
        rw [ha]
        exact ⟨true, rfl⟩

/-! ## Values of enumerations -/

theorem firstError_eq_none_iff {ε α β : Type} {f : α → Except ε β} {xs : List α} :
    firstError f xs = none ↔ ∀ x ∈ xs, ∃ y, f x = .ok y := by
  unfold firstError
  rw [List.findSome?_eq_none_iff]
  refine forall₂_congr fun x _ => ?_
  cases f x <;> simp

/-- What is wrong with a value of an enumeration. -/
def TypeShape.valueError? : TypeShape → Option PartError
  | .enumeration _ error => error
  | _ => none

theorem enumerationError_eq_findSome (s : Schema) :
    s.enumerationError? = s.types.findSome? fun t => t.shape.valueError? :=
  rfl

/-- A type has the error of the first of its values that has one. -/
theorem valueError_of_namedType {text : List Char} {t : TypeDefinition} {n : NamedType}
    (h : namedType text t = .ok n) :
    n.shape.valueError? = firstError (fun v => deprecated text v.directives) t.body.enumValues := by
  obtain ⟨shape, hshape, h⟩ := bind_eq_ok.mp h
  obtain rfl := Except.ok.inj h
  have hshape := mapError_eq_ok.mp hshape
  unfold shapeOf at hshape
  cases hbody : t.body with
  | enumeration values =>
    rw [hbody] at hshape
    obtain rfl := Except.ok.inj hshape
    rfl
  | scalar =>
    rw [hbody] at hshape
    obtain rfl := Except.ok.inj hshape
    rfl
  | union members =>
    rw [hbody] at hshape
    obtain rfl := Except.ok.inj hshape
    rfl
  | _ =>
    rw [hbody] at hshape
    obtain ⟨fields, -, rfl⟩ := map_eq_ok.mp hshape
    rfl

/-- The values of a type can be shown if those of its definition are deprecated for texts. -/
theorem valueError_eq_none_iff {text : List Char} {t : TypeDefinition} {n : NamedType}
    (h : namedType text t = .ok n) : n.shape.valueError? = none ↔
      ∀ v ∈ t.body.enumValues, ∀ reason ∈ deprecationReason? v.directives, reason.isText := by
  rw [valueError_of_namedType h, firstError_eq_none_iff]
  exact forall₂_congr fun v _ => exists_deprecated_iff

/-- The values of a schema can be shown if those of its document are deprecated for texts. -/
theorem enumerationError_eq_none_iff {text : List Char} {d : Document} {s : Schema}
    (h : schemaOf text d = .ok s) : s.enumerationError? = none ↔ d.ReasonsAreTexts := by
  obtain ⟨_, -, h⟩ := bind_eq_ok.mp h
  obtain ⟨directives, -, h⟩ := bind_eq_ok.mp h
  obtain ⟨types, htypes, h⟩ := bind_eq_ok.mp h
  obtain ⟨described, hdescribed, h⟩ := bind_eq_ok.mp h
  obtain rfl := Except.ok.inj h
  have hintrospection : ∀ t ∈ Introspection.types, ∀ v ∈ t.body.enumValues,
      deprecationReason? v.directives = none := by
    decide +kernel
  rw [enumerationError_eq_findSome, List.findSome?_eq_none_iff]
  constructor
  · intro hnone t ht
    obtain ⟨n, hn, hnamed⟩ := exists_right_of_forall₂ (forall₂_of_mapM htypes) ht
    exact (valueError_eq_none_iff hnamed).mp (hnone n (by simp [hn]))
  · intro htexts n hn
    rcases origin_of_mem htypes hdescribed hn with ⟨-, own, hown, hnamed⟩ | hscalar |
      ⟨base, hbase, hnamed⟩
    · exact (valueError_eq_none_iff hnamed).mpr (htexts own hown)
    · rw [hscalar]
      rfl
    · refine (valueError_eq_none_iff hnamed).mpr fun v hv reason hreason => ?_
      rw [hintrospection base hbase v hv] at hreason
      contradiction

/-! ## Loading -/

/-- A schema that is built is that of a document. -/
theorem schemaOf_of_build {text : String} {s : Schema} (h : Schema.build text = .ok s) :
    ∃ d, parse text = .ok d ∧ schemaOf text.toList d = .ok s := by
  unfold Schema.build at h
  cases hparse : parse text with
  | error e => simp [hparse] at h
  | ok d =>
    simp only [hparse] at h
    refine ⟨d, rfl, ?_⟩
    split at h
    · exact mapError_eq_ok.mp h
    · contradiction

/-- The schema of some files, without the records. -/
theorem loadSchema_yields (t : FileTree) (paths : List FilePath) :
    (loadSchema t paths).Yields (do
      let text ← joinSchemaFiles t (resolveSchemaFiles t paths)
      let s ← (Schema.build text).mapError SchemaFileError.schema
      match s.enumerationError? with
      | some e => throw (.schema (.part e))
      | none => return s) := by
  refine (Job.yields_ofExcept _).bind fun text _ => (Job.yields_ofExcept _).bind fun s _ => ?_
  refine (Job.yields_log _ _).then ?_
  cases s.enumerationError? with
  | some e => exact Job.yields_throw _
  | none => exact (Job.yields_log _ _).then (Job.yields_pure s)

section

variable {t : FileTree} {paths : List FilePath}

/-- Files give a schema if they can be joined to a text, the schema of that text can be built, and
its enumerations have no value that is deprecated for anything but a text. -/
theorem loadSchema_eq_ok_iff {s : Schema} : (loadSchema t paths).run.1 = .ok s ↔
    ∃ text d, joinSchemaFiles t (resolveSchemaFiles t paths) = .ok text ∧ parse text = .ok d ∧
      Schema.build text = .ok s ∧ d.ReasonsAreTexts := by
  rw [(loadSchema_yields t paths).run_fst]
  simp only [bind_eq_ok, mapError_eq_ok]
  constructor
  · rintro ⟨text, htext, s', hs, h⟩
    obtain ⟨d, hd, hschema⟩ := schemaOf_of_build hs
    split at h
    · contradiction
    · next hnone =>
      obtain rfl := Except.ok.inj h
      exact ⟨text, d, htext, hd, hs, (enumerationError_eq_none_iff hschema).mp hnone⟩
  · rintro ⟨text, d, htext, hd, hs, htexts⟩
    obtain ⟨d', hd', hschema⟩ := schemaOf_of_build hs
    obtain rfl := Except.ok.inj (hd.symm.trans hd')
    refine ⟨text, htext, s, hs, ?_⟩
    rw [(enumerationError_eq_none_iff hschema).mpr htexts]
    rfl

theorem coherent_of_loadSchema {s : Schema} (h : (loadSchema t paths).run.1 = .ok s) :
    s.Coherent := by
  obtain ⟨text, -, -, -, hbuild, -⟩ := loadSchema_eq_ok_iff.mp h
  exact coherent_of_build hbuild

/-- A number as a reason keeps a schema from being loaded, though it can be built. -/
example : let text := "enum E { A @deprecated(reason: 5) } type Query { e: E }"
    let t : FileTree := ⟨[(["s.graphql"], FileTree.bytesOf text)], [], [], []⟩
    (Schema.build text).isOk ∧ (loadSchema t [⟨"", ["s.graphql"]⟩]).run.1.isOk = false := by
  decide +kernel

/-- Without a schema, the files cannot be joined, the schema of their text cannot be built, or a
value of one of its enumerations is wrong. -/
theorem loadSchema_eq_error_iff {e : SchemaFileError} : (loadSchema t paths).run.1 = .error e ↔
    joinSchemaFiles t (resolveSchemaFiles t paths) = .error e ∨
      ∃ text, joinSchemaFiles t (resolveSchemaFiles t paths) = .ok text ∧
        ((∃ x, Schema.build text = .error x ∧ e = .schema x) ∨
          ∃ s x, Schema.build text = .ok s ∧ s.enumerationError? = some x ∧
            e = .schema (.part x)) := by
  rw [(loadSchema_yields t paths).run_fst]
  simp only [bind_eq_error, mapError_eq_error, mapError_eq_ok]
  refine or_congr_right (exists_congr fun text => and_congr_right fun _ => ?_)
  refine or_congr ⟨?_, ?_⟩ (exists_congr fun s => ?_)
  · rintro ⟨x, hx, rfl⟩
    exact ⟨x, hx, rfl⟩
  · rintro ⟨x, hx, rfl⟩
    exact ⟨x, hx, rfl⟩
  · cases s.enumerationError? with
    | none => exact ⟨nofun, nofun⟩
    | some x => exact ⟨fun ⟨hs, hx⟩ => ⟨x, hs, rfl, (Except.error.inj hx).symm⟩, by
        rintro ⟨x', hs, hx, rfl⟩
        exact ⟨hs, Option.some.inj hx ▸ rfl⟩⟩

end

end GraphPaths
