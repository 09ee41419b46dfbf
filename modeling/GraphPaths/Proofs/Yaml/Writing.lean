import GraphPaths.Proofs.Json.Writing
import GraphPaths.Yaml.Printer

/-!
# What YAML is written

YAML has a form for every value but an integer with too many digits. So what can be written as JSON
can be written as YAML (`exists_text_of_isWritable`).
-/

namespace GraphPaths.Yaml

/-- A scalar that has a form in JSON has one in YAML. -/
theorem exists_scalarOf {v : Value} (h : Json.hasForm v) : ∃ scalar, scalarOf v = .ok scalar := by
  cases v with
  | int i =>
    obtain ⟨text, htext⟩ := Json.exists_integer_iff.mpr h
    exact ⟨⟨.int, text⟩, map_eq_ok.mpr ⟨text, mapError_eq_ok.mp htext, rfl⟩⟩
  | null | bool _ | float _ | text _ => exact ⟨_, rfl⟩
  | _ => contradiction

theorem exists_isSimpleKey (anchors done : List Nat) {k : Value} (h : Json.hasForm k.bare) :
    ∃ simple, isSimpleKey anchors done k = .ok simple := by
  obtain ⟨scalar, hscalar⟩ := exists_scalarOf h
  unfold isSimpleKey
  split
  next name isAlias _ =>
  cases isAlias with
  | true => exact ⟨_, rfl⟩
  | false =>
    rw [if_neg Bool.false_ne_true]
    generalize k.bare = b at h hscalar
    cases b with
    | list xs => contradiction
    | map es => contradiction
    | set xs => contradiction
    | _ =>
      simp only [hscalar]
      exact ⟨_, rfl⟩

/-- A key that has a form counts as a value whose parts have one. -/
theorem isWritable_of_hasForm {k : Value} (h : Json.hasForm k.bare) : k.isWritable := by
  unfold Value.isWritable
  rw [← Value.all_bare]
  generalize k.bare = b at h
  cases b with
  | list xs => contradiction
  | map es => contradiction
  | shared l v => contradiction
  | _ => exact h

mutual

/-- A value whose parts have forms in JSON can be written. -/
theorem exists_writeNode (anchors : List Nat) : ∀ (place : Place) (indent : Option Nat) (v : Value)
    (s : Progress), v.isWritable → ∃ s', writeNode anchors place indent v s = .ok s'
  | place, indent, .shared l v, s, h => by
    simp only [writeNode]
    split
    · exact ⟨_, rfl⟩
    · exact exists_writeNode anchors place indent v _ h
  | _, _, .list [], s, _ => ⟨_, rfl⟩
  | place, indent, .list (x :: xs), s, h => exists_writeItems anchors _ (x :: xs) s h
  | _, _, .map [], s, _ => ⟨_, rfl⟩
  | place, indent, .map (e :: es), s, h => by
    obtain ⟨hkeys, hes⟩ := Bool.and_eq_true_iff.mp h
    exact exists_writeEntries anchors _ (e :: es) s hkeys hes
  | _, _, .null, s, _ | _, _, .bool _, s, _ | _, _, .float _, s, _ | _, _, .text _, s, _ => ⟨_, rfl⟩
  | _, _, .int i, s, h => exists_bind (exists_scalarOf (v := .int i) h) fun _ => ⟨_, rfl⟩

theorem exists_writeItems (anchors : List Nat) : ∀ (indent : Nat) (xs : List Value) (s : Progress),
    Value.allItems Json.hasForm (fun ks => ks.all Json.hasForm) xs →
      ∃ s', writeItems anchors indent xs s = .ok s'
  | _, [], s, _ => ⟨s, rfl⟩
  | indent, x :: xs, s, h => by
    obtain ⟨hx, hxs⟩ := Bool.and_eq_true_iff.mp h
    exact exists_bind (exists_writeNode anchors _ _ x _ hx) fun s =>
      exists_writeItems anchors indent xs s hxs

theorem exists_writeEntries (anchors : List Nat) : ∀ (indent : Nat) (es : List (Value × Value))
    (s : Progress), (Value.keys es).all Json.hasForm →
      Value.allEntries Json.hasForm (fun ks => ks.all Json.hasForm) es →
      ∃ s', writeEntries anchors indent es s = .ok s'
  | _, [], s, _, _ => ⟨s, rfl⟩
  | indent, (k, v) :: es, s, hkeys, hes => by
    obtain ⟨hk, hkeys⟩ := Bool.and_eq_true_iff.mp hkeys
    obtain ⟨hv, hes⟩ := Bool.and_eq_true_iff.mp hes
    have hkey := fun place s =>
      exists_writeNode anchors place (some indent) k s (isWritable_of_hasForm hk)
    have hrest := fun s => exists_bind (exists_writeNode anchors ⟨false, true, false⟩ (some indent) v s hv)
      fun s => exists_writeEntries anchors indent es s hkeys hes
    refine exists_bind (exists_isSimpleKey anchors _ hk) fun simple => ?_
    cases simple with
    | true => exact exists_bind (hkey _ _) fun s => hrest _
    | false => exact exists_bind (hkey _ _) fun s => hrest _

end

/-- What can be written as JSON can be written as YAML. -/
theorem exists_text_of_isWritable {v : Value} (h : v.isWritable) : ∃ text, Yaml.text v = .ok text :=
  exists_bind (exists_writeNode _ _ _ v _ h) fun _ => ⟨_, rfl⟩

end GraphPaths.Yaml
