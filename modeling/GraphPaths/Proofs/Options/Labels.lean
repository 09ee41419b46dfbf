import GraphPaths.Export
import GraphPaths.Proofs.Options

/-!
# Labels of example values

Example values among options stand behind labels as far as they need one (`canShare_of_ofValue`), so
that labels which are given again change none of them (`lookup_label`). The values of a file that are
added to options get labels above those that are there (`addExampleValues_eq`).
-/

namespace GraphPaths

/-! ## Labelled values -/

theorem canShare_of_label : ∀ {fields : List (String × Value)} {n : Nat} {x : String × Value},
    x ∈ (Value.label n fields).1 → x.2.canShare = false
  | (k, v) :: fields, n, x, h => by
    unfold Value.label at h
    split at h
    · rcases List.mem_cons.mp h with rfl | h
      · rfl
      · exact canShare_of_label h
    · next hv =>
      rcases List.mem_cons.mp h with rfl | h
      · exact Bool.eq_false_iff.mpr hv
      · exact canShare_of_label h

/-- Example values among options are labelled. -/
theorem canShare_of_ofValue {v : Value} {o : Options} (h : Options.ofValue v = .ok o) :
    ∀ x ∈ o.exampleValues.fields, x.2.canShare = false := by
  obtain ⟨entries, checked, -, -, rfl⟩ := ofValue_eq_ok.mp h
  intro x hx
  cases hvalues : checked.exampleValues with
  | named values =>
    rw [hvalues] at hx
    exact canShare_of_label hx
  | unchecked w =>
    rw [hvalues] at hx
    exact nomatch hx

/-- A value that needs no label is found as it is. -/
theorem lookup_label {key : String} : ∀ {fields : List (String × Value)} {n : Nat},
    (∀ v, fields.lookup key = some v → v.canShare = false) →
      (Value.label n fields).1.lookup key = fields.lookup key
  | [], _, _ => rfl
  | (k, v) :: fields, n, h => by
    unfold Value.label
    by_cases hk : key = k
    · subst hk
      have hv := h v List.lookup_cons_self
      rw [if_neg (by simp [hv])]
      show List.lookup key ((key, v) :: _) = _
      rw [List.lookup_cons_self, List.lookup_cons_self]
    · rw [lookup_cons_of_ne hk] at h ⊢
      split
      · exact (lookup_cons_of_ne hk _ _).trans (lookup_label h)
      · exact (lookup_cons_of_ne hk _ _).trans (lookup_label h)

/-! ## Raised values -/

theorem bare_raise (n : Nat) (v : Value) : (v.raise n).bare = v.bare.raise n := by
  induction v using Value.bare.induct with
  | case1 l v ih => exact ih
  | case2 v hv =>
    cases v with
    | shared l w => exact absurd rfl (hv l w)
    | _ => rfl

theorem entries?_raise {v : Value} {es : List (Value × Value)} (n : Nat)
    (h : v.entries? = some es) : (v.raise n).entries? = some (Value.raiseEntries n es) := by
  unfold Value.entries? at h ⊢
  rw [bare_raise]
  split at h
  · next es' hbare =>
    obtain rfl := Option.some.inj h
    rw [hbare]
    rfl
  · contradiction

/-- The entries of a mapping all of whose keys are texts. -/
theorem entries?_of_fields? {v : Value} {fields : List (String × Value)}
    (h : v.fields? = some fields) :
    v.entries? = some (fields.map fun f => (Value.text f.1, f.2)) := by
  obtain ⟨es, hes, hall⟩ := Option.bind_eq_some_iff.mp h
  rw [hes]
  refine congrArg some ?_
  clear h hes
  induction es generalizing fields with
  | nil =>
    rw [List.mapM_nil] at hall
    obtain rfl := Option.some.inj hall
    rfl
  | cons e es ih =>
    obtain ⟨k, x⟩ := e
    rw [List.mapM_cons] at hall
    obtain ⟨first, hfirst, hall⟩ := Option.bind_eq_some_iff.mp hall
    obtain ⟨rest, hrest, hall⟩ := Option.bind_eq_some_iff.mp hall
    obtain rfl := Option.some.inj hall
    obtain ⟨name, hname, rfl⟩ := Option.map_eq_some_iff.mp hfirst
    obtain rfl : k = .text name := by
      unfold Value.text? at hname
      split at hname
      · rw [Option.some.inj hname]
      · contradiction
    rw [ih hrest]
    rfl

/-- The values of a mapping with every label raised. -/
theorem fields_raise {v : Value} {fields : List (String × Value)} (n : Nat)
    (h : v.fields? = some fields) :
    ((v.raise n).entries?.getD []).filterMap (fun (k, x) => k.text?.map (·, x)) =
      fields.map fun f => (f.1, f.2.raise n) := by
  rw [entries?_raise n (entries?_of_fields? h), Option.getD_some]
  clear h
  induction fields with
  | nil => rfl
  | cons f fields ih =>
    rw [List.map_cons]
    unfold Value.raiseEntries
    rw [List.filterMap_cons]
    show (f.1, f.2.raise n) :: List.filterMap _ _ = _
    rw [ih]
    rfl

/-- The fields of a mapping as they are added to the example values of options. -/
def Options.labelledFields (o : Options) (v : Value) (fields : List (String × Value)) :
    List (String × Value) :=
  (Value.label (max o.labelBound (v.raise o.labelBound).labelBound)
    (fields.map fun f => (f.1, f.2.raise o.labelBound))).1

theorem addExampleValues_eq (o : Options) {v : Value} {fields : List (String × Value)}
    (h : v.fields? = some fields) : o.addExampleValues v = { o with
      exampleValues := .named (mergeFields o.exampleValues.fields (o.labelledFields v fields)) } := by
  simp only [Options.addExampleValues, fields_raise o.labelBound h]
  rfl

end GraphPaths
