import GraphPaths.Proofs.Lookup
import GraphPaths.Value.Same

/-!
# Records

A record is a mapping whose keys are texts: what it holds under a text is the first field of that
name (`get?_record`). Entries under texts that are put into a mapping one after another make the
record of fields that are put in one after another (`ofEntries_texts`): they stay as they are if the
texts are distinct (`ofEntries_of_nodup`), and whatever the texts are, none comes twice
(`exists_record_ofEntries`).
-/

namespace GraphPaths

namespace Value

@[simp] theorem entries?_map (es : List (Value × Value)) : (Value.map es).entries? = some es :=
  rfl

theorem entries?_eq_some {v : Value} {es : List (Value × Value)} :
    v.entries? = some es ↔ v.bare = .map es := by
  unfold entries?
  cases v.bare <;> simp

theorem entries?_record (fields : List (String × Value)) :
    (record fields).entries? = some (fields.map fun (k, v) => (.text k, v)) :=
  rfl

/-- What a record holds under a text is what stands there. -/
@[simp] theorem get?_record (fields : List (String × Value)) (key : String) :
    (record fields).get? key = fields.lookup key := by
  unfold get?
  rw [entries?_record, Option.bind_some]
  induction fields with
  | nil => rfl
  | cons field fields ih =>
    obtain ⟨k, v⟩ := field
    by_cases hk : key = k
    · subst hk
      simp [text?]
    · rw [List.map_cons, List.find?_cons_of_neg (by simpa [text?] using Ne.symm hk),
        lookup_cons_of_ne hk]
      exact ih

/-- What a value holds under one text after another. -/
def at? : Value → List String → Option Value
  | v, [] => some v
  | v, key :: path => (v.get? key).bind fun w => w.at? path

@[simp] theorem at?_singleton (v : Value) (key : String) : v.at? [key] = v.get? key := by
  unfold at?
  cases v.get? key <;> rfl

@[simp] theorem at?_record_cons (fields : List (String × Value)) (key : String)
    (path : List String) :
    (record fields).at? (key :: path) = (fields.lookup key).bind fun v => v.at? path := by
  rw [at?, get?_record]

/-! ## Distinct keys -/

theorem sameKey_text (a b : String) : (text a).sameKey (text b) = decide (a = b) := by
  have hsame : (text a).same (text b) = (a == b) := by
    unfold same
    rfl
  have hbeq : (text a == text b) = (a == b) := rfl
  rw [sameKey, hsame, hbeq, Bool.or_self]
  exact beq_eq_decide a b

/-- Entries whose keys are texts. -/
def texts (fields : List (String × Value)) : List (Value × Value) :=
  fields.map fun (k, v) => (text k, v)

/-- A field put into a record: in the place of the field of this name, or else last. -/
def putField (key : String) (v : Value) : List (String × Value) → List (String × Value)
  | [] => [(key, v)]
  | (k, w) :: fields => if key = k then (k, v) :: fields else (k, w) :: putField key v fields

/-- Fields put into a record one after another. -/
def ofFields (fields : List (String × Value)) : List (String × Value) :=
  fields.foldl (fun before f => putField f.1 f.2 before) []

theorem put_text (key : String) (v : Value) : ∀ fields : List (String × Value),
    put (text key) v (texts fields) = texts (putField key v fields)
  | [] => rfl
  | (k, w) :: fields => by
    have ih := put_text key v fields
    unfold texts at ih ⊢
    rw [List.map_cons]
    unfold put putField
    rw [sameKey_text, ih]
    by_cases hk : key = k <;> simp [hk]

theorem foldl_put (fields : List (String × Value)) : ∀ before : List (String × Value),
    (texts fields).foldl (fun acc e => put e.1 e.2 acc) (texts before) =
      texts (fields.foldl (fun before f => putField f.1 f.2 before) before) := by
  induction fields with
  | nil => exact fun _ => rfl
  | cons f fields ih =>
    intro before
    show (texts fields).foldl _ (put (text f.1) f.2 (texts before)) = _
    rw [put_text, ih]
    rfl

/-- Entries under texts, put in one after another, are fields put in one after another. -/
theorem ofEntries_texts (fields : List (String × Value)) :
    ofEntries (texts fields) = texts (ofFields fields) := foldl_put fields []

theorem putField_of_new {key : String} {v : Value} : ∀ {fields : List (String × Value)},
    key ∉ fields.map Prod.fst → putField key v fields = fields ++ [(key, v)]
  | [], _ => rfl
  | (k, w) :: fields, h => by
    rw [List.map_cons, List.mem_cons, not_or] at h
    unfold putField
    rw [if_neg h.1, putField_of_new h.2]
    rfl

theorem names_putField_of_mem {key : String} {v : Value} : ∀ {fields : List (String × Value)},
    key ∈ fields.map Prod.fst → (putField key v fields).map Prod.fst = fields.map Prod.fst
  | (k, w) :: fields, h => by
    unfold putField
    split
    · rfl
    · next hk =>
      have hmem := (List.mem_cons.mp h).resolve_left hk
      rw [List.map_cons, List.map_cons, names_putField_of_mem hmem]

/-- Fields with new and distinct names come behind those that are there. -/
theorem foldl_putField_of_nodup : ∀ {fields : List (String × Value)} (before : List (String × Value)),
    ((before ++ fields).map Prod.fst).Nodup →
      fields.foldl (fun before f => putField f.1 f.2 before) before = before ++ fields
  | [], before, _ => (List.append_nil before).symm
  | f :: fields, before, h => by
    have hnew : f.1 ∉ before.map Prod.fst := by
      rw [List.map_append, List.map_cons, List.nodup_append] at h
      exact fun hmem => h.2.2 f.1 hmem f.1 List.mem_cons_self rfl
    have hnext : before ++ [(f.1, f.2)] ++ fields = before ++ f :: fields := by simp
    rw [List.foldl_cons, putField_of_new hnew, foldl_putField_of_nodup _ (hnext.symm ▸ h), hnext]

/-- Entries under distinct texts stay as they are. -/
theorem ofEntries_of_nodup {fields : List (String × Value)} (h : (fields.map Prod.fst).Nodup) :
    ofEntries (fields.map fun (k, v) => (text k, v)) = fields.map fun (k, v) => (text k, v) := by
  have hfields : ofFields fields = fields := foldl_putField_of_nodup [] h
  have hentries := ofEntries_texts fields
  rw [hfields] at hentries
  exact hentries

theorem nodup_foldl_putField : ∀ (fields : List (String × Value)) {before : List (String × Value)},
    (before.map Prod.fst).Nodup →
      ((fields.foldl (fun before f => putField f.1 f.2 before) before).map Prod.fst).Nodup
  | [], _, h => h
  | f :: fields, before, h => by
    refine nodup_foldl_putField fields ?_
    show ((putField f.1 f.2 before).map Prod.fst).Nodup
    by_cases hmem : f.1 ∈ before.map Prod.fst
    · rwa [names_putField_of_mem hmem]
    · rw [putField_of_new hmem, List.map_append]
      exact List.concat_eq_append ▸ h.concat hmem

/-- Entries under texts, put in one after another, are a record in which no name comes twice. -/
theorem exists_record_ofEntries (fields : List (String × Value)) : ∃ fields',
    map (ofEntries (fields.map fun f => (text f.1, f.2))) = record fields' ∧
      (fields'.map Prod.fst).Nodup :=
  ⟨ofFields fields, congrArg map (ofEntries_texts fields), nodup_foldl_putField fields List.nodup_nil⟩

/-- Fields are put in without loss only if their names are new and distinct. -/
theorem nodup_of_length_foldl_putField : ∀ {fields before : List (String × Value)},
    let all := fields.foldl (fun before f => putField f.1 f.2 before) before
    all.length ≤ before.length + fields.length ∧
      (all.length = before.length + fields.length →
        (fields.map Prod.fst).Nodup ∧ ∀ name ∈ fields.map Prod.fst, name ∉ before.map Prod.fst)
  | [], before => ⟨Nat.le_refl _, fun _ => ⟨List.nodup_nil, nofun⟩⟩
  | f :: fields, before => by
    obtain ⟨hle, hrest⟩ := @nodup_of_length_foldl_putField fields (putField f.1 f.2 before)
    rw [List.foldl_cons, List.length_cons]
    by_cases hmem : f.1 ∈ before.map Prod.fst
    · have hlength := congrArg List.length (names_putField_of_mem (v := f.2) hmem)
      rw [List.length_map, List.length_map] at hlength
      exact ⟨by omega, fun h => by omega⟩
    · have hlength : (putField f.1 f.2 before).length = before.length + 1 := by
        rw [putField_of_new hmem, List.length_append, List.length_singleton]
      refine ⟨by omega, fun h => ?_⟩
      obtain ⟨hnodup, hnew⟩ := hrest (by omega)
      rw [putField_of_new hmem, List.map_append] at hnew
      rw [List.map_cons, List.nodup_cons, List.forall_mem_cons]
      exact ⟨⟨fun h => hnew _ h (by simp), hnodup⟩, hmem,
        fun name hname h => hnew name hname (List.mem_append_left _ h)⟩

theorem nodup_of_length_ofFields {fields : List (String × Value)}
    (h : (ofFields fields).length = fields.length) : (fields.map Prod.fst).Nodup :=
  (nodup_of_length_foldl_putField.2 (h.trans (Nat.zero_add _).symm)).1

/-- What holds of all keys and of all values still holds when a value is put in. -/
theorem forall_put {K V : Value → Prop} {key v : Value} (hk : K key) (hv : V v) :
    ∀ {es : List (Value × Value)}, (∀ e ∈ es, K e.1 ∧ V e.2) → ∀ e ∈ put key v es, K e.1 ∧ V e.2
  | [], _ => List.forall_mem_singleton.mpr ⟨hk, hv⟩
  | (k, w) :: es, h => by
    obtain ⟨hhead, hrest⟩ := List.forall_mem_cons.mp h
    unfold put
    split
    · exact List.forall_mem_cons.mpr ⟨⟨hhead.1, hv⟩, hrest⟩
    · exact List.forall_mem_cons.mpr ⟨hhead, forall_put hk hv hrest⟩

theorem forall_ofEntries {K V : Value → Prop} {es : List (Value × Value)}
    (h : ∀ e ∈ es, K e.1 ∧ V e.2) : ∀ e ∈ ofEntries es, K e.1 ∧ V e.2 := by
  have hfold : ∀ (es before : List (Value × Value)), (∀ e ∈ es, K e.1 ∧ V e.2) →
      (∀ e ∈ before, K e.1 ∧ V e.2) →
      ∀ e ∈ es.foldl (fun acc e => put e.1 e.2 acc) before, K e.1 ∧ V e.2 := by
    intro es
    induction es with
    | nil => exact fun before _ hbefore => hbefore
    | cons e es ih =>
      intro before h hbefore
      obtain ⟨he, hes⟩ := List.forall_mem_cons.mp h
      exact ih _ hes (forall_put he.1 he.2 hbefore)
  exact hfold es [] h nofun

/-- A map of entries with different names is a record. -/
theorem map_ofEntries {α : Type} (name : α → String) (value : α → Value) {xs : List α}
    (h : (xs.map name).Nodup) :
    Value.map (ofEntries (xs.map fun x => (text (name x), value x))) =
      record (xs.map fun x => (name x, value x)) := by
  have hentries : ofEntries ((xs.map fun x => (name x, value x)).map _) = _ :=
    ofEntries_of_nodup (by rwa [List.map_map])
  rw [List.map_map] at hentries
  unfold record
  rw [List.map_map]
  exact congrArg Value.map hentries

end Value

end GraphPaths
