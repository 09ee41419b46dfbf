import GraphPaths.Proofs.Value.Record

/-!
# Values without labels

Entries under texts may lose their labels before or after they are put into a mapping one after another
(`plainEntries_ofEntries`).
-/

namespace GraphPaths

namespace Value

theorem plainEntries_eq_map : ∀ es : List (Value × Value),
    plainEntries es = es.map fun (k, v) => (k.plain, v.plain)
  | [] => rfl
  | (k, v) :: es => congrArg ((k.plain, v.plain) :: ·) (plainEntries_eq_map es)

/-- The fields without labels. -/
def plainFields (fields : List (String × Value)) : List (String × Value) :=
  fields.map fun (k, v) => (k, v.plain)

theorem plainEntries_texts (fields : List (String × Value)) :
    plainEntries (texts fields) = texts (plainFields fields) := by
  rw [plainEntries_eq_map, texts, texts, plainFields, List.map_map, List.map_map]
  rfl

theorem plainFields_ofFields (fields : List (String × Value)) :
    plainFields (ofFields fields) = ofFields (plainFields fields) := by
  have hput : ∀ (k : String) (v : Value) (fields : List (String × Value)),
      plainFields (putField k v fields) = putField k v.plain (plainFields fields) := by
    intro k v fields
    induction fields with
    | nil => rfl
    | cons field fields ih =>
      unfold plainFields at ih ⊢
      rw [putField, List.map_cons, putField]
      split
      · rfl
      · rw [List.map_cons, ih]
  have hall : ∀ fields before : List (String × Value),
      plainFields (fields.foldl (fun acc (k, v) => putField k v acc) before) =
        (plainFields fields).foldl (fun acc (k, v) => putField k v acc) (plainFields before) := by
    intro fields
    induction fields with
    | nil => exact fun _ => rfl
    | cons field fields ih =>
      intro before
      rw [List.foldl_cons, ih, hput]
      rfl
  exact hall fields []

/-- Labels can be forgotten before texts and values are put into a mapping, or after. -/
theorem plainEntries_ofEntries (fields : List (String × Value)) :
    plainEntries (ofEntries (texts fields)) = ofEntries (texts (plainFields fields)) := by
  rw [ofEntries_texts, plainEntries_texts, plainFields_ofFields, ofEntries_texts]

end Value

end GraphPaths
