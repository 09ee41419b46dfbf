import GraphPaths.Options
import GraphPaths.Proofs.Lookup

/-!
# Merging fields

Fields that are merged have the names of both (`mem_of_mem_mergeFields`), each once if that was so
before (`nodup_mergeFields`), and under a name the last new value, or else the old one
(`lookup_mergeFields`).
-/

namespace GraphPaths

variable {α : Type}

theorem any_eq_isSome_lookup (key : String) : ∀ fields : List (String × α),
    (fields.any fun f => f.1 == key) = (fields.lookup key).isSome
  | [] => rfl
  | (k, v) :: fields => by
    rw [List.any_cons, any_eq_isSome_lookup key fields]
    by_cases hk : key = k
    · rw [hk, List.lookup_cons_self]
      simp
    · rw [lookup_cons_of_ne hk]
      simp [Ne.symm hk]

/-! ## One field -/

/-- What stands under a name after the value of one name was replaced. -/
theorem lookup_replace {key k : String} (v : α) : ∀ fields : List (String × α),
    (fields.map fun f => if f.1 == k then (k, v) else f).lookup key =
      if key = k then (fields.lookup key).map fun _ => v else fields.lookup key
  | [] => by simp
  | (k', w) :: fields => by
    have ih := @lookup_replace key k v fields
    rw [List.map_cons]
    by_cases hk' : k' = k
    · rw [if_pos (by simpa using hk'), hk']
      by_cases hkey : key = k
      · rw [hkey, List.lookup_cons_self, List.lookup_cons_self, if_pos rfl, Option.map_some]
      · rw [lookup_cons_of_ne hkey, lookup_cons_of_ne hkey, ih]
    · rw [if_neg (by simpa using hk')]
      by_cases hkey : key = k'
      · rw [hkey, List.lookup_cons_self, List.lookup_cons_self, if_neg hk']
      · rw [lookup_cons_of_ne hkey, lookup_cons_of_ne hkey, ih]

/-- A replaced value leaves the names as they are. -/
theorem keys_replace (k : String) (v : α) (fields : List (String × α)) :
    (fields.map fun f => if f.1 == k then (k, v) else f).map Prod.fst = fields.map Prod.fst := by
  rw [List.map_map]
  refine List.map_congr_left fun f _ => ?_
  by_cases hk : f.1 = k <;> simp [hk]

/-! ## All fields -/

/-- A merge holds the last new value of a name, or else the old one. -/
theorem lookup_mergeFields (key : String) : ∀ fields new : List (String × α),
    (mergeFields fields new).lookup key = (new.reverse.lookup key).or (fields.lookup key)
  | fields, [] => rfl
  | fields, (k, v) :: rest => by
    have hone : (if fields.any fun f => f.1 == k then
        fields.map fun f => if f.1 == k then (k, v) else f else fields ++ [(k, v)]).lookup key =
          ([(k, v)].lookup key).or (fields.lookup key) := by
      rw [any_eq_isSome_lookup]
      by_cases hkey : key = k
      · subst hkey
        rw [List.lookup_cons_self, Option.some_or]
        cases hold : fields.lookup key with
        | some w =>
          rw [if_pos Option.isSome_some, lookup_replace, if_pos rfl, hold, Option.map_some]
        | none =>
          rw [if_neg (by simp), List.lookup_append, hold, Option.none_or, List.lookup_cons_self]
      · rw [lookup_cons_of_ne hkey, List.lookup_nil, Option.none_or]
        split
        · rw [lookup_replace, if_neg hkey]
        · rw [List.lookup_append, lookup_cons_of_ne hkey, List.lookup_nil, Option.or_none]
    unfold mergeFields
    rw [lookup_mergeFields key, hone, List.reverse_cons, List.lookup_append, Option.or_assoc]

/-- Every field of a merge is an old one or a new one. -/
theorem mem_of_mem_mergeFields {x : String × α} : ∀ {fields new : List (String × α)},
    x ∈ mergeFields fields new → x ∈ fields ∨ x ∈ new
  | _, [], h => .inl h
  | fields, (k, v) :: rest, h => by
    unfold mergeFields at h
    rcases mem_of_mem_mergeFields h with h | h
    · split at h
      · obtain ⟨f, hf, rfl⟩ := List.mem_map.mp h
        split
        · exact .inr List.mem_cons_self
        · exact .inl hf
      · rcases List.mem_append.mp h with h | h
        · exact .inl h
        · exact .inr (List.mem_singleton.mp h ▸ List.mem_cons_self)
    · exact .inr (List.mem_cons_of_mem _ h)

/-- A merge has every name once. -/
theorem nodup_mergeFields : ∀ {fields new : List (String × α)}, (fields.map Prod.fst).Nodup →
    ((mergeFields fields new).map Prod.fst).Nodup
  | _, [], h => h
  | fields, (k, v) :: rest, h => by
    unfold mergeFields
    refine nodup_mergeFields ?_
    split
    · rw [keys_replace]
      exact h
    · next hnew =>
      rw [List.map_append, List.nodup_append]
      refine ⟨h, List.nodup_singleton k, fun a ha b hb hab => ?_⟩
      obtain rfl : b = k := List.mem_singleton.mp hb
      obtain ⟨f, hf, hname⟩ := List.mem_map.mp (hab ▸ ha)
      exact hnew (List.any_eq_true.mpr ⟨f, hf, beq_iff_eq.mpr hname⟩)

/-- Fields with names that are new come after the old ones. -/
theorem mergeFields_eq_append : ∀ {fields new : List (String × α)},
    ((fields ++ new).map Prod.fst).Nodup → mergeFields fields new = fields ++ new
  | fields, [], _ => (List.append_nil fields).symm
  | fields, (k, v) :: rest, h => by
    have hnew : ¬(fields.any fun f => f.1 == k) = true := by
      intro hany
      obtain ⟨f, hf, hname⟩ := List.any_eq_true.mp hany
      rw [List.map_append, List.nodup_append] at h
      exact h.2.2 f.1 (List.mem_map_of_mem hf) k List.mem_cons_self (beq_iff_eq.mp hname)
    unfold mergeFields
    rw [if_neg hnew, mergeFields_eq_append (by rwa [List.append_assoc]), List.append_assoc]
    rfl

end GraphPaths
