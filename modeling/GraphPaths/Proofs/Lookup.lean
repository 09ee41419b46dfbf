import Mathlib

/-!
# Looking up

What `List.lookup` finds under a text: the first member with that key (`lookup_of_mem`, where keys
are distinct), also after the keys were changed in a way that confuses none
(`lookup_map_of_injective`).
-/

namespace GraphPaths

variable {α β : Type}

@[simp] theorem lookup_cons_of_ne {κ : Type} [BEq κ] [LawfulBEq κ] {key k : κ} (h : key ≠ k)
    (a : α) (xs : List (κ × α)) : List.lookup key ((k, a) :: xs) = xs.lookup key := by
  rw [List.lookup_cons, beq_eq_false_iff_ne.mpr h]

theorem mem_of_lookup {κ : Type} [BEq κ] [LawfulBEq κ] {key : κ} {a : α} {xs : List (κ × α)}
    (h : xs.lookup key = some a) : (key, a) ∈ xs := by
  obtain ⟨before, after, rfl, -⟩ := List.lookup_eq_some_iff.mp h
  exact List.mem_append_right _ List.mem_cons_self

/-- Something is found under the keys that there are. -/
theorem isSome_lookup_iff {κ : Type} [BEq κ] [LawfulBEq κ] {key : κ} {xs : List (κ × α)} :
    (xs.lookup key).isSome ↔ key ∈ xs.map Prod.fst := by
  rw [List.lookup_isSome_iff, List.mem_map]
  exact exists_congr fun _ => and_congr_right fun _ => beq_iff_eq.trans eq_comm

/-- A member under distinct keys is the one that its key finds. -/
theorem lookup_of_mem {κ : Type} [BEq κ] [LawfulBEq κ] {key : κ} {a : α} :
    ∀ {xs : List (κ × α)}, (xs.map Prod.fst).Nodup → (key, a) ∈ xs → xs.lookup key = some a
  | (k, b) :: xs, hd, h => by
    obtain ⟨hk, hxs⟩ := List.nodup_cons.mp hd
    rcases List.mem_cons.mp h with heq | h
    · obtain ⟨rfl, rfl⟩ := Prod.mk.inj heq
      exact List.lookup_cons_self
    · have hne : key ≠ k := fun hkey => hk (hkey ▸ List.mem_map.mpr ⟨(key, a), h, rfl⟩)
      rw [lookup_cons_of_ne hne]
      exact lookup_of_mem hxs h

/-- Looking for a key among members whose keys were changed without confusing any. -/
theorem lookup_map_of_injective {g : String → String} (hg : Function.Injective g)
    (f : String → α → β) (key : String) : ∀ xs : List (String × α),
      (xs.map fun (k, a) => (g k, f k a)).lookup (g key) = (xs.lookup key).map (f key)
  | [] => rfl
  | (k, a) :: xs => by
    rw [List.map_cons]
    by_cases hk : key = k
    · rw [hk, List.lookup_cons_self, List.lookup_cons_self, Option.map_some]
    · rw [lookup_cons_of_ne hk, lookup_cons_of_ne fun h => hk (hg h)]
      exact lookup_map_of_injective hg f key xs

end GraphPaths
