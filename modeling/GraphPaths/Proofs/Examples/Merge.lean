import GraphPaths.Example
import GraphPaths.Proofs.Lookup

/-!
# Merged examples

Examples are kept in order under distinct keys. A merge walks through the new examples and puts each
under its key (`Examples.put`), so that a key that was there keeps its place (`keys_merge`) and gets
the new example (`lookup_merge`).
-/

namespace GraphPaths

namespace Examples

/-- The keys of examples, in order. -/
def keys (ex : Examples) : List String :=
  ex.map Prod.fst

@[simp] theorem keys_nil : keys [] = [] :=
  rfl

@[simp] theorem keys_cons (k : String) (e : Example) (ex : Examples) :
    keys ((k, e) :: ex) = k :: keys ex :=
  rfl

theorem lookup_of_notMem {k : String} {ex : Examples} (h : k ∉ keys ex) : ex.lookup k = none := by
  rw [List.lookup_eq_none_iff]
  intro p hp
  have : k ≠ p.1 := fun hkp => h (hkp ▸ List.mem_map_of_mem hp)
  simpa using this

/-! ## One example -/

/-- A new key comes last. -/
theorem put_of_notMem {k : String} (e : Example) :
    ∀ {ex : Examples}, k ∉ keys ex → put k e ex = ex ++ [(k, e)]
  | [], _ => rfl
  | (k', x) :: ex, h => by
    rw [keys_cons, List.mem_cons, not_or] at h
    unfold put
    rw [if_neg (by simpa using Ne.symm h.1), put_of_notMem e h.2]
    rfl

/-- A key that is there keeps its place. -/
theorem keys_put (k : String) (e : Example) :
    ∀ ex : Examples, keys (put k e ex) = if k ∈ keys ex then keys ex else keys ex ++ [k]
  | [] => rfl
  | (k', x) :: ex => by
    unfold put
    by_cases hk : k' = k
    · rw [if_pos (by simpa using hk), hk, keys_cons, keys_cons, if_pos List.mem_cons_self]
    · have hmem : k ∈ k' :: keys ex ↔ k ∈ keys ex := by simp [Ne.symm hk]
      rw [if_neg (by simpa using hk), keys_cons, keys_put k e ex, keys_cons]
      simp only [hmem]
      split <;> rfl

theorem lookup_put (k k' : String) (e : Example) :
    ∀ ex : Examples, (put k e ex).lookup k' = if k' = k then some e else ex.lookup k'
  | [] => by
    unfold put
    by_cases hk : k' = k
    · rw [if_pos hk, hk, List.lookup_cons_self]
    · rw [if_neg hk, lookup_cons_of_ne hk]
  | (k₁, x) :: ex => by
    unfold put
    by_cases hk₁ : k₁ = k
    · rw [if_pos (by simpa using hk₁), hk₁]
      by_cases hk : k' = k
      · rw [if_pos hk, hk, List.lookup_cons_self]
      · rw [if_neg hk, lookup_cons_of_ne hk, lookup_cons_of_ne hk]
    · rw [if_neg (by simpa using hk₁)]
      by_cases hk : k' = k₁
      · rw [hk, if_neg hk₁, List.lookup_cons_self, List.lookup_cons_self]
      · rw [lookup_cons_of_ne hk, lookup_cons_of_ne hk, lookup_put k k' e ex]

theorem mem_put {k : String} {e : Example} {entry : String × Example} :
    ∀ {ex : Examples}, entry ∈ put k e ex → entry = (k, e) ∨ entry ∈ ex
  | [], h => .inl (List.mem_singleton.mp h)
  | (k', x) :: ex, h => by
    unfold put at h
    split at h
    · next hk =>
      obtain rfl : k' = k := by simpa using hk
      exact (List.mem_cons.mp h).imp id (List.mem_cons_of_mem _)
    · rcases List.mem_cons.mp h with rfl | h
      · exact .inr List.mem_cons_self
      · exact (mem_put h).imp id (List.mem_cons_of_mem _)

/-! ## Many examples -/

@[simp] theorem merge_nil (old : Examples) : merge old [] = old :=
  rfl

theorem merge_cons (old new : Examples) (k : String) (e : Example) :
    merge old ((k, e) :: new) = merge (put k e old) new :=
  rfl

theorem mem_keys_merge {key : String} :
    ∀ {new old : Examples}, key ∈ keys (merge old new) ↔ key ∈ keys old ∨ key ∈ keys new
  | [], old => by simp
  | (k, e) :: new, old => by
    rw [merge_cons, mem_keys_merge, keys_put, keys_cons, List.mem_cons]
    split
    · next hk =>
      constructor
      · exact fun h => h.imp_right .inr
      · rintro (h | rfl | h)
        · exact .inl h
        · exact .inl hk
        · exact .inr h
    · rw [List.mem_append, List.mem_singleton, or_assoc]

/-- The keys of a merge are the old ones and, after them, the new ones among the others. -/
theorem keys_merge : ∀ {new : Examples} (old : Examples), (keys new).Nodup →
    keys (merge old new) = keys old ++ (keys new).filter (· ∉ keys old)
  | [], old, _ => by simp
  | (k, e) :: new, old, h => by
    obtain ⟨hk, hnew⟩ := List.nodup_cons.mp h
    rw [merge_cons, keys_merge (put k e old) hnew, keys_put, keys_cons]
    by_cases hold : k ∈ keys old
    · rw [if_pos hold, List.filter_cons_of_neg (by simpa using hold)]
    · rw [if_neg hold, List.filter_cons_of_pos (by simpa using hold), List.append_assoc]
      refine congrArg (keys old ++ ·) (congrArg (k :: ·) (List.filter_congr fun k' hk' => ?_))
      have hne : k' ≠ k := fun heq => hk (heq ▸ hk')
      simp [hne]

/-- A merge holds the new example of a key where there is one. -/
theorem lookup_merge (key : String) : ∀ {new : Examples} (old : Examples), (keys new).Nodup →
    (merge old new).lookup key = (new.lookup key).or (old.lookup key)
  | [], old, _ => by simp
  | (k, e) :: new, old, h => by
    obtain ⟨hk, hnew⟩ := List.nodup_cons.mp h
    rw [merge_cons, lookup_merge key (put k e old) hnew, lookup_put]
    by_cases heq : key = k
    · rw [heq, if_pos rfl, lookup_of_notMem hk, List.lookup_cons_self]
      rfl
    · rw [if_neg heq, lookup_cons_of_ne heq]

theorem mem_merge {entry : String × Example} :
    ∀ {new old : Examples}, entry ∈ merge old new → entry ∈ old ∨ entry ∈ new
  | [], _, h => .inl h
  | (k, e) :: new, old, h => by
    rw [merge_cons] at h
    rcases mem_merge h with h | h
    · rcases mem_put h with rfl | h
      · exact .inr List.mem_cons_self
      · exact .inl h
    · exact .inr (List.mem_cons_of_mem _ h)

/-- Examples under distinct keys are what comes of merging them into none. -/
theorem nil_merge {new : Examples} (h : (keys new).Nodup) : merge [] new = new := by
  have happend : ∀ {new : Examples} (old : Examples), (keys (old ++ new)).Nodup →
      merge old new = old ++ new := by
    intro new
    induction new with
    | nil => exact fun old _ => (List.append_nil old).symm
    | cons x new ih =>
      obtain ⟨k, e⟩ := x
      intro old h
      have hkeys : keys (old ++ (k, e) :: new) = keys old ++ k :: keys new := List.map_append
      have hk : k ∉ keys old := fun hk =>
        (List.nodup_append.mp (hkeys ▸ h)).2.2 k hk k List.mem_cons_self rfl
      have hnext : old ++ [(k, e)] ++ new = old ++ (k, e) :: new := by simp
      rw [merge_cons, put_of_notMem e hk, ← hnext]
      exact ih _ (hnext ▸ h)
  exact happend [] h

theorem nodup_keys_merge {old new : Examples} (hold : (keys old).Nodup) (hnew : (keys new).Nodup) :
    (keys (merge old new)).Nodup := by
  rw [keys_merge old hnew, List.nodup_append]
  refine ⟨hold, hnew.filter _, fun a ha b hb hab => ?_⟩
  have := (List.mem_filter.mp hb).2
  exact absurd (hab ▸ ha) (by simpa using this)

/-- Examples under distinct keys are known by what stands under each key. -/
theorem eq_of_lookup : ∀ {ex ex' : Examples}, keys ex = keys ex' → (keys ex').Nodup →
    (∀ key, ex.lookup key = ex'.lookup key) → ex = ex'
  | [], [], _, _, _ => rfl
  | [], _ :: _, hkeys, _, _ => nomatch hkeys
  | _ :: _, [], hkeys, _, _ => nomatch hkeys
  | (k, e) :: ex, (k', e') :: ex', hkeys, hnodup, hlookup => by
    obtain ⟨rfl, hrest⟩ := List.cons.inj hkeys
    obtain ⟨hk', hnodup'⟩ := List.nodup_cons.mp hnodup
    have hk : k ∉ keys ex := fun h => hk' (hrest ▸ h : k ∈ ex'.map Prod.fst)
    have hhead := hlookup k
    rw [List.lookup_cons_self, List.lookup_cons_self] at hhead
    obtain rfl := Option.some.inj hhead
    refine congrArg ((k, e) :: ·) (eq_of_lookup hrest hnodup' fun key => ?_)
    have hkey := hlookup key
    by_cases hne : key = k
    · rw [hne, lookup_of_notMem hk, lookup_of_notMem hk']
    · rwa [lookup_cons_of_ne hne, lookup_cons_of_ne hne] at hkey

end Examples

end GraphPaths
