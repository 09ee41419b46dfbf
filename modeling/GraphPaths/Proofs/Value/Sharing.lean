import GraphPaths.Value

/-!
# Labels that stand for values

In a document that is made of values with labels each label stands for one list or mapping, wherever it
stands (`Value.LabelledBy`), and no key has one.
-/

namespace GraphPaths

namespace Value

/-- Whether a value is a list or a mapping. -/
def isCollection : Value → Bool
  | .list _ | .map _ => true
  | _ => false

mutual

/-- Whether every label stands for the list or mapping that `env` gives for it, and for no key. -/
def LabelledBy (env : Nat → Value) : Value → Prop
  | .list xs => LabelledByItems env xs
  | .map es => LabelledByEntries env es
  | .set xs => LabelledByItems env xs
  | .shared l v => env l = v ∧ v.isCollection ∧ LabelledBy env v
  | _ => True

/-- Whether the labels in all items are so. -/
def LabelledByItems (env : Nat → Value) : List Value → Prop
  | [] => True
  | x :: xs => LabelledBy env x ∧ LabelledByItems env xs

/-- Whether the labels in all entries are so. -/
def LabelledByEntries (env : Nat → Value) : List (Value × Value) → Prop
  | [] => True
  | (k, v) :: es => k.bare = k ∧ LabelledBy env v ∧ LabelledByEntries env es

end

variable {env : Nat → Value}

theorem labelledBy_list {xs : List Value} :
    (Value.list xs).LabelledBy env ↔ ∀ x ∈ xs, x.LabelledBy env := by
  show LabelledByItems env xs ↔ _
  induction xs with
  | nil => simp [LabelledByItems]
  | cons x xs ih => simp [LabelledByItems, ih]

theorem labelledBy_map {es : List (Value × Value)} : (Value.map es).LabelledBy env ↔
    (∀ k ∈ es.map Prod.fst, k.bare = k) ∧ ∀ e ∈ es, e.2.LabelledBy env := by
  show LabelledByEntries env es ↔ _
  induction es with
  | nil => simp [LabelledByEntries]
  | cons e es ih =>
    simp only [LabelledByEntries, ih, List.map_cons, List.forall_mem_cons]
    exact ⟨fun h => ⟨⟨h.1, h.2.2.1⟩, h.2.1, h.2.2.2⟩, fun h => ⟨h.1.1, h.2.1, h.1.2, h.2.2⟩⟩

theorem labelledBy_bare {v : Value} (h : v.LabelledBy env) : v.bare.LabelledBy env := by
  induction v using bare.induct with
  | case1 l v ih => exact ih h.2.2
  | case2 v hv =>
    cases v with
    | shared l w => exact absurd rfl (hv l w)
    | _ => exact h

/-! ## Labels that are given -/

/-- Each of some values keeps as it is or gets a label of its own, from `n` on. -/
theorem exists_labels : ∀ (fields : List (String × Value)) (n : Nat), ∃ env : Nat → Value,
    ∀ x ∈ (label n fields).1, ∃ f ∈ fields, x.2 = f.2 ∨
      ∃ l, n ≤ l ∧ x.2 = .shared l f.2 ∧ env l = f.2 ∧ f.2.canShare
  | [], _ => ⟨fun _ => .null, nofun⟩
  | (k, v) :: fields, n => by
    by_cases hv : v.canShare
    · obtain ⟨env, henv⟩ := exists_labels fields (n + 1)
      refine ⟨fun l => if l = n then v else env l, fun x hx => ?_⟩
      rw [label, if_pos hv] at hx
      rcases List.mem_cons.mp hx with rfl | hx
      · exact ⟨(k, v), List.mem_cons_self, .inr ⟨n, Nat.le_refl n, rfl, if_pos rfl, hv⟩⟩
      · obtain ⟨f, hf, heq | ⟨l, hl, heq, hlabel, hshare⟩⟩ := henv x hx
        · exact ⟨f, List.mem_cons_of_mem _ hf, .inl heq⟩
        · have hne : l ≠ n := by omega
          exact ⟨f, List.mem_cons_of_mem _ hf,
            .inr ⟨l, by omega, heq, (if_neg hne).trans hlabel, hshare⟩⟩
    · obtain ⟨env, henv⟩ := exists_labels fields n
      refine ⟨env, fun x hx => ?_⟩
      rw [label, if_neg hv] at hx
      rcases List.mem_cons.mp hx with rfl | hx
      · exact ⟨(k, v), List.mem_cons_self, .inl rfl⟩
      · obtain ⟨f, hf, h⟩ := henv x hx
        exact ⟨f, List.mem_cons_of_mem _ hf, h⟩

/-- Labels that are given to values without any stand for these values. -/
theorem exists_labelledBy_label {fields : List (String × Value)} (n : Nat)
    (hplain : ∀ f ∈ fields, ∀ env, f.2.LabelledBy env)
    (hshare : ∀ f ∈ fields, f.2.canShare → f.2.isCollection) :
    ∃ env, ∀ x ∈ (label n fields).1, x.2.LabelledBy env := by
  obtain ⟨env, henv⟩ := exists_labels fields n
  refine ⟨env, fun x hx => ?_⟩
  obtain ⟨f, hf, heq | ⟨l, -, heq, hlabel, hf'⟩⟩ := henv x hx
  · exact heq ▸ hplain f hf env
  · exact heq ▸ ⟨hlabel, hshare f hf hf', hplain f hf env⟩

end Value

end GraphPaths
