import GraphPaths.Proofs.Options
import GraphPaths.Proofs.Value.Record

/-!
# Editing options

To set an option among the entries of a mapping, its spellings are removed and the value is put in
under the first of them (`setOption`). Then this is what is given for the option, and what is given
for options with other spellings stays (`givenOption_setOption`); from this comes what is given after
the options of a whole table were set or left (`givenOption_setOptions`).
-/

namespace GraphPaths

/-- Entries with an option set, under the first of its spellings and no other. -/
def setOption (es : List (Value × Value)) (spellings : List String) (v : Value) :
    List (Value × Value) :=
  (es.filter fun e => e.1.text?.all (· ∉ spellings)) ++
    (spellings.head?.map fun s => (Value.text s, v)).toList

/-- Entries with some options set, one after another. -/
def setOptions (es : List (Value × Value)) (changes : List (List String × Value)) :
    List (Value × Value) :=
  changes.foldl (fun es change => setOption es change.1 change.2) es

/-! ## One option -/

variable {es : List (Value × Value)}

/-- A spelling of another option leads to the same entry as before. -/
theorem find?_setOption_of_notMem {s : String} {spellings : List String} (h : s ∉ spellings)
    (v : Value) : ((setOption es spellings v).find? fun e => e.1.text? == some s) =
      es.find? fun e => e.1.text? == some s := by
  have hnew : ((spellings.head?.map fun s => (Value.text s, v)).toList.find?
      fun e => e.1.text? == some s) = none := by
    cases spellings with
    | nil => rfl
    | cons first rest =>
      have hne : first ≠ s := fun heq => h (heq ▸ List.mem_cons_self)
      exact List.find?_cons_of_neg (by simpa [Value.text?] using hne)
  unfold setOption
  rw [List.find?_append, hnew, Option.or_none, List.find?_filter]
  refine congrArg (fun p => es.find? p) (funext fun e => ?_)
  by_cases hs : e.1.text? = some s
  · simp [hs, h]
  · simp [hs]

/-- A spelling of the option leads to nothing that was there. -/
theorem find?_filter_of_mem {s : String} {spellings : List String} (h : s ∈ spellings) :
    ((es.filter fun e => e.1.text?.all (· ∉ spellings)).find? fun e => e.1.text? == some s) =
      none := by
  rw [List.find?_eq_none]
  intro e he hs
  have hkeep := (List.mem_filter.mp he).2
  rw [beq_iff_eq.mp hs, Option.all_some] at hkeep
  exact of_decide_eq_true hkeep h

theorem givenOption_setOption (spellings : List String) (v : Value) :
    givenOption (setOption es spellings v) spellings = spellings.head?.map (·, v) := by
  cases spellings with
  | nil => rfl
  | cons s rest =>
    have hfind : ((setOption es (s :: rest) v).find? fun e => e.1.text? == some s) =
        some (.text s, v) := by
      unfold setOption
      rw [List.find?_append, find?_filter_of_mem List.mem_cons_self, Option.none_or]
      exact List.find?_cons_of_pos (by simp [Value.text?])
    unfold givenOption
    rw [List.findSome?_cons, hfind]
    rfl

theorem givenOption_setOption_of_disjoint {spellings : List String} (v : Value) :
    ∀ {other : List String}, (∀ s ∈ other, s ∉ spellings) →
      givenOption (setOption es spellings v) other = givenOption es other
  | [], _ => rfl
  | s :: other, h => by
    have hrest := givenOption_setOption_of_disjoint v fun x hx => h x (List.mem_cons_of_mem s hx)
    unfold givenOption at hrest ⊢
    rw [List.findSome?_cons, List.findSome?_cons, find?_setOption_of_notMem (h s List.mem_cons_self),
      hrest]

/-! ## Options of a table -/

theorem givenOption_setOptions_of_disjoint {other : List String} :
    ∀ {changes : List (List String × Value)} {es : List (Value × Value)},
      (∀ change ∈ changes, ∀ s ∈ other, s ∉ change.1) →
        givenOption (setOptions es changes) other = givenOption es other
  | [], _, _ => rfl
  | change :: changes, es, h => by
    calc givenOption (setOptions (setOption es change.1 change.2) changes) other
        = givenOption (setOption es change.1 change.2) other :=
          givenOption_setOptions_of_disjoint fun c hc => h c (List.mem_cons_of_mem change hc)
      _ = givenOption es other :=
          givenOption_setOption_of_disjoint _ (h change List.mem_cons_self)

/-- The options of a table that have new values, each by its spellings. -/
def changesOf {α : Type} (table : List α) (spellings : α → List String)
    (value : α → Option Value) : List (List String × Value) :=
  table.filterMap fun row => (value row).map (spellings row, ·)

section

variable {α : Type} {spellings : α → List String} {value : α → Option Value}

theorem changesOf_cons (row : α) (table : List α) :
    changesOf (row :: table) spellings value =
      ((value row).map (spellings row, ·)).toList ++ changesOf table spellings value := by
  unfold changesOf
  cases h : value row <;> simp [h]

theorem mem_changesOf {table : List α} {change : List String × Value}
    (h : change ∈ changesOf table spellings value) : ∃ row ∈ table, change.1 = spellings row := by
  obtain ⟨row, hrow, hchange⟩ := List.mem_filterMap.mp h
  obtain ⟨v, -, rfl⟩ := Option.map_eq_some_iff.mp hchange
  exact ⟨row, hrow, rfl⟩

/-- If no two rows of a table share a spelling, an option of the table is given its new value, and
what was given for it where it has none. -/
theorem givenOption_setOptions : ∀ {table : List α} {es : List (Value × Value)},
    (table.Pairwise fun a b => ∀ s ∈ spellings a, s ∉ spellings b) → ∀ row ∈ table,
      givenOption (setOptions es (changesOf table spellings value)) (spellings row) =
        match value row with
        | some v => (spellings row).head?.map (·, v)
        | none => givenOption es (spellings row)
  | first :: table, es, hdisjoint, row, hrow => by
    obtain ⟨hfirst, htable⟩ := List.pairwise_cons.mp hdisjoint
    have hsplit : setOptions es (changesOf (first :: table) spellings value) =
        setOptions (setOptions es ((value first).map (spellings first, ·)).toList)
          (changesOf table spellings value) := by
      rw [changesOf_cons, setOptions, List.foldl_append]
      rfl
    rw [hsplit]
    rcases List.mem_cons.mp hrow with rfl | hrow
    · -- the other rows leave what is given for the first
      rw [givenOption_setOptions_of_disjoint]
      · cases value row with
        | none => rfl
        | some v => exact givenOption_setOption (spellings row) v
      · intro change hchange s hs
        obtain ⟨other, hother, heq⟩ := mem_changesOf hchange
        exact heq ▸ hfirst other hother s hs
    · -- the first row leaves what is given for the others
      have hstay : givenOption (setOptions es ((value first).map (spellings first, ·)).toList)
          (spellings row) = givenOption es (spellings row) := by
        refine givenOption_setOptions_of_disjoint fun change hchange s hs => ?_
        obtain ⟨v, -, rfl⟩ := Option.map_eq_some_iff.mp (Option.mem_toList.mp hchange)
        exact fun hmem => hfirst row hrow s hmem hs
      rw [givenOption_setOptions htable row hrow, hstay]

end

end GraphPaths
