import GraphPaths.Proofs.Options

/-!
# Spellings of options

The entries of a mapping are edited by spelling an option in another way, by changing its value, by
adding or removing a key that spells no option, and by putting the entries in another order (`Edit`).
As long as each option is spelled once, one edit keeps what is given for each option, up to its
spelling and the change of its value (`Edit.givenOption`), and it keeps that each option is spelled
once (`Edit.oneEach`). What no edit changes stays the same through many (`Edits.congr`).
-/

namespace GraphPaths

/-! ## Spellings -/

/-- Whether a key is one of some spellings. -/
def spells (spellings : List String) (key : Value) : Bool :=
  key.text?.any (· ∈ spellings)

theorem spells_iff {spellings : List String} {key : Value} :
    spells spellings key ↔ ∃ s ∈ spellings, key = .text s := by
  unfold spells Value.text?
  split <;> simp_all

/-- In a table of options, a text spells one option only. -/
def Unambiguous (table : List (List String)) : Prop :=
  ∀ row ∈ table, ∀ row' ∈ table, ∀ s ∈ row, s ∈ row' → row = row'

instance (table : List (List String)) : Decidable (Unambiguous table) :=
  inferInstanceAs (Decidable (∀ row ∈ table, ∀ row' ∈ table, ∀ s ∈ row, s ∈ row' → row = row'))

/-- A key that spells one option of a table spells no other. -/
theorem spells_iff_eq {table : List (List String)} {row row' : List String} {key : Value}
    (htable : Unambiguous table) (hrow : row ∈ table) (hrow' : row' ∈ table)
    (hkey : spells row' key) : spells row key ↔ row = row' := by
  obtain ⟨s, hs, rfl⟩ := spells_iff.mp hkey
  rw [spells_iff]
  constructor
  · rintro ⟨_, hmem, heq⟩
    obtain rfl := Value.text.inj heq
    exact htable row hrow row' hrow' s hmem hs
  · rintro rfl
    exact ⟨s, hs, rfl⟩

/-- Each option of a table is spelled at most once. -/
def OneEach (table : List (List String)) (es : List (Value × Value)) : Prop :=
  ∀ row ∈ table, (es.countP fun e => spells row e.1) ≤ 1

instance (table : List (List String)) (es : List (Value × Value)) : Decidable (OneEach table es) :=
  inferInstanceAs (Decidable (∀ row ∈ table, (es.countP fun e => spells row e.1) ≤ 1))

/-! ## Edits -/

/-- One edit of the entries of a mapping. -/
inductive Edit (table : List (List String)) (R : List String → Value → Value → Prop) :
    List (Value × Value) → List (Value × Value) → Prop
  /-- An option is spelled in another way, and its value is changed as `R` allows. -/
  | respell {before after : List (Value × Value)} {row : List String} {key key' v v' : Value}
      (hrow : row ∈ table) (hkey : spells row key) (hkey' : spells row key')
      (hvalue : v = v' ∨ R row v v') :
      Edit table R (before ++ (key, v) :: after) (before ++ (key', v') :: after)
  /-- A key is added that spells no option. -/
  | insert {before after : List (Value × Value)} {e : Value × Value}
      (h : ∀ row ∈ table, ¬spells row e.1) :
      Edit table R (before ++ after) (before ++ e :: after)
  /-- A key is removed that spells no option. -/
  | delete {before after : List (Value × Value)} {e : Value × Value}
      (h : ∀ row ∈ table, ¬spells row e.1) :
      Edit table R (before ++ e :: after) (before ++ after)
  | reorder {es es' : List (Value × Value)} (h : es.Perm es') : Edit table R es es'

/-- Any number of edits, one after another. -/
abbrev Edits (table : List (List String)) (R : List String → Value → Value → Prop) :
    List (Value × Value) → List (Value × Value) → Prop :=
  Relation.ReflTransGen (Edit table R)

variable {table : List (List String)} {R : List String → Value → Value → Prop}
  {es es' : List (Value × Value)} {row : List String}

/-! ## What is given for an option -/

theorem givenOption_eq_none_iff :
    givenOption es row = none ↔ (es.countP fun e => spells row e.1) = 0 := by
  unfold givenOption
  rw [List.findSome?_eq_none_iff, List.countP_eq_zero]
  simp only [Option.map_eq_none_iff, List.find?_eq_none, spells_iff, beq_iff_eq]
  constructor
  · rintro h e he ⟨s, hs, hkey⟩
    exact h s hs e he (by rw [hkey]; rfl)
  · intro h s hs e he hkey
    refine h e he ⟨s, hs, ?_⟩
    unfold Value.text? at hkey
    split at hkey
    · next heq => rw [heq, Option.some.inj hkey]
    · contradiction

/-- What is given for an option is an entry with one of its spellings. -/
theorem mem_of_givenOption {s : String} {v : Value} (h : givenOption es row = some (s, v)) :
    s ∈ row ∧ (.text s, v) ∈ es := by
  obtain ⟨s', hs', hfound⟩ := List.exists_of_findSome?_eq_some h
  obtain ⟨⟨key, v'⟩, hfind, heq⟩ := Option.map_eq_some_iff.mp hfound
  obtain ⟨rfl, rfl⟩ := Prod.mk.inj heq
  have hkey := List.find?_some hfind
  obtain ⟨s'', -, rfl⟩ := spells_iff.mp (show spells [s'] key by
    simp only [spells, beq_iff_eq.mp hkey]; simp)
  obtain rfl : s'' = s' := Option.some.inj (beq_iff_eq.mp hkey)
  exact ⟨hs', List.mem_of_find?_eq_some hfind⟩

/-- Members of which there is one at most are the same. -/
theorem eq_of_countP_le_one {α : Type} {p : α → Bool} {xs : List α} (h : xs.countP p ≤ 1) {x y : α}
    (hx : x ∈ xs) (hy : y ∈ xs) (hpx : p x) (hpy : p y) : x = y := by
  rw [List.countP_eq_length_filter] at h
  have hx := List.mem_filter.mpr ⟨hx, hpx⟩
  have hy := List.mem_filter.mpr ⟨hy, hpy⟩
  match hfilter : xs.filter p with
  | [] => simp [hfilter] at hx
  | [z] => simp_all
  | _ :: _ :: _ => simp [hfilter] at h

/-- If an option is spelled once, the entry with its spelling is given. -/
theorem givenOption_of_mem (hone : (es.countP fun e => spells row e.1) ≤ 1) {s : String} {v : Value}
    (hs : s ∈ row) (h : (.text s, v) ∈ es) : givenOption es row = some (s, v) := by
  have hspells : ∀ s ∈ row, spells row (.text s) := fun s hs => spells_iff.mpr ⟨s, hs, rfl⟩
  cases hgiven : givenOption es row with
  | none =>
    rw [givenOption_eq_none_iff, List.countP_eq_zero] at hgiven
    exact absurd (hspells s hs) (hgiven _ h)
  | some given =>
    obtain ⟨s', v'⟩ := given
    obtain ⟨hs', h'⟩ := mem_of_givenOption hgiven
    have heq := eq_of_countP_le_one hone h' h (hspells s' hs') (hspells s hs)
    obtain ⟨hkey, rfl⟩ := Prod.mk.inj heq
    rw [Value.text.inj hkey]

/-! ## What an edit keeps -/

namespace Edit

/-- An edit keeps how often an option is spelled. -/
theorem countP_eq (htable : Unambiguous table) (h : Edit table R es es') (hrow : row ∈ table) :
    (es.countP fun e => spells row e.1) = es'.countP fun e => spells row e.1 := by
  cases h with
  | @respell before after row' key key' _ _ hrow' hkey hkey' _ =>
    have hboth : spells row key = spells row key' := by
      rw [Bool.eq_iff_iff, spells_iff_eq htable hrow hrow' hkey,
        spells_iff_eq htable hrow hrow' hkey']
    simp [List.countP_append, List.countP_cons, hboth]
  | insert h => simp [List.countP_append, h row hrow]
  | delete h => simp [List.countP_append, h row hrow]
  | reorder h => exact h.countP_eq _

theorem oneEach (htable : Unambiguous table) (h : Edit table R es es') (hone : OneEach table es) :
    OneEach table es' := fun row hrow => h.countP_eq htable hrow ▸ hone row hrow

/-- An edit keeps the entry of an option, up to its spelling and the change of its value. -/
theorem exists_mem (htable : Unambiguous table) (h : Edit table R es es') (hrow : row ∈ table)
    {s : String} {v : Value} (hs : s ∈ row) (hmem : (.text s, v) ∈ es) :
    ∃ s' ∈ row, ∃ v', (.text s', v') ∈ es' ∧ (v = v' ∨ R row v v') := by
  have hspells : spells row (.text s) := spells_iff.mpr ⟨s, hs, rfl⟩
  cases h with
  | @respell before after row' key key' w w' hrow' hkey hkey' hvalue =>
    rcases List.mem_append.mp hmem with hmem | hmem
    · exact ⟨s, hs, v, List.mem_append_left _ hmem, .inl rfl⟩
    · rcases List.mem_cons.mp hmem with heq | hmem
      · obtain ⟨rfl, rfl⟩ := Prod.mk.inj heq
        obtain ⟨s', hs', rfl⟩ := spells_iff.mp hkey'
        obtain rfl := (spells_iff_eq htable hrow hrow' hkey).mp hspells
        exact ⟨s', hs', w', by simp, hvalue⟩
      · exact ⟨s, hs, v, List.mem_append_right _ (List.mem_cons_of_mem _ hmem), .inl rfl⟩
  | insert _ =>
    refine ⟨s, hs, v, ?_, .inl rfl⟩
    simp only [List.mem_append, List.mem_cons] at hmem ⊢
    tauto
  | delete hunknown =>
    refine ⟨s, hs, v, ?_, .inl rfl⟩
    rcases List.mem_append.mp hmem with hmem | hmem
    · exact List.mem_append_left _ hmem
    · rcases List.mem_cons.mp hmem with heq | hmem
      · exact absurd (heq ▸ hspells) (hunknown row hrow)
      · exact List.mem_append_right _ hmem
  | reorder h => exact ⟨s, hs, v, h.mem_iff.mp hmem, .inl rfl⟩

/-- An edit keeps what is given for an option, up to its spelling and the change of its value. -/
theorem givenOption (htable : Unambiguous table) (hone : OneEach table es) (h : Edit table R es es')
    (hrow : row ∈ table) :
    Option.Rel (fun x x' => x.1 ∈ row ∧ x'.1 ∈ row ∧ (x.2 = x'.2 ∨ R row x.2 x'.2))
      (GraphPaths.givenOption es row) (GraphPaths.givenOption es' row) := by
  cases hgiven : GraphPaths.givenOption es row with
  | none =>
    rw [givenOption_eq_none_iff, h.countP_eq htable hrow, ← givenOption_eq_none_iff] at hgiven
    rw [hgiven]
    exact .none
  | some given =>
    obtain ⟨s, v⟩ := given
    obtain ⟨hs, hmem⟩ := mem_of_givenOption hgiven
    obtain ⟨s', hs', v', hmem', hvalue⟩ := h.exists_mem htable hrow hs hmem
    rw [givenOption_of_mem (h.oneEach htable hone row hrow) hs' hmem']
    exact .some ⟨hs, hs', hvalue⟩

end Edit

/-- What no edit changes stays the same through many. -/
theorem Edits.congr {β : Type} {f : List (Value × Value) → β} (htable : Unambiguous table)
    (hstep : ∀ es es', OneEach table es → Edit table R es es' → f es = f es')
    (hone : OneEach table es) (h : Edits table R es es') : f es = f es' ∧ OneEach table es' := by
  induction h with
  | refl => exact ⟨rfl, hone⟩
  | tail _ hedit ih => exact ⟨ih.1.trans (hstep _ _ ih.2 hedit), hedit.oneEach htable ih.2⟩

end GraphPaths
