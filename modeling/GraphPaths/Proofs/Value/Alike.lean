import GraphPaths.Proofs.Value.Record
import GraphPaths.Text.Digit

/-!
# Values that are alike

Two values are alike up to some places if they are equal everywhere else: their fields have the same
names in the same order, and only at the places may there be different content, or a last field that
the other value does not have (`Value.Alike`). Without any places they are equal
(`Value.Alike.plain_eq`). Labels do not count, which only say where one value stands twice.
-/

namespace GraphPaths

/-- Places in values, each by the names of the fields and the indices of the items that lead there. -/
structure Places where
  /-- Where there may be different content. -/
  content : List String → Prop
  /-- Where there may be something in one value only. -/
  presence : List String → Prop

/-- The places under a field or an item. -/
def Places.below (P : Places) (token : String) : Places :=
  ⟨fun place => P.content (token :: place), fun place => P.presence (token :: place)⟩

namespace Value

/-- Values that are equal up to some places. -/
inductive Alike : Places → Value → Value → Prop
  | same {P : Places} {v w : Value} (h : v.plain = w.plain) : Alike P v w
  | place {P : Places} {v w : Value} (h : P.content []) : Alike P v w
  | field {P : Places} {name : String} {v w : Value} {fields fields' : List (String × Value)}
      (h : Alike (P.below name) v w) (rest : Alike P (.record fields) (.record fields')) :
      Alike P (.record ((name, v) :: fields)) (.record ((name, w) :: fields'))
  | left {P : Places} {name : String} {v : Value} (h : P.presence [name]) :
      Alike P (.record [(name, v)]) (.record [])
  | right {P : Places} {name : String} {v : Value} (h : P.presence [name]) :
      Alike P (.record []) (.record [(name, v)])
  | list {P : Places} {items items' : List Value} (hlength : items.length = items'.length)
      (h : ∀ (i : Nat) (hi : i < items.length) (hi' : i < items'.length),
        Alike (P.below (Text.decimal i)) items[i] items'[i]) :
      Alike P (.list items) (.list items')

theorem plainItems_eq (items : List Value) : plainItems items = items.map plain := by
  induction items with
  | nil => rfl
  | cons v items ih =>
    unfold plainItems
    rw [ih]
    rfl

theorem plain_record_cons (name : String) (v : Value) (fields : List (String × Value)) :
    (record ((name, v) :: fields)).plain =
      .map ((.text name, v.plain) :: plainEntries (fields.map fun (k, v) => (.text k, v))) := by
  simp only [record, List.map_cons, plain, plainEntries]

namespace Alike

variable {P : Places}

theorem refl (v : Value) : Alike P v v :=
  .same rfl

theorem of_ne {v w : Value} (h : v ≠ w → P.content []) : Alike P v w := by
  by_cases heq : v = w
  · exact heq ▸ refl v
  · exact .place (h heq)

/-- Values that are alike up to no places are equal. -/
theorem plain_eq {v w : Value} (h : Alike P v w) (hcontent : ∀ place, ¬P.content place)
    (hpresence : ∀ place, ¬P.presence place) : v.plain = w.plain := by
  induction h with
  | same h => exact h
  | place h => exact absurd h (hcontent [])
  | @field P name v w fields fields' _ _ ih ihrest =>
    have hfirst := ih (fun place => hcontent (name :: place)) fun place => hpresence (name :: place)
    have hrest := ihrest hcontent hpresence
    simp only [record, plain] at hrest
    rw [plain_record_cons, plain_record_cons, hfirst, Value.map.inj hrest]
  | left h => exact absurd h (hpresence _)
  | right h => exact absurd h (hpresence _)
  | list hlength h ih =>
    unfold plain
    rw [plainItems_eq, plainItems_eq]
    refine congrArg Value.list (List.ext_getElem (by simpa using hlength) fun i hi hi' => ?_)
    rw [List.getElem_map, List.getElem_map]
    exact ih i (by simpa using hi) (by simpa using hi')
      (fun place => hcontent (Text.decimal i :: place))
      fun place => hpresence (Text.decimal i :: place)

/-- Records with a field for each member of a list. -/
theorem of_forall {α : Type} (name : α → String) (f g : α → Value) : ∀ {xs : List α},
    (∀ x ∈ xs, Alike (P.below (name x)) (f x) (g x)) →
      Alike P (.record (xs.map fun x => (name x, f x))) (.record (xs.map fun x => (name x, g x)))
  | [], _ => refl _
  | x :: _, h => .field (h x List.mem_cons_self)
      (of_forall name f g fun y hy => h y (List.mem_cons_of_mem x hy))

/-- Records with a field that need not be there. -/
theorem optional {name : String} {v w : Option Value}
    (hpresence : v.isSome ≠ w.isSome → P.presence [name])
    (hcontent : ∀ a b, v = some a → w = some b → Alike (P.below name) a b) :
    Alike P (.record (v.map (name, ·)).toList) (.record (w.map (name, ·)).toList) := by
  cases v with
  | none =>
    cases w with
    | none => exact refl _
    | some b => exact .right (hpresence (by simp))
  | some a =>
    cases w with
    | none => exact .left (hpresence (by simp))
    | some b => exact .field (hcontent a b rfl rfl) (refl _)

theorem singleton {v w : Value} (h : Alike (P.below (Text.decimal 0)) v w) :
    Alike P (.list [v]) (.list [w]) := by
  refine .list rfl fun i hi _ => ?_
  obtain rfl : i = 0 := by simpa using hi
  exact h

end Alike

end Value

end GraphPaths
