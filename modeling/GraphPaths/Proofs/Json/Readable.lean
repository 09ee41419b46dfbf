import GraphPaths.Proofs.Json.Reading
import GraphPaths.Proofs.Value.Sharing

/-!
# What JSON gives

Whatever is read from JSON can be written again and is then read as before (`isReadable_of_read`): its
keys are texts, none of them twice, its numbers are those of the format, and its integers have no more
digits than a text may have. It has no labels (`labelledBy_of_read`).
-/

namespace GraphPaths

/-! ## Numerals -/

namespace Numeral

theorem lt_of_mem_digits {base : Nat} : ∀ {cs : List Char} {after : Bool} {ds : List Nat},
    digits base after cs = some ds → ∀ d ∈ ds, d < base
  | [], after, ds, h => by
    unfold digits at h
    obtain ⟨-, h⟩ := Option.ite_none_right_eq_some.mp h
    exact Option.some.inj h ▸ List.forall_mem_nil _
  | c :: cs, after, ds, h => by
    unfold digits at h
    split at h
    · split at h
      · exact lt_of_mem_digits h
      · contradiction
    split at h
    · split at h
      · next hlt =>
        obtain ⟨ds, hds, rfl⟩ := Option.map_eq_some_iff.mp h
        exact List.forall_mem_cons.mpr ⟨hlt, lt_of_mem_digits hds⟩
      · contradiction
    · contradiction

/-- Digits of a base tell a number below the power that they count. -/
theorem ofDigits_lt {base : Nat} (ds : List Nat) (h : ∀ d ∈ ds, d < base) :
    ofDigits base ds < base ^ ds.length := by
  have hfold : ∀ (ds : List Nat) (n : Nat), (∀ d ∈ ds, d < base) →
      ds.foldl (fun n d => n * base + d) n < (n + 1) * base ^ ds.length := by
    intro ds
    induction ds with
    | nil => simp
    | cons d ds ih =>
      intro n h
      obtain ⟨hd, hds⟩ := List.forall_mem_cons.mp h
      calc ds.foldl _ (n * base + d) < (n * base + d + 1) * base ^ ds.length := ih _ hds
        _ ≤ (n + 1) * base * base ^ ds.length := by
          gcongr
          rw [Nat.add_one_mul]
          omega
        _ = (n + 1) * base ^ (d :: ds).length := by
          rw [List.length_cons, pow_succ]
          ring
  have hlt := hfold ds 0 h
  rwa [Nat.zero_add, Nat.one_mul] at hlt

/-- An integer that is read can be written. -/
theorem length_of_int {text : String} {i : Int} (h : int 10 text = .ok i) :
    (Nat.toDigits 10 i.natAbs).length ≤ digitLimit := by
  unfold int at h
  split at h
  next negative r _ =>
  split at h
  · contradiction
  · next ds hds =>
    split at h
    · contradiction
    · next hlimit =>
      simp only [beq_self_eq_true, Bool.true_and, decide_eq_true_eq, not_lt] at hlimit
      have hlt := ofDigits_lt ds (lt_of_mem_digits hds)
      have habs : i.natAbs = ofDigits 10 ds := by
        rw [← Except.ok.inj h]
        split <;> omega
      rw [habs]
      by_cases hempty : ds.length = 0
      · rw [List.length_eq_zero_iff.mp hempty]
        decide
      · exact ((Nat.length_toDigits_le_iff (by decide) (Nat.pos_of_ne_zero hempty)).mpr hlt).trans
          hlimit

theorem isCanonical_of_unsignedReal {negative : Bool} {cs : List Char} {x : Binary64}
    (h : unsignedReal negative cs = some x) : x.isCanonical := by
  unfold unsignedReal at h
  simp only [Option.ite_none_left_eq_some, Option.map_eq_some_iff] at h
  obtain ⟨-, e, -, rfl⟩ := h
  exact Binary64.isCanonical_ofDecimal negative _ _

/-- A real is read as a number of the format. -/
theorem isCanonical_of_real {text : String} {x : Binary64} (h : real text = .ok x) :
    x.isCanonical := by
  unfold real at h
  split at h
  simp only at h
  split at h
  · exact Except.ok.inj h ▸ rfl
  split at h
  · exact Except.ok.inj h ▸ rfl
  split at h
  · next hx => exact Except.ok.inj h ▸ isCanonical_of_unsignedReal hx
  · contradiction

end Numeral

namespace Json

/-! ## Values without parts -/

theorem isReadable_of_hasReading {v : Value} (h : hasReading v) : v.isReadable := by
  cases v with
  | list _ | map _ | shared _ _ => contradiction
  | _ => exact h

theorem hasReading_of_numberAt {cs r : List Char} {v : Value}
    (h : numberAt cs = some (.ok (v, r))) : hasReading v := by
  unfold numberAt at h
  split at h
  simp only [Option.ite_none_left_eq_some, Option.some.injEq] at h
  obtain ⟨-, h⟩ := h
  split at h
  · split at h
    · next i hi =>
      obtain rfl := (Prod.mk.inj (Except.ok.inj h)).1
      exact decide_eq_true (Numeral.length_of_int hi)
    · exact nomatch h
  · split at h
    · next x hx =>
      obtain rfl := (Prod.mk.inj (Except.ok.inj h)).1
      exact Numeral.isCanonical_of_real hx
    · exact nomatch h

theorem hasReading_of_atom {cs r : List Char} {v : Value} (h : atom cs = .ok (v, r)) :
    hasReading v := by
  unfold atom at h
  split at h
  · obtain ⟨⟨s, rest⟩, -, h⟩ := map_eq_ok.mp h
    obtain rfl := (Prod.mk.inj h).1
    rfl
  split at h
  · next found hword =>
    obtain ⟨w, hw, hfound⟩ := Option.map_eq_some_iff.mp hword
    have hmem := List.mem_of_find?_eq_some hw
    obtain rfl := Except.ok.inj h
    obtain rfl := (Prod.mk.inj hfound).1
    have hall : ∀ w ∈ wordValues, hasReading w.2 := by
      rw [wordValues_eq]
      simp [hasReading, hasForm, Binary64.isCanonical]
    exact hall w hmem
  split at h
  · next hnumber => exact hasReading_of_numberAt (hnumber.trans (congrArg some h))
  · contradiction

/-! ## Values -/

/-- What is read has a property if it passes from parts to lists and to mappings under texts. -/
structure IsPassed (P : Value → Prop) : Prop where
  atom : ∀ {v : Value}, hasReading v → P v
  list : ∀ {xs : List Value}, (∀ x ∈ xs, P x) → P (.list xs)
  map : ∀ {es : List (Value × Value)}, (∀ e ∈ es, (∃ s, e.1 = .text s) ∧ P e.2) →
    P (.map (Value.ofEntries es))

section

variable {P : Value → Prop}

mutual

theorem holds_of_value (hP : IsPassed P) : ∀ {fuel : Nat} {cs r : List Char} {v : Value},
    value fuel cs = .ok (v, r) → P v
  | fuel + 1, cs, r, v, h => by
    unfold value at h
    split at h
    · contradiction
    · split at h
      · obtain rfl := (Prod.mk.inj (Except.ok.inj h)).1
        exact hP.list (List.forall_mem_nil _)
      · obtain ⟨⟨xs, rest⟩, hxs, h⟩ := map_eq_ok.mp h
        obtain rfl := (Prod.mk.inj h).1
        exact hP.list (holds_of_items hP hxs (List.forall_mem_nil _))
    · split at h
      · obtain rfl := (Prod.mk.inj (Except.ok.inj h)).1
        exact hP.map (List.forall_mem_nil _)
      · obtain ⟨⟨es, rest⟩, hes, h⟩ := map_eq_ok.mp h
        obtain rfl := (Prod.mk.inj h).1
        exact hP.map (holds_of_entries hP hes (List.forall_mem_nil _))
    · exact hP.atom (hasReading_of_atom h)

theorem holds_of_items (hP : IsPassed P) : ∀ {fuel : Nat} {acc xs : List Value} {cs r : List Char},
    items fuel acc cs = .ok (xs, r) → (∀ x ∈ acc, P x) → ∀ x ∈ xs, P x
  | fuel + 1, acc, xs, cs, r, h, hacc => by
    unfold items at h
    obtain ⟨⟨v, rest⟩, hv, h⟩ := bind_eq_ok.mp h
    have hnext : ∀ x ∈ v :: acc, P x := List.forall_mem_cons.mpr ⟨holds_of_value hP hv, hacc⟩
    simp only at h
    split at h
    · obtain rfl := (Prod.mk.inj (Except.ok.inj h)).1
      exact fun x hx => hnext x (List.mem_reverse.mp hx)
    · exact holds_of_items hP h hnext
    · contradiction

theorem holds_of_entries (hP : IsPassed P) : ∀ {fuel : Nat} {acc es : List (Value × Value)} {cs r : List Char},
    entries fuel acc cs = .ok (es, r) → (∀ e ∈ acc, (∃ s, e.1 = .text s) ∧ P e.2) →
      ∀ e ∈ es, (∃ s, e.1 = .text s) ∧ P e.2
  | fuel + 1, acc, es, cs, r, h, hacc => by
    unfold entries at h
    split at h
    · obtain ⟨⟨key, rest⟩, -, h⟩ := bind_eq_ok.mp h
      simp only at h
      split at h
      · obtain ⟨⟨v, rest⟩, hv, h⟩ := bind_eq_ok.mp h
        have hnext : ∀ e ∈ (Value.text key, v) :: acc, (∃ s, e.1 = .text s) ∧ P e.2 :=
          List.forall_mem_cons.mpr ⟨⟨⟨key, rfl⟩, holds_of_value hP hv⟩, hacc⟩
        simp only at h
        split at h
        · obtain rfl := (Prod.mk.inj (Except.ok.inj h)).1
          exact fun e he => hnext e (List.mem_reverse.mp he)
        · exact holds_of_entries hP h hnext
        · contradiction
      · contradiction
    · contradiction

end

theorem holds_of_read (hP : IsPassed P) {text : String} {v : Value} (h : read text = .ok v) : P v := by
  unfold read at h
  simp only at h
  split at h
  · next w hw =>
    obtain rfl := Except.ok.inj h
    unfold document at hw
    simp only at hw
    split at hw
    · contradiction
    · obtain ⟨⟨x, r⟩, hx, hw⟩ := bind_eq_ok.mp hw
      simp only at hw
      split at hw
      · obtain rfl := Except.ok.inj hw
        exact holds_of_value hP hx
      · contradiction
  all_goals contradiction

end

/-- Fields, put into a mapping one after another, are read back. -/
theorem isReadable_map {es : List (Value × Value)}
    (h : ∀ e ∈ es, (∃ s, e.1 = .text s) ∧ e.2.isReadable) :
    (Value.map (Value.ofEntries es)).isReadable := by
  have htexts : es = (es.map fun e => (e.1.text?.getD "", e.2)).map fun f =>
      (Value.text f.1, f.2) := by
    rw [List.map_map]
    refine (List.map_id' es).symm.trans (List.map_congr_left fun e he => ?_)
    obtain ⟨s, hs⟩ := (h e he).1
    obtain ⟨k, v⟩ := e
    obtain rfl : k = .text s := hs
    rfl
  have hvalues : ∀ e ∈ Value.ofEntries es, (∃ s, e.1 = .text s) ∧ e.2.isReadable :=
    Value.forall_ofEntries (K := fun k => ∃ s, k = .text s) (V := fun v => v.isReadable) h
  obtain ⟨fields, hfields, hnames⟩ :=
    Value.exists_record_ofEntries (es.map fun e => (e.1.text?.getD "", e.2))
  rw [← htexts] at hfields
  refine Value.all_map.mpr ⟨?_, fun e he => (hvalues e he).2⟩
  rw [Value.map.inj hfields, areNames_iff]
  exact ⟨_, hnames, by simp [Value.keys, Value.bare, Function.comp_def]⟩

/-- What is read from JSON can be written, and is then read as before. -/
theorem isReadable_of_read {text : String} {v : Value} (h : read text = .ok v) : v.isReadable :=
  holds_of_read (P := fun v => v.isReadable)
    ⟨isReadable_of_hasReading, Value.all_list.mpr, isReadable_map⟩ h

/-- No label stands in what is read from JSON. -/
theorem labelledBy_of_read {text : String} {v : Value} (h : read text = .ok v) (env : Nat → Value) :
    v.LabelledBy env := by
  refine holds_of_read ⟨fun {v} hv => ?_, Value.labelledBy_list.mpr, fun {es} hes => ?_⟩ h
  · cases v with
    | shared _ _ | list _ | map _ | set _ => contradiction
    | _ => trivial
  · have hall := Value.forall_ofEntries (K := fun k => k.bare = k) (V := Value.LabelledBy env)
      fun e he => ⟨by obtain ⟨s, hs⟩ := (hes e he).1; rw [hs]; rfl, (hes e he).2⟩
    exact Value.labelledBy_map.mpr
      ⟨List.forall_mem_map.mpr fun e he => (hall e he).1, fun e he => (hall e he).2⟩

end Json

end GraphPaths
