import GraphPaths.Proofs.Outcome
import GraphPaths.Proofs.Value.Plain
import GraphPaths.Yaml.Load

/-!
# What a node means

A node means a value if the value, with labels or without, is what the node is loaded as, in every place
where the numbers of the collections around it are other ones than those inside it (`Document.Means`). A
collection means what its parts mean, and an alias what its node means.
-/

namespace GraphPaths

namespace Yaml

namespace Document

variable {d : Document} {bound k : Nat} {inside : List Nat} {n : Node} {v : Value}

/-- A node is loaded as a value, labels aside, inside the collections `inside` and others whose numbers
are not below `bound`. -/
def Means (d : Document) (bound : Nat) (inside : List Nat) (n : Node) (v : Value) : Prop :=
  ∀ (fuel : Nat) (around : List Nat), bound - inside.length ≤ fuel →
    (∀ i ∈ around, i ∈ inside ∨ bound ≤ i) → ∃ w, d.value fuel around n = .ok w ∧ w.plain = v

theorem Means.mono {bound' : Nat} (h : Means d bound inside n v) (hb : bound ≤ bound') :
    Means d bound' inside n v := fun fuel around hfuel haround =>
  h fuel around (by omega) fun i hi => (haround i hi).imp_right (Nat.le_trans hb)

/-- Inside a collection that starts now nodes mean the same. -/
theorem Means.push (h : Means d bound inside n v) : Means d (bound + 1) (bound :: inside) n v := by
  intro fuel around hfuel haround
  refine h fuel around (by rw [List.length_cons] at hfuel; omega) fun i hi => ?_
  rcases haround i hi with hi | hi
  · rcases List.mem_cons.mp hi with rfl | hi
    · exact .inr (Nat.le_refl _)
    · exact .inl hi
  · exact .inr (Nat.le_of_succ_le hi)

/-- Behind a collection nodes mean the same as in it. -/
theorem Means.pop (h : Means d bound (k :: inside) n v) : Means d bound inside n v :=
  fun fuel around hfuel haround => h fuel around (by rw [List.length_cons]; omega) fun i hi =>
    (haround i hi).imp_left (List.mem_cons_of_mem k)

theorem plain_labelled (d : Document) (k : Nat) (w : Value) : (d.labelled k w).plain = w.plain := by
  unfold labelled
  split <;> rfl

theorem means_of_atom {w : Value} (hinside : inside.length < bound)
    (h : d.atom n = .ok (some w)) (hw : w.plain = v) : Means d bound inside n v := by
  intro fuel around hfuel _
  obtain ⟨fuel, rfl⟩ := Nat.exists_eq_succ_of_ne_zero (show fuel ≠ 0 by omega)
  exact ⟨w, by rw [value, h], hw⟩

/-- A scalar means what its text stands for. -/
theorem means_scalar {kind : ScalarKind} {text : String} (hinside : inside.length < bound)
    (h : scalar kind text = .ok v) (hv : v.plain = v) :
    Means d bound inside (.scalar k (.scalar kind) text) v := by
  refine means_of_atom hinside (w := d.labelled k v) ?_ (by rw [plain_labelled, hv])
  show (scalar kind text).map _ = _
  rw [h]
  rfl

/-- An alias means what its node means. -/
theorem means_alias {target : Node} (hlookup : d.named.lookup k = some target)
    (htarget : ∀ i, target ≠ .alias i) (h : Means d bound inside target v) :
    Means d bound inside (.alias k) v := by
  have hresolve : d.resolve (.alias k) = d.resolve target := by
    have hsame : d.resolve target = target := by
      cases target with
      | «alias» i => exact absurd rfl (htarget i)
      | _ => rfl
    rw [hsame]
    show (d.named.lookup k).getD _ = target
    rw [hlookup]
    rfl
  intro fuel around hfuel haround
  have hvalue : d.value fuel around (.alias k) = d.value fuel around target := by
    cases fuel with
    | zero => rfl
    | succ fuel =>
      have hatom : d.atom (.alias k) = d.atom target := by rw [atom, atom, hresolve]
      rw [value, value, hatom, hresolve]
  rw [hvalue]
  exact h fuel around hfuel haround

/-! ## Collections -/

theorem allOrFault_of_forall₂ {α β : Type} {f : α → Except Fault β} {xs : List α} {ys : List β}
    (h : List.Forall₂ (fun x y => f x = .ok y) xs ys) : allOrFault (xs.map f) = .ok ys := by
  induction h with
  | nil => rfl
  | cons hx _ ih =>
    simp only [List.map_cons, allOrFault, hx, ih]

theorem not_mem_around {around : List Nat} (hid : k ∉ inside) (hbound : k < bound)
    (haround : ∀ i ∈ around, i ∈ inside ∨ bound ≤ i) : around.contains k = false := by
  rw [← Bool.not_eq_true, List.contains_iff_mem]
  intro hmem
  rcases haround k hmem with h | h
  · exact hid h
  · omega

theorem around_cons {around : List Nat} (haround : ∀ i ∈ around, i ∈ inside ∨ bound ≤ i) :
    ∀ i ∈ k :: around, i ∈ k :: inside ∨ bound ≤ i := by
  intro i hi
  rcases List.mem_cons.mp hi with rfl | hi
  · exact .inl List.mem_cons_self
  · exact (haround i hi).imp_left (List.mem_cons_of_mem k)

/-- A list means what its items mean. -/
theorem means_sequence {items : List Node} {vs : List Value} (hid : k ∉ inside) (hbound : k < bound)
    (hinside : inside.length < bound)
    (h : List.Forall₂ (fun n v => Means d bound (k :: inside) n v) items vs) :
    Means d bound inside (.sequence k .sequence items) (.list vs) := by
  intro fuel around hfuel haround
  obtain ⟨fuel, rfl⟩ := Nat.exists_eq_succ_of_ne_zero (show fuel ≠ 0 by omega)
  have hitems : ∃ ws, List.Forall₂ (fun n w => d.value fuel (k :: around) n = .ok w) items ws ∧
      Value.plainItems ws = vs := by
    induction h with
    | nil => exact ⟨[], .nil, rfl⟩
    | cons hn _ ih =>
      obtain ⟨ws, hws, rfl⟩ := ih
      obtain ⟨w, hw, rfl⟩ := hn fuel (k :: around) (by rw [List.length_cons]; omega)
        (around_cons haround)
      exact ⟨w :: ws, .cons hw hws, rfl⟩
  obtain ⟨ws, hws, rfl⟩ := hitems
  refine ⟨d.labelled k (.list ws), ?_, plain_labelled d k _⟩
  have hvalue : d.value (fuel + 1) around (.sequence k .sequence items) =
      if around.contains k then .ok (.again k)
      else (((allOrFault (items.map (d.value fuel (k :: around)))).map .list).map
        (d.labelled k)).mapError fun f => { f with depth := f.depth + 1 } := rfl
  rw [hvalue, not_mem_around hid hbound haround, if_neg Bool.false_ne_true,
    allOrFault_of_forall₂ hws]
  rfl

/-- A node that is a text. -/
def IsText (n : Node) (u : String) : Prop := ∃ k, n = .scalar k (.scalar .text) u

theorem key_of_isText {u : String} (h : IsText n u) : d.key n = .ok (.text u) := by
  obtain ⟨k, rfl⟩ := h
  have hlabelled : d.labelled k (.text u) = .text u := by
    unfold labelled
    rw [show (Value.text u).canShare = false from rfl, Bool.and_false, if_neg Bool.false_ne_true]
  show Except.ok (d.distinctKey (.scalar k (.scalar .text) u) (d.labelled k (.text u))) = _
  rw [hlabelled]
  rfl

/-- A mapping whose keys are texts merges no others. -/
theorem merged_of_texts {entries : List (Node × Node)} {fuel : Nat}
    (h : ∀ e ∈ entries, ∃ u, IsText e.1 u) :
    d.merged (fuel + 1) [] (.mapping k .mapping entries) = .ok entries := by
  have htag : ∀ e ∈ entries, (d.tagOf e.1 == some (.scalar .merge)) = false := by
    intro e he
    obtain ⟨u, i, hi⟩ := h e he
    rw [hi]
    rfl
  have hown : (entries.filter fun e => !(d.tagOf e.1 == some (.scalar .merge))) = entries :=
    List.filter_eq_self.mpr fun e he => by rw [htag e he]; rfl
  have hnone : (entries.filter fun e => d.tagOf e.1 == some (.scalar .merge)) = [] :=
    List.filter_eq_nil_iff.mpr fun e he => by rw [htag e he]; exact Bool.false_ne_true
  have hkeys : (entries.map fun e => (d.plainKey e.1, e.2)) = entries := by
    have : entries.map (fun e => (d.plainKey e.1, e.2)) = entries.map fun e => e :=
      List.map_congr_left fun e he => by
        obtain ⟨u, i, hi⟩ := h e he
        obtain ⟨key, v⟩ := e
        obtain rfl : key = .scalar i (.scalar .text) u := hi
        rfl
    rw [this, List.map_id']
  rw [merged]
  simp only [resolve, hown, hnone]
  show Except.ok ([].flatten ++ entries.map fun e => (d.plainKey e.1, e.2)) = _
  rw [hkeys]
  rfl

/-- A mapping means what its values mean under the texts of its keys. -/
theorem means_mapping {entries : List (Node × Node)} {fields : List (String × Value)} (hk : k ∉ inside)
    (hbound : k < bound) (hinside : inside.length < bound)
    (h : List.Forall₂ (fun e f => IsText e.1 f.1 ∧ Means d bound (k :: inside) e.2 f.2) entries fields) :
    Means d bound inside (.mapping k .mapping entries) (.map (Value.ofEntries (Value.texts fields))) := by
  intro fuel around hfuel haround
  obtain ⟨fuel, rfl⟩ := Nat.exists_eq_succ_of_ne_zero (show fuel ≠ 0 by omega)
  have hentries : ∃ ws : List (String × Value),
      List.Forall₂ (fun e w => bothOrFault (d.key e.1) (d.value fuel (k :: around) e.2) =
        .ok (.text w.1, w.2)) entries ws ∧ Value.plainFields ws = fields := by
    induction h with
    | nil => exact ⟨[], .nil, rfl⟩
    | @cons e f _ _ hn _ ih =>
      obtain ⟨ws, hws, rfl⟩ := ih
      obtain ⟨w, hw, hplain⟩ := hn.2 fuel (k :: around) (by rw [List.length_cons]; omega)
        (around_cons haround)
      refine ⟨(f.1, w) :: ws, .cons ?_ hws, ?_⟩
      · rw [key_of_isText hn.1, hw]
        rfl
      · show (f.1, w.plain) :: _ = _
        rw [hplain]
        rfl
  have htexts : ∀ e ∈ entries, ∃ u, IsText e.1 u := by
    intro e he
    obtain ⟨f, -, hf⟩ := exists_of_forall₂ (h.flip) he
    exact ⟨f.1, hf.1⟩
  obtain ⟨ws, hws, rfl⟩ := hentries
  have hcontent : allOrFault (entries.map fun e =>
      bothOrFault (d.key e.1) (d.value fuel (k :: around) e.2)) = .ok (Value.texts ws) :=
    allOrFault_of_forall₂ (List.forall₂_map_right_iff.mpr hws)
  refine ⟨d.labelled k (.map (Value.ofEntries (Value.texts ws))), ?_, ?_⟩
  · have hatom : d.atom (.mapping k .mapping entries) = .ok none := rfl
    rw [value]
    simp only [hatom, resolve, not_mem_around hk hbound haround, merged_of_texts htexts]
    show (((allOrFault (entries.map fun e => bothOrFault (d.key e.1)
      (d.value fuel (k :: around) e.2))).map fun es => Value.map (Value.ofEntries es)).map
        (d.labelled k)).mapError _ = _
    rw [hcontent]
    rfl
  · rw [plain_labelled, Value.plain, Value.plainEntries_ofEntries]

end Document

end Yaml

end GraphPaths
