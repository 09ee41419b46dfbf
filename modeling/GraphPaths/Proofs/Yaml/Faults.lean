import GraphPaths.Proofs.Lookup
import GraphPaths.Proofs.Yaml.Nodes
import GraphPaths.Proofs.Yaml.Scalars
import GraphPaths.Proofs.Yaml.Tokens

/-!
# Why a YAML text gives no value

A text has no value if its tokens or its nodes break the rules, or if one of its scalars is no value of
the kind that it is taken as (`fault_of_load`). Where no tag says what a scalar is to be taken as, the
scalar has the form of its kind, and few faults are left (`fault_of_untagged`).
-/

namespace GraphPaths

namespace Yaml

/-- Why the document of tokens has no value: its rules are broken, or a plain scalar has the form of a
value without being one, or, where there are tags, a node is not what it is marked as. -/
def ValueFaultOf (ts : List Token) (e : LoadError) : Prop :=
  e = .malformed ∨ (∃ text, .scalar text true ∈ ts ∧ scalar (scalarKind text) text = .error e) ∨
    HasTags ts ∧ (e = .notScalar ∨ ∃ kind text, scalar kind text = .error e)

section

variable {ts : List Token}

theorem valueFaultOf_malformed : ValueFaultOf ts .malformed := .inl rfl

/-! ## Lists of results -/

section

variable {α β : Type} {E : Fault → Prop}

theorem meets_allOrFault : ∀ {rs : List (Except Fault α)}, (∀ r ∈ rs, Meets r (fun _ => True) E) →
    Meets (allOrFault rs) (fun _ => True) E
  | [], _ => meets_pure trivial
  | r :: rs, h => by
    obtain ⟨hr, hrs⟩ := List.forall_mem_cons.mp h
    have hrs := meets_allOrFault hrs
    unfold allOrFault
    generalize allOrFault rs = rest at hrs
    cases r with
    | ok x => cases rest with
      | ok xs => exact meets_pure trivial
      | error g => exact meets_throw (hrs.of_error rfl)
    | error f => cases rest with
      | ok xs => exact meets_throw (hr.of_error rfl)
      | error g => exact meets_throw (iteInduction (fun _ => hrs.of_error rfl) fun _ => hr.of_error rfl)

theorem meets_bothOrFault {a : Except Fault α} {b : Except Fault β} (ha : Meets a (fun _ => True) E)
    (hb : Meets b (fun _ => True) E) : Meets (bothOrFault a b) (fun _ => True) E := by
  unfold bothOrFault
  cases a with
  | ok x => cases b with
    | ok y => exact meets_pure trivial
    | error g => exact meets_throw (hb.of_error rfl)
  | error f => cases b with
    | ok y => exact meets_throw (ha.of_error rfl)
    | error g => exact meets_throw (iteInduction (fun _ => hb.of_error rfl) fun _ => ha.of_error rfl)

end

/-! ## Nodes -/

theorem meets_scalar {kind : ScalarKind} {text : String} (h : ScalarOf ts (.scalar kind) text) :
    Meets (scalar kind text) (fun _ => True) (ValueFaultOf ts) := by
  refine ⟨fun _ => trivial, fun {e} he => ?_⟩
  rcases h with htags | hkind | hkind | ⟨hkind, hplain⟩
  · exact .inr (.inr ⟨htags, .inr ⟨kind, text, he⟩⟩)
  · rw [Tag.scalar.inj hkind] at he
    contradiction
  · rw [Tag.scalar.inj hkind] at he
    contradiction
  · rw [Tag.scalar.inj hkind] at he
    exact .inr (.inl ⟨text, hplain, he⟩)

namespace Document

variable {d : Document} (hd : d.Of ts)
include hd

theorem Of.resolve {n : Node} (hn : NodeOf ts n) : NodeOf ts (d.resolve n) := by
  unfold Document.resolve
  split
  · next id =>
    cases hlookup : d.named.lookup id with
    | none => exact hn
    | some m => exact hd.named _ (mem_of_lookup hlookup)
  · exact hn

theorem meets_atom {n : Node} (hn : NodeOf ts n) :
    Meets (d.atom n) (fun _ => True) (ValueFaultOf ts) := by
  have hn := hd.resolve hn
  unfold atom
  generalize d.resolve n = m at hn
  cases hn with
  | @scalar id tag text h => cases tag with
    | scalar kind => exact (meets_scalar h).map fun _ h => h
    | other => exact meets_throw valueFaultOf_malformed
    | _ => exact meets_pure trivial
  | @sequence id tag items h => cases tag with
    | scalar | other => exact meets_throw valueFaultOf_malformed
    | _ => exact meets_pure trivial
  | @mapping id tag entries h => cases tag with
    | scalar kind =>
      have htags : HasTags ts := h.resolve_right nofun
      simp only
      split
      · exact meets_throw valueFaultOf_malformed
      split
      · exact meets_throw (.inr (.inr ⟨htags, .inl rfl⟩))
      · exact (meets_scalar (.inl htags)).map fun _ h => h
    | other => exact meets_throw valueFaultOf_malformed
    | _ => exact meets_pure trivial
  | reference => exact meets_throw valueFaultOf_malformed

omit hd in
theorem plainKey_of {n : Node} (hn : NodeOf ts n) : NodeOf ts (d.plainKey n) := by
  unfold plainKey
  split
  · exact .scalar (.inr (.inl rfl))
  · exact hn

/-- The entries that are merged are entries of the document. -/
theorem meets_merged : ∀ (fuel : Nat) (inside : List Nat) {n : Node}, NodeOf ts n →
    Meets (d.merged fuel inside n) (EntriesOf ts) (· = .malformed)
  | 0, _, _, _ => meets_throw rfl
  | fuel + 1, inside, n, hn => by
    have hn := hd.resolve hn
    unfold merged
    generalize d.resolve n = m at hn
    cases hn with
    | scalar | sequence | reference => exact meets_throw rfl
    | @mapping id tag entries h hkeys hvalues =>
      have hown : EntriesOf ts ((entries.filter fun e =>
          !(d.tagOf e.1 == some (.scalar .merge))).map fun e => (d.plainKey e.1, e.2)) := by
        intro e he
        obtain ⟨entry, hmem, rfl⟩ := List.mem_map.mp he
        have hmem := (List.mem_filter.mp hmem).1
        exact ⟨plainKey_of (hkeys entry hmem), hvalues entry hmem⟩
      simp only
      split
      · exact meets_pure hown
      refine Meets.bind (P := fun groups => ∀ es ∈ groups, EntriesOf ts es) ?_ fun groups hgroups => ?_
      · refine meets_mapM fun e he => ?_
        have hvalue := hvalues e (List.mem_filter.mp he).1
        have hnode := hd.resolve hvalue
        split
        · exact meets_merged fuel _ hvalue
        · next items heq =>
          rw [heq] at hnode
          cases hnode with
          | sequence _ hitems =>
            refine (meets_mapM fun item hitem => meets_merged fuel (id :: inside) (hitems item hitem)).bind
              fun parts hparts => meets_pure fun e he => ?_
            obtain ⟨part, hpart, he⟩ := List.mem_flatten.mp he
            exact hparts part (List.mem_reverse.mp hpart) e he
        · exact meets_throw rfl
      · refine meets_pure (List.forall_mem_append.mpr ⟨fun e he => ?_, hown⟩)
        obtain ⟨es, hes, he⟩ := List.mem_flatten.mp he
        exact hgroups es hes e he

/-- A key has the fault of its node, or is no scalar. -/
theorem meets_key {n : Node} (hn : NodeOf ts n) :
    Meets (d.key n) (fun _ => True) (fun f => ValueFaultOf ts f.error) := by
  have hatom := meets_atom hd hn
  unfold key
  split
  · next e he => exact meets_throw (hatom.of_error he)
  · exact meets_pure trivial
  · exact meets_throw valueFaultOf_malformed

theorem meets_value : ∀ (fuel : Nat) (inside : List Nat) {n : Node}, NodeOf ts n →
    Meets (d.value fuel inside n) (fun _ => True) (fun f => ValueFaultOf ts f.error)
  | 0, _, _, _ => meets_throw valueFaultOf_malformed
  | fuel + 1, inside, n, hn => by
    have hatom := meets_atom hd hn
    have hnode := hd.resolve hn
    have hdeeper : ∀ (id : Nat) {r : Except Fault Value},
        Meets r (fun _ => True) (fun f => ValueFaultOf ts f.error) →
        Meets ((r.map (d.labelled id)).mapError fun f => { f with depth := f.depth + 1 })
          (fun _ => True) (fun f => ValueFaultOf ts f.error) := fun id _ hr =>
      (hr.map (f := d.labelled id) fun _ h => h).mapError fun _ h => h
    have hbelow : ∀ (id : Nat) {m : Node}, NodeOf ts m →
        Meets (d.value fuel (id :: inside) m) (fun _ => True) (fun f => ValueFaultOf ts f.error) :=
      fun id _ hm => meets_value fuel (id :: inside) hm
    unfold value
    split
    · next e he => exact meets_throw (hatom.of_error he)
    · exact meets_pure trivial
    simp only
    split
    · next id tag items heq =>
      rw [heq] at hnode
      cases hnode with
      | sequence _ hitems =>
        split
        · exact meets_pure trivial
        refine hdeeper id ?_
        split
        · refine (meets_allOrFault (α := Value) fun r hr => ?_).map fun _ h => h
          obtain ⟨m, hm, rfl⟩ := List.mem_map.mp hr
          exact hbelow id (hitems m hm)
        · refine (meets_allOrFault (α := Value) fun r hr => ?_).map fun _ h => h
          obtain ⟨m, hm, rfl⟩ := List.mem_map.mp hr
          have hpair := hd.resolve (hitems m hm)
          split
          · next heq =>
            rw [heq] at hpair
            cases hpair with
            | mapping _ hkeys hvalues =>
              exact (meets_bothOrFault (hbelow id (hkeys _ List.mem_cons_self))
                (hbelow id (hvalues _ List.mem_cons_self))).map fun _ h => h
          · exact meets_throw valueFaultOf_malformed
        · exact meets_throw valueFaultOf_malformed
    · next id tag entries heq =>
      rw [heq] at hnode
      split
      · exact meets_pure trivial
      have hmerged := meets_merged hd (d.bound + 1) [] hnode
      refine hdeeper id ?_
      split
      case h_3 => exact meets_throw valueFaultOf_malformed
      all_goals
        refine Meets.map (P := fun _ => True) ?_ fun _ h => h
        split
        · next e he => exact meets_throw (.inl (hmerged.of_error he))
        · next es hes =>
          refine meets_allOrFault fun r hr => ?_
          obtain ⟨⟨k, v⟩, he, rfl⟩ := List.mem_map.mp hr
          obtain ⟨hk, hv⟩ := hmerged.of_ok hes _ he
          exact meets_bothOrFault (meets_key hd hk) (hbelow id hv)
    · exact meets_throw valueFaultOf_malformed

end Document

end

/-- Why a text has no value. -/
theorem fault_of_load {text : String} {e : LoadError} (h : load text = .error e) :
    .broken e ∈ tokens text ∨ ValueFaultOf (tokens text) e := by
  have hread := meets_read text
  unfold load at h
  rcases bind_eq_error.mp h with h | ⟨d, hd, h⟩
  · exact (hread.of_error h).symm.imp_right .inl
  · have hd := (hread.of_ok hd).1
    cases hroot : d.root with
    | none =>
      rw [hroot] at h
      contradiction
    | some root =>
      rw [hroot] at h
      obtain ⟨f, hf, rfl⟩ := mapError_eq_error.mp h
      exact .inr ((Document.meets_value hd _ _ (hd.root root hroot)).of_error hf)

example : load "a: !!bool maybe" = .error (.noBool "maybe") := rfl

/-- Why a text without tags has no value. -/
theorem fault_of_untagged {text : String} {e : LoadError} (htags : ¬HasTags (tokens text))
    (h : load text = .error e) : IsLexical e ∨ IsImpliedFault e := by
  rcases fault_of_load h with hbroken | hmalformed | ⟨s, hplain, hs⟩ | ⟨hmarked, -⟩
  · exact .inl (isProper_of_mem_tokens hbroken)
  · exact .inr (.inl hmalformed)
  · exact .inr ((meets_implied (isProper_of_mem_tokens hplain)).of_error hs)
  · exact absurd hmarked htags

example : load "a: 2020-13-45" = .error (.calendar .month) := rfl

end Yaml

end GraphPaths
