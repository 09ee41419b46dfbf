import GraphPaths.Proofs.Outcome
import GraphPaths.Yaml.Node

/-!
# The nodes of a document

What a document owes to the tokens it is read from: unless a tag stands among them, its sequences and
mappings are taken as such, and a scalar is a text, or null where nothing is written, or what the form
of a plain scalar implies (`NodeOf`). `meets_read` has one lemma for each reader of nodes beneath
it; a reader fails where the rules are broken, or with the error of a broken token.
-/

namespace GraphPaths

namespace Yaml

/-- A tag stands among tokens. -/
def HasTags (ts : List Token) : Prop := ∃ handle suffix, .tag handle suffix ∈ ts

/-- What a scalar can be taken as where tokens are read: anything if there are tags, and else a text,
null, or what the form of a plain scalar implies. -/
def ScalarOf (ts : List Token) (tag : Tag) (text : String) : Prop :=
  HasTags ts ∨ tag = .scalar .text ∨ tag = .scalar .null ∨
    tag = .scalar (scalarKind text) ∧ .scalar text true ∈ ts

/-- A node that is read from tokens. -/
inductive NodeOf (ts : List Token) : Node → Prop where
  | scalar {id : Nat} {tag : Tag} {text : String} (h : ScalarOf ts tag text) :
      NodeOf ts (.scalar id tag text)
  | sequence {id : Nat} {tag : Tag} {items : List Node} (h : HasTags ts ∨ tag = .sequence)
      (hitems : ∀ n ∈ items, NodeOf ts n) : NodeOf ts (.sequence id tag items)
  | mapping {id : Nat} {tag : Tag} {entries : List (Node × Node)} (h : HasTags ts ∨ tag = .mapping)
      (hkeys : ∀ e ∈ entries, NodeOf ts e.1) (hvalues : ∀ e ∈ entries, NodeOf ts e.2) :
      NodeOf ts (.mapping id tag entries)
  | reference {id : Nat} : NodeOf ts (.alias id)

/-- The error of a document that is read from tokens: broken rules, or that of a broken token. -/
def FaultOf (ts : List Token) (e : LoadError) : Prop := e = .malformed ∨ .broken e ∈ ts

/-- How far tokens are read. -/
structure Reading.Of (ts : List Token) (s : Reading) : Prop where
  tokens : ∀ t ∈ s.tokens, t ∈ ts
  named : ∀ e ∈ s.named, NodeOf ts e.2

section

variable {ts : List Token} {s : Reading}

theorem faultOf_malformed : FaultOf ts .malformed := .inl rfl

namespace Reading

theorem meets_peek (hs : s.Of ts) : Meets s.peek (· ∈ ts) (FaultOf ts) := by
  have htokens := hs.tokens
  unfold peek
  split
  · exact meets_throw faultOf_malformed
  · next e _ heq => exact meets_throw (.inr (htokens _ (heq ▸ List.mem_cons_self)))
  · next t _ _ heq => exact meets_pure (htokens _ (heq ▸ List.mem_cons_self))

theorem Of.drop (hs : s.Of ts) : s.drop.Of ts :=
  ⟨fun t ht => hs.tokens t (List.mem_of_mem_tail ht), hs.named⟩

theorem meets_enter (hs : s.Of ts) (anchor : Option String) :
    Meets (s.enter anchor) (fun r => r.2.Of ts) (FaultOf ts) := by
  unfold enter
  split
  · exact meets_pure ⟨hs.tokens, hs.named⟩
  split
  · exact meets_throw faultOf_malformed
  · exact meets_pure ⟨hs.tokens, hs.named⟩

theorem Of.leave (hs : s.Of ts) (anchor : Option String) (id : Nat) {n : Node} (hn : NodeOf ts n) :
    NodeOf ts (s.leave anchor id n).1 ∧ (s.leave anchor id n).2.Of ts := by
  refine ⟨hn, ?_⟩
  unfold Reading.leave
  simp only
  split
  · exact ⟨hs.tokens, List.forall_mem_cons.mpr ⟨hn, hs.named⟩⟩
  · exact hs

theorem Of.absent (hs : s.Of ts) : NodeOf ts s.absent.1 ∧ s.absent.2.Of ts :=
  ⟨.scalar (.inr (.inr (.inl rfl))), hs.tokens, hs.named⟩

end Reading

/-! ## Tags -/

theorem meets_tagName (handles : List (String × String)) (handle : Option String) (suffix : String) :
    Meets (tagName handles handle suffix) (fun _ => True) (FaultOf ts) := by
  unfold tagName
  split
  · exact meets_pure trivial
  split
  · exact meets_pure trivial
  · exact meets_throw faultOf_malformed

/-- A tag is written in front of a node only where one stands among the tokens. -/
theorem meets_properties (handles : List (String × String)) (hs : s.Of ts) :
    Meets (properties handles s) (fun r => (HasTags ts ∨ r.2.1 = none) ∧ r.2.2.Of ts)
      (FaultOf ts) := by
  unfold properties
  refine (Reading.meets_peek hs).bind fun t ht => ?_
  split
  · refine (Reading.meets_peek hs.drop).bind fun u hu => ?_
    split
    · exact (meets_tagName handles _ _).bind fun _ _ => meets_pure ⟨.inl ⟨_, _, hu⟩, hs.drop.drop⟩
    · exact meets_pure ⟨.inr rfl, hs.drop⟩
  · refine (Reading.meets_peek hs.drop).bind fun u _ => ?_
    split
    · exact (meets_tagName handles _ _).bind fun _ _ => meets_pure ⟨.inl ⟨_, _, ht⟩, hs.drop.drop⟩
    · exact (meets_tagName handles _ _).bind fun _ _ => meets_pure ⟨.inl ⟨_, _, ht⟩, hs.drop⟩
  · exact meets_pure ⟨.inr rfl, hs⟩

variable {written : Option String} (hw : HasTags ts ∨ written = none)
include hw

theorem scalarOf_scalarTag {text : String} {plain : Bool} (h : .scalar text plain ∈ ts) :
    ScalarOf ts (scalarTag written text plain) text := by
  rcases hw with hw | rfl
  · exact .inl hw
  · cases plain with
    | true => exact .inr (.inr (.inr ⟨rfl, h⟩))
    | false => exact .inr (.inl rfl)

theorem scalarOf_absent : ScalarOf ts (scalarTag written "" true) "" := by
  rcases hw with hw | rfl
  · exact .inl hw
  · exact .inr (.inr (.inl (by decide)))

theorem collectionTag_of (default_ : Tag) :
    HasTags ts ∨ collectionTag written default_ = default_ := by
  rcases hw with hw | rfl
  · exact .inl hw
  · exact .inr rfl

end

/-! ## Nodes -/

section

variable {ts : List Token}

/-- The nodes of a list are read from tokens. -/
def NodesOf (ts : List Token) (ns : List Node) : Prop := ∀ n ∈ ns, NodeOf ts n

/-- The keys and the values of entries are read from tokens. -/
def EntriesOf (ts : List Token) (es : List (Node × Node)) : Prop :=
  ∀ e ∈ es, NodeOf ts e.1 ∧ NodeOf ts e.2

theorem EntriesOf.mapping {es : List (Node × Node)} (h : EntriesOf ts es) {id : Nat} {tag : Tag}
    (htag : HasTags ts ∨ tag = .mapping) : NodeOf ts (.mapping id tag es) :=
  .mapping htag (fun e he => (h e he).1) fun e he => (h e he).2

variable (handles : List (String × String))

mutual

theorem meets_node : ∀ (fuel : Nat) (context : NodeContext) {s : Reading}, s.Of ts →
    Meets (node handles fuel context s) (fun r => NodeOf ts r.1 ∧ r.2.Of ts) (FaultOf ts)
  | 0, _, _, _ => meets_throw faultOf_malformed
  | fuel + 1, context, s, hs => by
    unfold node
    refine (Reading.meets_peek hs).bind fun t _ => ?_
    split
    · split
      · exact meets_pure ⟨.reference, hs.drop⟩
      · exact meets_throw faultOf_malformed
    refine (meets_properties handles hs).bind fun ⟨anchor, written, s⟩ ⟨hw, hs⟩ => ?_
    refine (Reading.meets_peek hs).bind fun t ht => ?_
    -- a node that nothing is written for, and one whose parts come next
    have habsent : Meets (do
        let (id, s) ← s.enter anchor
        return s.leave anchor id (.scalar id (scalarTag written "" true) ""))
        (fun r => NodeOf ts r.1 ∧ r.2.Of ts) (FaultOf ts) :=
      (Reading.meets_enter hs anchor).bind fun _ hs =>
        meets_pure (hs.leave anchor _ (.scalar (scalarOf_absent hw)))
    have hsequence : ∀ {r : Reading → Except LoadError (List Node × Reading)},
        (∀ {s : Reading}, s.Of ts → Meets (r s) (fun r => NodesOf ts r.1 ∧ r.2.Of ts) (FaultOf ts)) →
        Meets (do
          let (id, s) ← s.enter anchor
          let r ← r s
          return r.2.leave anchor id (.sequence id (collectionTag written .sequence) r.1))
          (fun r => NodeOf ts r.1 ∧ r.2.Of ts) (FaultOf ts) := fun hr =>
      (Reading.meets_enter hs anchor).bind fun _ hs => (hr hs).bind fun _ hr =>
        meets_pure (hr.2.leave anchor _ (.sequence (collectionTag_of hw _) hr.1))
    have hmapping : ∀ {r : Reading → Except LoadError (List (Node × Node) × Reading)},
        (∀ {s : Reading}, s.Of ts →
          Meets (r s) (fun r => EntriesOf ts r.1 ∧ r.2.Of ts) (FaultOf ts)) →
        Meets (do
          let (id, s) ← s.enter anchor
          let r ← r s
          return r.2.leave anchor id (.mapping id (collectionTag written .mapping) r.1))
          (fun r => NodeOf ts r.1 ∧ r.2.Of ts) (FaultOf ts) := fun hr =>
      (Reading.meets_enter hs anchor).bind fun _ hs => (hr hs).bind fun _ hr =>
        meets_pure (hr.2.leave anchor _ (hr.1.mapping (collectionTag_of hw _)))
    split
    · exact (Reading.meets_enter hs.drop anchor).bind fun _ hs =>
        meets_pure (hs.leave anchor _ (.scalar (scalarOf_scalarTag hw ht)))
    · exact hsequence fun hs => meets_flowItems fuel true hs.drop
    · exact hmapping fun hs => meets_flowEntries fuel true hs.drop
    · split
      · exact hsequence fun hs => meets_looseItems fuel hs
      split
      · exact meets_throw faultOf_malformed
      · exact habsent
    · split
      · exact hsequence fun hs => meets_blockItems fuel hs.drop
      split
      · exact hmapping fun hs => meets_blockEntries fuel hs.drop
      split
      · exact meets_throw faultOf_malformed
      · exact habsent

theorem meets_nodeOrAbsent : ∀ (fuel : Nat) (context : NodeContext) (ends : Token → Bool)
    {s : Reading}, s.Of ts →
    Meets (nodeOrAbsent handles fuel context ends s) (fun r => NodeOf ts r.1 ∧ r.2.Of ts) (FaultOf ts)
  | 0, _, _, _, _ => meets_throw faultOf_malformed
  | fuel + 1, context, ends, s, hs => by
    unfold nodeOrAbsent
    refine (Reading.meets_peek hs).bind fun t _ => ?_
    split
    · exact meets_pure hs.absent
    · exact meets_node fuel context hs

theorem meets_entryValue : ∀ (fuel : Nat) (context : NodeContext) (ends : Token → Bool)
    {s : Reading}, s.Of ts →
    Meets (entryValue handles fuel context ends s) (fun r => NodeOf ts r.1 ∧ r.2.Of ts) (FaultOf ts)
  | 0, _, _, _, _ => meets_throw faultOf_malformed
  | fuel + 1, context, ends, s, hs => by
    unfold entryValue
    refine (Reading.meets_peek hs).bind fun t _ => ?_
    split
    · exact meets_nodeOrAbsent fuel context ends hs.drop
    · exact meets_pure hs.absent

theorem meets_flowItems : ∀ (fuel : Nat) (first : Bool) {s : Reading}, s.Of ts →
    Meets (flowItems handles fuel first s) (fun r => NodesOf ts r.1 ∧ r.2.Of ts) (FaultOf ts)
  | 0, _, _, _ => meets_throw faultOf_malformed
  | fuel + 1, first, s, hs => by
    unfold flowItems
    refine (Reading.meets_peek hs).bind fun t _ => ?_
    split
    · exact meets_pure ⟨nofun, hs.drop⟩
    simp only
    split
    · exact meets_throw faultOf_malformed
    have hs : (if first then s else s.drop).Of ts := by
      split
      · exact hs
      · exact hs.drop
    refine (Reading.meets_peek hs).bind fun t _ => ?_
    split
    · exact meets_pure ⟨nofun, hs.drop⟩
    split
    · refine (Reading.meets_enter hs.drop none).bind fun r hs => ?_
      refine (meets_nodeOrAbsent fuel _ _ hs).bind fun key hkey => ?_
      refine (meets_entryValue fuel _ _ hkey.2).bind fun v hv => ?_
      refine (meets_flowItems fuel false hv.2).bind fun items hitems => ?_
      have hentry : EntriesOf ts [(key.1, v.1)] := fun e he =>
        List.mem_singleton.mp he ▸ ⟨hkey.1, hv.1⟩
      exact meets_pure ⟨List.forall_mem_cons.mpr ⟨hentry.mapping (.inr rfl), hitems.1⟩, hitems.2⟩
    · exact (meets_node fuel _ hs).bind fun item hitem =>
        (meets_flowItems fuel false hitem.2).bind fun items hitems =>
          meets_pure ⟨List.forall_mem_cons.mpr ⟨hitem.1, hitems.1⟩, hitems.2⟩

theorem meets_flowEntries : ∀ (fuel : Nat) (first : Bool) {s : Reading}, s.Of ts →
    Meets (flowEntries handles fuel first s) (fun r => EntriesOf ts r.1 ∧ r.2.Of ts) (FaultOf ts)
  | 0, _, _, _ => meets_throw faultOf_malformed
  | fuel + 1, first, s, hs => by
    unfold flowEntries
    refine (Reading.meets_peek hs).bind fun t _ => ?_
    split
    · exact meets_pure ⟨nofun, hs.drop⟩
    simp only
    split
    · exact meets_throw faultOf_malformed
    have hs : (if first then s else s.drop).Of ts := by
      split
      · exact hs
      · exact hs.drop
    refine (Reading.meets_peek hs).bind fun t _ => ?_
    split
    · exact meets_pure ⟨nofun, hs.drop⟩
    split
    · exact (meets_nodeOrAbsent fuel _ _ hs.drop).bind fun key hkey =>
        (meets_entryValue fuel _ _ hkey.2).bind fun v hv =>
          (meets_flowEntries fuel false hv.2).bind fun entries hentries =>
            meets_pure ⟨List.forall_mem_cons.mpr ⟨⟨hkey.1, hv.1⟩, hentries.1⟩, hentries.2⟩
    · exact (meets_node fuel _ hs).bind fun key hkey =>
        (meets_flowEntries fuel false hkey.2.absent.2).bind fun entries hentries =>
          meets_pure ⟨List.forall_mem_cons.mpr ⟨⟨hkey.1, hkey.2.absent.1⟩, hentries.1⟩, hentries.2⟩

theorem meets_blockItems : ∀ (fuel : Nat) {s : Reading}, s.Of ts →
    Meets (blockItems handles fuel s) (fun r => NodesOf ts r.1 ∧ r.2.Of ts) (FaultOf ts)
  | 0, _, _ => meets_throw faultOf_malformed
  | fuel + 1, s, hs => by
    unfold blockItems
    refine (Reading.meets_peek hs).bind fun t _ => ?_
    split
    · exact meets_pure ⟨nofun, hs.drop⟩
    simp only
    split
    · exact meets_throw faultOf_malformed
    · exact (meets_nodeOrAbsent fuel _ _ hs.drop).bind fun item hitem =>
        (meets_blockItems fuel hitem.2).bind fun items hitems =>
          meets_pure ⟨List.forall_mem_cons.mpr ⟨hitem.1, hitems.1⟩, hitems.2⟩

theorem meets_looseItems : ∀ (fuel : Nat) {s : Reading}, s.Of ts →
    Meets (looseItems handles fuel s) (fun r => NodesOf ts r.1 ∧ r.2.Of ts) (FaultOf ts)
  | 0, _, _ => meets_throw faultOf_malformed
  | fuel + 1, s, hs => by
    unfold looseItems
    refine (Reading.meets_peek hs).bind fun t _ => ?_
    split
    · exact meets_pure ⟨nofun, hs⟩
    · exact (meets_nodeOrAbsent fuel _ _ hs.drop).bind fun item hitem =>
        (meets_looseItems fuel hitem.2).bind fun items hitems =>
          meets_pure ⟨List.forall_mem_cons.mpr ⟨hitem.1, hitems.1⟩, hitems.2⟩

theorem meets_blockEntries : ∀ (fuel : Nat) {s : Reading}, s.Of ts →
    Meets (blockEntries handles fuel s) (fun r => EntriesOf ts r.1 ∧ r.2.Of ts) (FaultOf ts)
  | 0, _, _ => meets_throw faultOf_malformed
  | fuel + 1, s, hs => by
    unfold blockEntries
    refine (Reading.meets_peek hs).bind fun t _ => ?_
    split
    · exact meets_pure ⟨nofun, hs.drop⟩
    simp only
    split
    · exact meets_throw faultOf_malformed
    · exact (meets_nodeOrAbsent fuel _ _ hs.drop).bind fun key hkey =>
        (meets_entryValue fuel _ _ hkey.2).bind fun v hv =>
          (meets_blockEntries fuel hv.2).bind fun entries hentries =>
            meets_pure ⟨List.forall_mem_cons.mpr ⟨⟨hkey.1, hv.1⟩, hentries.1⟩, hentries.2⟩

end

end

/-! ## Documents -/

/-- A document that is read from tokens. -/
structure Document.Of (ts : List Token) (d : Document) : Prop where
  root : ∀ n ∈ d.root, NodeOf ts n
  named : ∀ e ∈ d.named, NodeOf ts e.2

section

variable {ts : List Token}

theorem meets_directives : ∀ {us : List Token} (versioned : Bool) (hs : List (String × String)),
    (∀ t ∈ us, t ∈ ts) → Meets (directives us versioned hs) (fun r => ∀ t ∈ r.2, t ∈ ts) (FaultOf ts) := by
  intro us versioned hs hus
  fun_induction directives us versioned hs with
  | case1 e r => exact meets_throw (.inr (hus _ List.mem_cons_self))
  | case2 => exact meets_throw faultOf_malformed
  | case3 versioned hs major minor r _ ih => exact ih fun t ht => hus t (List.mem_cons_of_mem _ ht)
  | case4 => exact meets_throw faultOf_malformed
  | case5 versioned hs name expansion r _ ih =>
    exact ih fun t ht => hus t (List.mem_cons_of_mem _ ht)
  | case6 versioned hs r ih => exact ih fun t ht => hus t (List.mem_cons_of_mem _ ht)
  | case7 => exact meets_pure hus

variable {s : Reading}

theorem meets_documentStart (hs : s.Of ts) :
    Meets (documentStart s) (fun r => r.2.Of ts) (FaultOf ts) := by
  unfold documentStart
  refine (meets_directives false [] hs.tokens).bind fun r hr => ?_
  have hs : Reading.Of ts { s with tokens := r.2 } := ⟨hr, hs.named⟩
  refine (Reading.meets_peek hs).bind fun t _ => ?_
  split
  · exact meets_pure hs.drop
  · exact meets_throw faultOf_malformed

theorem meets_streamEnd (hs : s.Of ts) :
    Meets (streamEnd s) (fun _ => .streamEnd ∈ ts) (FaultOf ts) := by
  have hs : (dropEnds s).Of ts :=
    ⟨fun t ht => hs.tokens t ((List.dropWhile_suffix _).subset ht), hs.named⟩
  unfold streamEnd
  refine (Reading.meets_peek hs).bind fun t ht => ?_
  split
  · exact meets_pure ht
  · exact (meets_documentStart hs).bind fun _ _ => meets_throw faultOf_malformed

/-- A document is read from the tokens of its text up to the end, or there is none for a reason that
they have. -/
theorem meets_read (text : String) : Meets (Document.read text)
    (fun d => d.Of (tokens text) ∧ .streamEnd ∈ tokens text) (FaultOf (tokens text)) := by
  have hstart : Reading.Of (tokens text) ⟨tokens text, 0, [], []⟩ := ⟨fun _ ht => ht, nofun⟩
  have hend : ∀ {root : Option Node} {s : Reading}, (∀ n ∈ root, NodeOf (tokens text) n) →
      s.Of (tokens text) → Meets (do
        streamEnd s
        return (⟨root, s.named, s.next⟩ : Document))
        (fun d => d.Of (tokens text) ∧ .streamEnd ∈ tokens text) (FaultOf (tokens text)) :=
    fun hroot hs => (meets_streamEnd hs).bind fun _ hend => meets_pure ⟨⟨hroot, hs.named⟩, hend⟩
  have hsome : ∀ {r : Node × Reading}, NodeOf (tokens text) r.1 ∧ r.2.Of (tokens text) → Meets (do
      streamEnd r.2
      return (⟨some r.1, r.2.named, r.2.next⟩ : Document))
      (fun d => d.Of (tokens text) ∧ .streamEnd ∈ tokens text) (FaultOf (tokens text)) := fun hr =>
    hend (fun _ hn => Option.some.inj hn ▸ hr.1) hr.2
  unfold Document.read
  refine (Reading.meets_peek hstart).bind fun t _ => ?_
  simp only
  split
  case h_1 => exact hend nofun hstart
  case h_2 | h_3 =>
    refine (meets_documentStart hstart).bind fun r hs => (Reading.meets_peek hs).bind fun t _ => ?_
    split
    · exact hsome hs.absent
    · exact (meets_node r.1 _ _ hs).bind fun _ hn => hsome hn
  case h_4 => exact (meets_node defaultHandles _ _ hstart).bind fun _ hn => hsome hn

end

end Yaml

end GraphPaths
