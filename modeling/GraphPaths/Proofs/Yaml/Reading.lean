import GraphPaths.Proofs.Yaml.Drawing
import GraphPaths.Proofs.Yaml.Meaning
import GraphPaths.Proofs.Yaml.Parsing

/-!
# The tokens of an outline are read as its value

From the tokens of the outline of a value a node is read that means the value of the outline
(`reads_value`). An alias is read as the number of the node with its anchor; that node is complete and
means what was drawn there (`Known`), for no value contains itself.
-/

namespace GraphPaths

namespace Yaml

/-! ## Readings go on -/

/-- From one reading to a later one numbers grow and nodes are named by new numbers. -/
structure Reading.Grows (s s' : Reading) : Prop where
  next : s.next ≤ s'.next
  named : ∃ more, s'.named = more ++ s.named ∧ (more.map Prod.fst).Nodup ∧
    ∀ e ∈ more, s.next ≤ e.1 ∧ e.1 < s'.next
  anchors : ∀ name id, s.anchors.lookup name = some id → s'.anchors.lookup name = some id

namespace Reading

variable {s s' s'' : Reading}

theorem Grows.of_eq (h : s.next ≤ s'.next) (h' : s'.named = s.named) (h'' : s'.anchors = s.anchors) :
    s.Grows s' :=
  ⟨h, ⟨[], h', List.nodup_nil, by simp⟩, fun name id hid => by rw [h'', hid]⟩

theorem Grows.trans (h : s.Grows s') (h' : s'.Grows s'') : s.Grows s'' := by
  obtain ⟨more, hmore, hdistinct, hbounds⟩ := h.named
  obtain ⟨rest, hrest, hdistinct', hbounds'⟩ := h'.named
  refine ⟨Nat.le_trans h.next h'.next, ⟨rest ++ more, by rw [hrest, hmore, List.append_assoc], ?_, ?_⟩,
    fun name id hid => h'.anchors name id (h.anchors name id hid)⟩
  · rw [List.map_append, List.nodup_append]
    refine ⟨hdistinct', hdistinct, ?_⟩
    rintro i hi j hj rfl
    obtain ⟨e, he, rfl⟩ := List.mem_map.mp hi
    obtain ⟨f, hf, heq⟩ := List.mem_map.mp hj
    have := (hbounds' e he).1
    have := (hbounds f hf).2
    omega
  · intro e he
    have := h.next
    have := h'.next
    rcases List.mem_append.mp he with he | he
    · have := hbounds' e he
      omega
    · have := hbounds e he
      omega

/-- A node with an anchor is named by its number when it is complete. -/
theorem Grows.anchored {name : String} {ts : List Token} (h : (s.entered (some name) ts).Grows s')
    (hfree : s.anchors.lookup name = none) (n : Node) :
    s.Grows { s' with named := (s.next, n) :: s'.named } := by
  obtain ⟨more, hmore, hdistinct, hbounds⟩ := h.named
  have hnext : s.next + 1 ≤ s'.next := h.next
  have hbounds : ∀ e ∈ more, s.next + 1 ≤ e.1 ∧ e.1 < s'.next := hbounds
  refine ⟨Nat.le_of_succ_le hnext, ⟨(s.next, n) :: more, ?_, ?_, ?_⟩, fun name' id hid => ?_⟩
  · show (s.next, n) :: s'.named = _
    rw [hmore]
    rfl
  · refine List.nodup_cons.mpr ⟨fun hmem => ?_, hdistinct⟩
    obtain ⟨e, he, heq⟩ := List.mem_map.mp hmem
    have := (hbounds e he).1
    omega
  · intro e he
    show s.next ≤ e.1 ∧ e.1 < s'.next
    rcases List.mem_cons.mp he with rfl | he
    · exact ⟨Nat.le_refl _, hnext⟩
    · have := hbounds e he
      omega
  · have hne : name' ≠ name := by
      rintro rfl
      rw [hfree] at hid
      contradiction
    exact h.anchors name' id ((lookup_cons_of_ne hne _ _).trans hid)

/-- The nodes named so far are those of the document. -/
def Holds (s : Reading) (d : Document) : Prop := ∀ e ∈ s.named, d.named.lookup e.1 = some e.2

theorem Holds.of_grows {d : Document} (h : s'.Holds d) (hs : s.Grows s') : s.Holds d := by
  obtain ⟨more, hmore, -⟩ := hs.named
  exact fun e he => h e (by rw [hmore]; exact List.mem_append_right _ he)

end Reading

/-! ## What is known in front of a node -/

variable {env : Nat → Value} {labels pending inside : List Nat} {drawn : Drawn} {s s' : Reading}

/-- The labels of what is drawn have anchors, and an alias for one that is not pending means what was
drawn; the other labels have none. -/
structure Known (labels pending : List Nat) (s : Reading) (inside : List Nat) (drawn : Drawn) :
    Prop where
  room : inside.length ≤ s.next
  below : ∀ i ∈ inside, i < s.next
  free : ∀ l name, anchorName labels l = some name → drawn.lookup l = none →
    s.anchors.lookup name = none
  known : ∀ l w, drawn.lookup l = some w → ∃ name id, anchorName labels l = some name ∧
    s.anchors.lookup name = some id ∧
    (l ∈ pending ∨ ∀ d, s.Holds d → d.Means s.next inside (.alias id) w)

/-- What was known before is known later, if no anchor came. -/
theorem Known.later (h : Known labels pending s inside drawn) (hnext : s.next ≤ s'.next)
    (hnamed : s.named ⊆ s'.named) (hanchors : s'.anchors = s.anchors) :
    Known labels pending s' inside drawn where
  room := Nat.le_trans h.room hnext
  below i hi := Nat.lt_of_lt_of_le (h.below i hi) hnext
  free l name hl hd := by
    rw [hanchors]
    exact h.free l name hl hd
  known l w hl := by
    obtain ⟨name, id, hname, hid, hmeans⟩ := h.known l w hl
    refine ⟨name, id, hname, by rw [hanchors]; exact hid, hmeans.imp_right fun hm d hd => ?_⟩
    exact (hm d fun e he => hd e (hnamed he)).mono hnext

/-- What was known before is known behind tokens that name nothing. -/
theorem Known.behind (h : Known labels pending s inside drawn) (hnext : s.next ≤ s'.next)
    (hnamed : s'.named = s.named) (hanchors : s'.anchors = s.anchors) :
    Known labels pending s' inside drawn :=
  h.later hnext (hnamed ▸ List.Subset.refl _) hanchors

/-- Different labels have different names. -/
theorem anchorName_injective {l l' : Nat} {name : String} (h : anchorName labels l = some name)
    (h' : anchorName labels l' = some name) : l = l' := by
  unfold anchorName at h h'
  obtain ⟨i, hi, rfl⟩ := Option.map_eq_some_iff.mp h
  obtain ⟨j, hj, hname⟩ := Option.map_eq_some_iff.mp h'
  have hij : i + 1 = j + 1 := Text.decimalPadded_injective 3 (String.append_right_inj _ |>.mp hname.symm)
  obtain rfl : i = j := by omega
  obtain ⟨hlt, hat, -⟩ := List.findIdx?_eq_some_iff_getElem.mp hi
  obtain ⟨hlt', hat', -⟩ := List.findIdx?_eq_some_iff_getElem.mp hj
  exact (beq_iff_eq.mp hat).symm.trans (beq_iff_eq.mp hat')

/-- A collection without an anchor starts. -/
theorem Known.enter (h : Known labels pending s inside drawn) (ts : List Token) :
    Known labels pending (s.entered none ts) (s.next :: inside) drawn where
  room := Nat.succ_le_succ h.room
  below i hi := by
    show i < s.next + 1
    rcases List.mem_cons.mp hi with rfl | hi
    · omega
    · have := h.below i hi
      omega
  free := h.free
  known l w hl := by
    obtain ⟨name, id, hname, hid, hmeans⟩ := h.known l w hl
    exact ⟨name, id, hname, hid, hmeans.imp_right fun hm d hd => (hm d hd).push⟩

/-- A collection with an anchor starts; its label is pending until it ends. -/
theorem Known.anchor (h : Known labels pending s inside drawn) {l : Nat} {name : String}
    (hname : anchorName labels l = some name) (hl : drawn.lookup l = none) (w : Value)
    (ts : List Token) : Known labels (l :: pending) (s.entered (some name) ts) (s.next :: inside)
      ((l, w) :: drawn) := by
  have hother : ∀ {l' : Nat} {name' : String}, anchorName labels l' = some name' → l' ≠ l →
      (s.entered (some name) ts).anchors.lookup name' = s.anchors.lookup name' := by
    intro l' name' hname' hne
    exact lookup_cons_of_ne (fun heq => hne (anchorName_injective (heq ▸ hname') hname)) _ _
  refine ⟨(h.enter ts).room, (h.enter ts).below, fun l' name' hname' hfree => ?_,
    fun l' w' hl' => ?_⟩
  · have hne : l' ≠ l := by
      rintro rfl
      rw [List.lookup_cons_self] at hfree
      contradiction
    rw [lookup_cons_of_ne hne] at hfree
    rw [hother hname' hne]
    exact h.free l' name' hname' hfree
  · by_cases hne : l' = l
    · subst hne
      exact ⟨name, s.next, hname, List.lookup_cons_self, .inl List.mem_cons_self⟩
    · rw [lookup_cons_of_ne hne] at hl'
      obtain ⟨name', id, hname', hid, hmeans⟩ := h.known l' w' hl'
      refine ⟨name', id, hname', by rw [hother hname' hne, hid], ?_⟩
      exact hmeans.imp (List.mem_cons_of_mem l) fun hm d hd => (hm d hd).push

/-- Behind a collection. -/
theorem Known.pop {k : Nat} (h : Known labels pending s (k :: inside) drawn) :
    Known labels pending s inside drawn where
  room := Nat.le_trans (Nat.le_succ _) h.room
  below i hi := h.below i (List.mem_cons_of_mem k hi)
  free := h.free
  known l w hl := by
    obtain ⟨name, id, hname, hid, hmeans⟩ := h.known l w hl
    exact ⟨name, id, hname, hid, hmeans.imp_right fun hm d hd => (hm d hd).pop⟩

/-- A collection with an anchor is complete. -/
theorem Known.complete {l id : Nat} {name : String} {w : Value}
    (h : Known labels (l :: pending) s inside drawn) (hnext : s.next ≤ s'.next)
    (hnamed : s.named ⊆ s'.named) (hanchors : s'.anchors = s.anchors)
    (hname : anchorName labels l = some name) (hid : s.anchors.lookup name = some id)
    (hmeans : ∀ d, s'.Holds d → d.Means s'.next inside (.alias id) w) :
    Known labels pending s' inside ((l, w) :: drawn) := by
  have hlater := h.later hnext hnamed hanchors
  refine ⟨hlater.room, hlater.below, fun l' name' hname' hfree => ?_, fun l' w' hl' => ?_⟩
  · have hne : l' ≠ l := by
      rintro rfl
      rw [List.lookup_cons_self] at hfree
      contradiction
    rw [lookup_cons_of_ne hne] at hfree
    exact hlater.free l' name' hname' hfree
  · by_cases hne : l' = l
    · subst hne
      rw [List.lookup_cons_self] at hl'
      obtain rfl : w = w' := Option.some.inj hl'
      exact ⟨name, id, hname, by rw [hanchors]; exact hid, .inr hmeans⟩
    · rw [lookup_cons_of_ne hne] at hl'
      obtain ⟨name', id', hname', hid', hmeans'⟩ := hlater.known l' w' hl'
      exact ⟨name', id', hname', hid', hmeans'.imp_left fun hmem =>
        (List.mem_cons.mp hmem).resolve_left hne⟩

/-! ## Nodes -/

/-- Behind the value of an entry comes the next key or the end of the block. -/
def Stops (inMapping : Bool) (r : List Token) : Prop :=
  inMapping → ∃ t r', r = t :: r' ∧ (t = .key ∨ t = .blockEnd)

/-- A reading in front of a node, and one behind it that knows what was drawn meanwhile. -/
structure Gives (labels pending : List Nat) (s : Reading) (inside : List Nat) (n : Node) (s' : Reading)
    (r : List Token) (drawn : Drawn) (v : Value) : Prop where
  rest : s'.tokens = r
  grows : s.Grows s'
  known : Known labels pending s' inside drawn
  means : ∀ d, s'.Holds d → d.Means s'.next inside n v

/-- From the outline of a value a node is read that means its value. -/
def ReadsNode (env : Nat → Value) (labels : List Nat) (v : Value) : Prop :=
  ∀ (inMapping : Bool) (indent : Option Nat) (fresh : Bool) (s : Reading) (pending inside : List Nat)
    (drawn : Drawn) (r : List Token) (fuel : Nat),
    let o := outline labels inMapping indent fresh v drawn
    s.tokens = o.1.tokens ++ r → Known labels pending s inside drawn →
    (∀ l ∈ pending, sizeOf v ≤ sizeOf (env l)) → Stops inMapping r →
    3 * o.1.tokens.length + 2 ≤ fuel →
    ∃ n s', node defaultHandles fuel (contextOf inMapping) s = .ok (n, s') ∧
      Gives labels pending s inside n s' r o.2 o.1.value

theorem scalarKind_of_line {text : String} (h : '\n' ∉ text.toList) :
    scalarKind text = implicitKind text.toList := by
  unfold scalarKind
  split
  · next heq => exact absurd (List.mem_reverse.mp (by rw [heq]; exact List.mem_cons_self)) h
  · next heq => exact absurd (List.mem_reverse.mp (by rw [heq]; exact List.mem_cons_self)) h
  · rfl

theorem not_mem_newLine_of_plain {cs : List Char} (h : (Traits.of cs).plain) : '\n' ∉ cs := by
  cases cs with
  | nil => exact List.not_mem_nil
  | cons c r =>
    simp only [Traits.of, Bool.not_eq_true', Bool.or_eq_false_iff] at h
    intro hmem
    have := List.any_eq_false.mp h.1.2 '\n' hmem
    exact this rfl

/-- The tag of a text at a site. -/
theorem scalarTag_site (s : Site) :
    scalarTag none s.readBack (s.style == .plain) = .scalar .text := by
  by_cases h : s.style = .plain
  · have hread : s.readBack = s.text := by rw [Site.readBack, h]
    have hkind : implicitKind s.text.toList = .text := beq_iff_eq.mp (plain_of_style h).1
    rw [hread, h]
    show Tag.scalar (scalarKind s.text) = _
    rw [scalarKind_of_line (not_mem_newLine_of_plain (plain_of_style h).2), hkind]
  · rw [beq_eq_false_iff_ne.mpr h]
    rfl

/-- A scalar is read by one token. -/
theorem reads_scalar {kind : ScalarKind} {text : String} {plain : Bool} {v : Value} {r : List Token}
    {fuel : Nat} {context : NodeContext} (hs : s.tokens = .scalar text plain :: r)
    (htag : scalarTag none text plain = .scalar kind) (hscalar : scalar kind text = .ok v)
    (hv : v.plain = v) (hknown : Known labels pending s inside drawn) (hfuel : 0 < fuel) :
    ∃ n s', node defaultHandles fuel context s = .ok (n, s') ∧
      Gives labels pending s inside n s' r drawn v := by
  obtain ⟨fuel, rfl⟩ := Nat.exists_eq_succ_of_ne_zero (Nat.ne_of_gt hfuel)
  have hgrows : s.Grows (s.entered none r) := .of_eq (Nat.le_succ _) rfl rfl
  refine ⟨_, _, node_scalar _ _ _ hs, rfl, hgrows, hknown.behind hgrows.next rfl rfl, fun d _ => ?_⟩
  rw [htag]
  exact Document.means_scalar (Nat.lt_succ_of_le hknown.room) hscalar hv

theorem readsNode_text (u : String) : ReadsNode env labels (.text u) := by
  intro inMapping indent fresh s pending inside drawn r fuel o hs hknown _ _ hfuel
  exact reads_scalar hs (scalarTag_site _) rfl rfl hknown (by omega)

theorem readsNode_atom {v : Value} (hv : v.isAtom) (h : Json.hasReading v) :
    ReadsNode env labels v := by
  obtain ⟨scalar, h⟩ := exists_plainAtom h hv
  intro inMapping indent fresh s pending inside drawn r fuel o hs hknown _ _ hfuel
  have houtline : o = (.atom v, drawn) := by
    cases v <;> first | rfl | cases hv
  have hplain : v.plain = v := by cases v <;> first | rfl | cases hv
  have htext : Outline.atomText v = scalar.text := by rw [Outline.atomText, h.written]
  rw [houtline] at hs ⊢
  have htag : scalarTag none (Outline.atomText v) true = .scalar scalar.kind := by
    show Tag.scalar (scalarKind (Outline.atomText v)) = _
    rw [htext, scalarKind_of_line (not_mem_newLine_of_plain h.plain), h.implicit]
  exact reads_scalar hs htag (by rw [htext]; exact h.read) hplain hknown (by omega)

variable (labels) in
/-- The first token for a value starts a node, or an item if that may stand below a key. -/
theorem outline_start : ∀ (v : Value) (inMapping : Bool) (indent : Option Nat) (fresh : Bool)
    (drawn : Drawn), ∃ t ts, (outline labels inMapping indent fresh v drawn).1.tokens = t :: ts ∧
      (startsNode t ∨ (inMapping ∧ t = .blockEntry))
  | .shared l v, inMapping, indent, fresh, drawn => by
    rw [outline]
    split
    · exact outline_start v inMapping indent fresh drawn
    · split
      · exact ⟨_, _, rfl, .inl rfl⟩
      · exact ⟨_, _, rfl, .inl rfl⟩
  | .list [], _, _, _, _ => ⟨_, _, rfl, .inl rfl⟩
  | .list (x :: xs), inMapping, indent, fresh, drawn => by
    cases hloose : inMapping && !fresh with
    | true =>
      rw [outline, hloose]
      simp only [Bool.and_eq_true] at hloose
      exact ⟨_, _, rfl, .inr ⟨hloose.1, rfl⟩⟩
    | false =>
      rw [outline, hloose]
      exact ⟨_, _, rfl, .inl rfl⟩
  | .map [], _, _, _, _ => ⟨_, _, rfl, .inl rfl⟩
  | .map (_ :: _), _, _, _, _ => ⟨_, _, rfl, .inl rfl⟩
  | .text _, _, _, _, _ | .null, _, _, _, _ | .bool _, _, _, _, _ | .int _, _, _, _, _
  | .float _, _, _, _, _ | .date _, _, _, _, _ | .moment _, _, _, _, _ | .bytes _, _, _, _, _
  | .set _, _, _, _, _ | .again _, _, _, _, _ => ⟨_, _, rfl, .inl rfl⟩

/-! ## Lists -/

/-- From the outlines of items nodes are read that mean their values. -/
def ReadsItems (env : Nat → Value) (labels : List Nat) (xs : List Value) : Prop :=
  ∀ (loose : Bool) (n : Nat) (s : Reading) (pending inside : List Nat) (drawn : Drawn) (r : List Token)
    (fuel : Nat),
    let os := outlineItems labels n xs drawn
    s.tokens = Outline.itemTokens os.1 ++ (if loose then r else .blockEnd :: r) →
    Known labels pending s inside drawn → (∀ l ∈ pending, sizeOf xs ≤ sizeOf (env l)) → Stops loose r →
    3 * (Outline.itemTokens os.1).length + 1 ≤ fuel →
    ∃ ns s', readItems loose defaultHandles fuel s = .ok (ns, s') ∧ s'.tokens = r ∧ s.Grows s' ∧
      Known labels pending s' inside os.2 ∧ ∀ d, s'.Holds d →
        List.Forall₂ (fun n v => d.Means s'.next inside n v) ns (Outline.values os.1)

theorem readsItems_nil : ReadsItems env labels [] := by
  intro loose n s pending inside drawn r fuel os hs hknown _ hstops hfuel
  obtain ⟨fuel, rfl⟩ := Nat.exists_eq_succ_of_ne_zero (show fuel ≠ 0 by omega)
  cases loose with
  | true =>
    obtain ⟨t, r', rfl, ht⟩ := hstops rfl
    exact ⟨[], s, looseItems_end ht hs, hs, .of_eq (Nat.le_refl _) rfl rfl, hknown, fun _ _ => .nil⟩
  | false =>
    have hgrows : s.Grows { s with tokens := r } := .of_eq (Nat.le_refl _) rfl rfl
    exact ⟨[], _, blockItems_end hs, rfl, hgrows, hknown.behind hgrows.next rfl rfl,
      fun _ _ => .nil⟩

theorem readsItems_cons {x : Value} {xs : List Value} (hx : ReadsNode env labels x)
    (hxs : ReadsItems env labels xs) : ReadsItems env labels (x :: xs) := by
  intro loose n s pending inside drawn r fuel os hs hknown hsizes hstops hfuel
  have hsize : sizeOf (x :: xs) = 1 + sizeOf x + sizeOf xs := rfl
  generalize hrest : (if loose then r else .blockEnd :: r) = rest at hs
  obtain ⟨t, ts, ht, hstart⟩ := outline_start labels x false (some n) true drawn
  have hstart : startsNode t := hstart.resolve_right fun h => Bool.false_ne_true h.1
  generalize ho : outline labels false (some n) true x drawn = o at ht
  have hos : os = (o.1 :: (outlineItems labels n xs o.2).1, (outlineItems labels n xs o.2).2) := by
    rw [← ho]
    rfl
  rw [hos] at hs hfuel ⊢
  have hlength : (Outline.itemTokens (o.1 :: (outlineItems labels n xs o.2).1)).length =
      1 + o.1.tokens.length + (Outline.itemTokens (outlineItems labels n xs o.2).1).length := by
    show (Token.blockEntry :: (_ ++ _)).length = _
    rw [List.length_cons, List.length_append]
    omega
  have hfuel : 3 * (1 + o.1.tokens.length +
      (Outline.itemTokens (outlineItems labels n xs o.2).1).length) + 1 ≤ fuel := by
    rw [← hlength]
    exact hfuel
  obtain ⟨fuel, rfl⟩ := Nat.exists_eq_add_of_le (show 2 ≤ fuel by omega)
  have hs : s.tokens = .blockEntry :: (o.1.tokens ++
      (Outline.itemTokens (outlineItems labels n xs o.2).1 ++ rest)) := by
    rw [hs]
    show (Token.blockEntry :: (_ ++ _)) ++ rest = _
    simp
  obtain ⟨node, s₁, hnode, hgives⟩ := hx false (some n) true { s with tokens := o.1.tokens ++
      (Outline.itemTokens (outlineItems labels n xs o.2).1 ++ rest) } pending inside drawn _ fuel
    (by rw [ho]) (hknown.behind (Nat.le_refl _) rfl rfl)
    (fun l hl => by have := hsizes l hl; omega) (fun h => absurd h Bool.false_ne_true)
    (by rw [ho]; omega)
  rw [ho] at hgives
  obtain ⟨ns, s₂, hitems, hr, hgrows, hknown₂, hmeans⟩ := hxs loose n s₁ pending inside o.2 r (fuel + 1)
    (by rw [hgives.rest, hrest]) hgives.known (fun l hl => by have := hsizes l hl; omega) hstops
    (by omega)
  refine ⟨node :: ns, s₂, ?_, hr, ?_, hknown₂, fun d hd => ?_⟩
  · rw [ht, List.cons_append] at hs
    rw [Nat.add_comm 2 fuel, readItems_cons loose hstart hs]
    rw [ht] at hnode
    show (Yaml.node defaultHandles fuel (contextOf false) _ >>= _) = _
    rw [← List.cons_append, hnode]
    show (readItems loose defaultHandles (fuel + 1) s₁ >>= _) = _
    rw [hitems]
    rfl
  · exact .trans ⟨hgives.grows.next, hgives.grows.named, hgives.grows.anchors⟩ hgrows
  · exact .cons ((hgives.means d (hd.of_grows hgrows)).mono hgrows.next) (hmeans d hd)

/-- From the outline of a collection, with an anchor in front of it or without, a node is read that
means its value. -/
def ReadsCollection (env : Nat → Value) (labels : List Nat) (v : Value) : Prop :=
  ∀ (inMapping : Bool) (indent : Option Nat) (fresh : Bool) (s : Reading) (anchor : Option String)
    (pending inside : List Nat) (drawn : Drawn) (r : List Token) (fuel : Nat),
    let o := outline labels inMapping indent fresh v drawn
    s.tokens = anchorTokens anchor ++ (o.1.tokens ++ r) →
    (∀ name ∈ anchor, s.anchors.lookup name = none) → (∀ i ∈ inside, i < s.next) →
    Known labels pending (s.entered anchor []) (s.next :: inside) drawn →
    (∀ l ∈ pending, sizeOf v ≤ sizeOf (env l)) → Stops inMapping r →
    3 * o.1.tokens.length + 2 ≤ fuel →
    ∃ n s', node defaultHandles fuel (contextOf inMapping) s = .ok (s'.leave anchor s.next n) ∧
      Gives labels pending (s.entered anchor []) inside n s' r o.2 o.1.value ∧ ∀ i, n ≠ .alias i

/-- The conditions under which a collection that was entered means what its parts mean. -/
theorem Known.number (h : Known labels pending s' (s.next :: inside) drawn)
    (hbelow : ∀ i ∈ inside, i < s.next) :
    s.next ∉ inside ∧ s.next < s'.next ∧ inside.length < s'.next :=
  ⟨fun hmem => Nat.lt_irrefl _ (hbelow _ hmem), h.below _ List.mem_cons_self, h.room⟩

section Complete

variable {anchor : Option String} {ts r : List Token}

/-- A list that was entered and read to its end. -/
theorem Gives.sequence {ns : List Node} {vs : List Value} (hbelow : ∀ i ∈ inside, i < s.next)
    (hr : s'.tokens = r) (hgrows : (s.entered anchor ts).Grows s')
    (hknown : Known labels pending s' (s.next :: inside) drawn)
    (hmeans : ∀ d, s'.Holds d →
      List.Forall₂ (fun n v => d.Means s'.next (s.next :: inside) n v) ns vs) :
    Gives labels pending (s.entered anchor []) inside (.sequence s.next .sequence ns) s' r drawn
      (.list vs) :=
  have hnumber := hknown.number hbelow
  ⟨hr, ⟨hgrows.next, hgrows.named, hgrows.anchors⟩, hknown.pop, fun d hd =>
    Document.means_sequence hnumber.1 hnumber.2.1 hnumber.2.2 (hmeans d hd)⟩

/-- A mapping that was entered and read to its end. -/
theorem Gives.mapping {ns : List (Node × Node)} {fields : List (String × Value)}
    (hbelow : ∀ i ∈ inside, i < s.next) (hr : s'.tokens = r) (hgrows : (s.entered anchor ts).Grows s')
    (hknown : Known labels pending s' (s.next :: inside) drawn)
    (hmeans : ∀ d, s'.Holds d → List.Forall₂
      (fun e f => Document.IsText e.1 f.1 ∧ d.Means s'.next (s.next :: inside) e.2 f.2) ns fields) :
    Gives labels pending (s.entered anchor []) inside (.mapping s.next .mapping ns) s' r drawn
      (.map (Value.ofEntries (Value.texts fields))) :=
  have hnumber := hknown.number hbelow
  ⟨hr, ⟨hgrows.next, hgrows.named, hgrows.anchors⟩, hknown.pop, fun d hd =>
    Document.means_mapping hnumber.1 hnumber.2.1 hnumber.2.2 (hmeans d hd)⟩

end Complete

theorem readsCollection_nil : ReadsCollection env labels (.list []) := by
  intro inMapping indent fresh s anchor pending inside drawn r fuel o hs hfree hbelow hknown _ _ hfuel
  obtain ⟨fuel, rfl⟩ := Nat.exists_eq_add_of_le (show 2 ≤ fuel from Nat.le_trans (by omega) hfuel)
  have hgrows : (s.entered anchor []).Grows (s.entered anchor r) := .of_eq (Nat.le_refl _) rfl rfl
  refine ⟨.sequence s.next .sequence [], s.entered anchor r, ?_, .sequence hbelow rfl hgrows
    (hknown.behind hgrows.next rfl rfl) (fun _ _ => .nil), by simp⟩
  rw [Nat.add_comm 2 fuel, node_collection (t := .flowSequenceStart) rfl hs hfree]
  show (flowItems defaultHandles (fuel + 1) true _ >>= _) = _
  rw [flowItems]
  rfl

theorem readsCollection_list {x : Value} {xs : List Value} (hx : ReadsNode env labels x)
    (hxs : ReadsItems env labels xs) : ReadsCollection env labels (.list (x :: xs)) := by
  intro inMapping indent fresh s anchor pending inside drawn r fuel o hs hfree hbelow hknown hsizes
    hstops hfuel
  have hsize := Value.list.sizeOf_spec (x :: xs)
  obtain ⟨fuel, rfl⟩ := Nat.exists_eq_add_of_le (show 1 ≤ fuel from Nat.le_trans (by omega) hfuel)
  obtain ⟨loose, hloose⟩ : ∃ loose, (inMapping && !fresh) = loose := ⟨_, rfl⟩
  have hin : loose → inMapping := fun h => (Bool.and_eq_true_iff.mp (hloose.trans h)).1
  obtain ⟨os, hos⟩ : ∃ os, outlineItems labels (inner indent loose) (x :: xs) drawn = os := ⟨_, rfl⟩
  have ho : o = (.list loose os.1, os.2) := by
    show outline labels inMapping indent fresh (.list (x :: xs)) drawn = _
    rw [outline, hloose, ← hos]
  obtain ⟨ts, hts⟩ : ∃ ts, Outline.itemTokens os.1 = .blockEntry :: ts := by
    rw [← hos]
    exact ⟨_, rfl⟩
  have htokens : (Outline.list loose os.1).tokens ++ r = if loose then Outline.itemTokens os.1 ++ r
      else .blockSequenceStart :: (Outline.itemTokens os.1 ++ .blockEnd :: r) := by
    rw [← hos]
    cases loose with
    | true => rfl
    | false => exact congrArg (Token.blockSequenceStart :: ·) (List.append_assoc _ _ r)
  have hlength : (Outline.itemTokens os.1).length ≤ (Outline.list loose os.1).tokens.length := by
    have := congrArg List.length htokens
    revert this
    cases loose <;> simp <;> omega
  rw [ho] at hs hfuel ⊢
  rw [htokens] at hs
  have hfuel : 3 * (Outline.list loose os.1).tokens.length + 2 ≤ 1 + fuel := hfuel
  obtain ⟨ns, s', hread, hr, hgrows, hknown', hmeans⟩ := readsItems_cons hx hxs loose (inner indent loose)
    (s.entered anchor (Outline.itemTokens os.1 ++ if loose then r else .blockEnd :: r)) pending
    (s.next :: inside) drawn r fuel (by rw [hos]; rfl) (hknown.behind (Nat.le_refl _) rfl rfl)
    (fun l hl => by have := hsizes l hl; omega) (fun h => hstops (hin h)) (by rw [hos]; omega)
  rw [hos] at hknown' hmeans
  refine ⟨.sequence s.next .sequence ns, s', ?_, .sequence hbelow hr hgrows hknown' hmeans, by simp⟩
  rw [Nat.add_comm 1 fuel, node_items hin hts hs hfree, hread]
  rfl

/-! ## Mappings -/

/-- From the outlines of entries nodes are read that mean their keys and values. -/
def ReadsEntries (env : Nat → Value) (labels : List Nat) (es : List (Value × Value)) : Prop :=
  ∀ (n : Nat) (s : Reading) (pending inside : List Nat) (drawn : Drawn) (r : List Token) (fuel : Nat),
    let os := outlineEntries labels n es drawn
    s.tokens = Outline.entryTokens os.1 ++ .blockEnd :: r →
    Known labels pending s inside drawn → (∀ l ∈ pending, sizeOf es ≤ sizeOf (env l)) →
    3 * (Outline.entryTokens os.1).length + 1 ≤ fuel →
    ∃ ns s', blockEntries defaultHandles fuel s = .ok (ns, s') ∧ s'.tokens = r ∧ s.Grows s' ∧
      Known labels pending s' inside os.2 ∧ ∀ d, s'.Holds d →
        List.Forall₂ (fun e f => Document.IsText e.1 f.1 ∧ d.Means s'.next inside e.2 f.2) ns
          (Outline.fields os.1)

theorem readsEntries_nil : ReadsEntries env labels [] := by
  intro n s pending inside drawn r fuel os hs hknown _ hfuel
  obtain ⟨fuel, rfl⟩ := Nat.exists_eq_succ_of_ne_zero (show fuel ≠ 0 by omega)
  have hgrows : s.Grows { s with tokens := r } := .of_eq (Nat.le_refl _) rfl rfl
  exact ⟨[], _, blockEntries_end hs, rfl, hgrows, hknown.behind hgrows.next rfl rfl, fun _ _ => .nil⟩

/-- Behind the entries of a block comes its end, and behind one of them the key of the next. -/
theorem stops_entry (os : List (Site × Outline)) (r : List Token) :
    Stops true (Outline.entryTokens os ++ .blockEnd :: r) := by
  intro _
  cases os with
  | nil => exact ⟨_, _, rfl, .inr rfl⟩
  | cons e os => exact ⟨_, _, rfl, .inl rfl⟩

theorem readsEntries_cons (k : Value) {v : Value} {es : List (Value × Value)}
    (hv : ReadsNode env labels v) (hes : ReadsEntries env labels es) :
    ReadsEntries env labels ((k, v) :: es) := by
  intro n s pending inside drawn r fuel os hs hknown hsizes hfuel
  have hsize : sizeOf ((k, v) :: es) = 1 + (1 + sizeOf k + sizeOf v) + sizeOf es := rfl
  generalize hsite : (⟨keyText k, n + 2, isSimpleText (keyText k)⟩ : Site) = site
  obtain ⟨t, ts, ht, hstart⟩ := outline_start labels v true (some n)
    (!isSimpleText (keyText k)) drawn
  have hstart : startsNode t ∨ t = .blockEntry := hstart.imp_right And.right
  generalize ho : outline labels true (some n) (!isSimpleText (keyText k)) v drawn = o at ht
  generalize hrest : outlineEntries labels n es o.2 = rest
  have hos : os = ((site, o.1) :: rest.1, rest.2) := by
    rw [← hrest, ← ho, ← hsite]
    rfl
  rw [hos] at hs hfuel ⊢
  have hlength : (Outline.entryTokens ((site, o.1) :: rest.1)).length =
      3 + o.1.tokens.length + (Outline.entryTokens rest.1).length := by
    show (Token.key :: Token.scalar _ _ :: Token.value :: (_ ++ _)).length = _
    rw [List.length_cons, List.length_cons, List.length_cons, List.length_append]
    omega
  have hfuel : 3 * (3 + o.1.tokens.length + (Outline.entryTokens rest.1).length) + 1 ≤ fuel := by
    rw [← hlength]
    exact hfuel
  obtain ⟨fuel, rfl⟩ := Nat.exists_eq_add_of_le (show 3 ≤ fuel by omega)
  have hs : s.tokens = .key :: .scalar site.readBack (site.style == .plain) :: .value ::
      (o.1.tokens ++ (Outline.entryTokens rest.1 ++ .blockEnd :: r)) := by
    rw [hs]
    show (Token.key :: Token.scalar _ _ :: Token.value :: (_ ++ _)) ++ _ = _
    simp
  have hgrows : s.Grows
      (s.entered none (o.1.tokens ++ (Outline.entryTokens rest.1 ++ .blockEnd :: r))) :=
    .of_eq (Nat.le_succ _) rfl rfl
  obtain ⟨value, s₁, hnode, hgives⟩ := hv true (some n) (!isSimpleText (keyText k))
    (s.entered none (o.1.tokens ++ (Outline.entryTokens rest.1 ++ .blockEnd :: r))) pending inside drawn
    (Outline.entryTokens rest.1 ++ .blockEnd :: r) fuel (by rw [ho]; rfl)
    (hknown.behind hgrows.next rfl rfl) (fun l hl => by have := hsizes l hl; omega)
    (stops_entry rest.1 r) (by rw [ho]; omega)
  rw [ho] at hgives
  obtain ⟨ns, s₂, hentries, hr, hgrows₂, hknown₂, hmeans⟩ := hes n s₁ pending inside o.2 r (fuel + 2)
    (by rw [hgives.rest, hrest]) hgives.known (fun l hl => by have := hsizes l hl; omega)
    (by rw [hrest]; omega)
  rw [hrest] at hknown₂ hmeans
  refine ⟨(.scalar s.next (scalarTag none site.readBack (site.style == .plain)) site.readBack, value) ::
    ns, s₂, ?_, hr, hgrows.trans (hgives.grows.trans hgrows₂), hknown₂, fun d hd => ?_⟩
  · rw [ht, List.cons_append] at hs hnode
    rw [Nat.add_comm 3 fuel, blockEntries_cons hstart hs]
    have hnode : node defaultHandles fuel .entry (s.entered none (t :: (ts ++
      (Outline.entryTokens rest.1 ++ .blockEnd :: r)))) = .ok (value, s₁) := hnode
    rw [hnode]
    show (blockEntries defaultHandles (fuel + 2) s₁ >>= _) = _
    rw [hentries]
    rfl
  · refine .cons ⟨⟨s.next, ?_⟩, (hgives.means d (hd.of_grows hgrows₂)).mono hgrows₂.next⟩ (hmeans d hd)
    show Node.scalar s.next (scalarTag none site.readBack _) site.readBack = _
    rw [scalarTag_site]

theorem readsCollection_empty : ReadsCollection env labels (.map []) := by
  intro inMapping indent fresh s anchor pending inside drawn r fuel o hs hfree hbelow hknown _ _ hfuel
  obtain ⟨fuel, rfl⟩ := Nat.exists_eq_add_of_le (show 2 ≤ fuel from Nat.le_trans (by omega) hfuel)
  have hgrows : (s.entered anchor []).Grows (s.entered anchor r) := .of_eq (Nat.le_refl _) rfl rfl
  refine ⟨.mapping s.next .mapping [], s.entered anchor r, ?_,
    (.mapping hbelow rfl hgrows (hknown.behind hgrows.next rfl rfl) (fun _ _ => .nil) :
      Gives _ _ _ _ _ _ _ _ (.map (Value.ofEntries (Value.texts [])))), by simp⟩
  rw [Nat.add_comm 2 fuel, node_collection (t := .flowMappingStart) rfl hs hfree]
  show (flowEntries defaultHandles (fuel + 1) true _ >>= _) = _
  rw [flowEntries]
  rfl

theorem readsCollection_map (k : Value) {v : Value} {es : List (Value × Value)}
    (hv : ReadsNode env labels v) (hes : ReadsEntries env labels es) :
    ReadsCollection env labels (.map ((k, v) :: es)) := by
  intro inMapping indent fresh s anchor pending inside drawn r fuel o hs hfree hbelow hknown hsizes
    hstops hfuel
  have hsize := Value.map.sizeOf_spec ((k, v) :: es)
  obtain ⟨fuel, rfl⟩ := Nat.exists_eq_add_of_le (show 1 ≤ fuel from Nat.le_trans (by omega) hfuel)
  obtain ⟨os, hos⟩ : ∃ os, outlineEntries labels (inner indent false) ((k, v) :: es) drawn = os :=
    ⟨_, rfl⟩
  have ho : o = (.map os.1, os.2) := by
    show outline labels inMapping indent fresh (.map ((k, v) :: es)) drawn = _
    rw [outline, ← hos]
  have htokens : (Outline.map os.1).tokens =
      .blockMappingStart :: (Outline.entryTokens os.1 ++ [.blockEnd]) := by rw [← hos]; rfl
  have hvalue : (Outline.map os.1).value =
      .map (Value.ofEntries (Value.texts (Outline.fields os.1))) := by
    rw [Outline.value, Outline.entryValues_eq]
  rw [ho] at hs hfuel ⊢
  rw [htokens] at hs hfuel
  obtain ⟨ns, s', hread, hr, hgrows, hknown', hmeans⟩ := readsEntries_cons k hv hes (inner indent false)
    (s.entered anchor (Outline.entryTokens os.1 ++ .blockEnd :: r)) pending (s.next :: inside) drawn r
    fuel (by rw [hos]; rfl) (hknown.behind (Nat.le_refl _) rfl rfl)
    (fun l hl => by have := hsizes l hl; omega) (by
      rw [hos]
      simp only [List.length_cons, List.length_append] at hfuel
      omega)
  rw [hos] at hknown' hmeans
  rw [hvalue]
  refine ⟨.mapping s.next .mapping ns, s', ?_, .mapping hbelow hr hgrows hknown' hmeans, by simp⟩
  have hblock : startsCollection (contextOf inMapping) .blockMappingStart := by
    cases inMapping <;> rfl
  rw [Nat.add_comm 1 fuel, node_collection hblock (r := Outline.entryTokens os.1 ++ .blockEnd :: r)
    (by rw [hs]; simp) hfree]
  show (blockEntries defaultHandles fuel
    (s.entered anchor (Outline.entryTokens os.1 ++ .blockEnd :: r)) >>= _) = _
  rw [hread]
  rfl

/-! ## Shared values -/

theorem ReadsCollection.node {v : Value} (h : ReadsCollection env labels v) :
    ReadsNode env labels v := by
  intro inMapping indent fresh s pending inside drawn r fuel o hs hknown hsizes hstops hfuel
  obtain ⟨n, s', hnode, hgives, -⟩ := h inMapping indent fresh s none pending inside drawn r fuel hs
    (by simp) hknown.below (hknown.enter []) hsizes hstops hfuel
  have hgrows : s.Grows (s.entered none []) := .of_eq (Nat.le_succ _) rfl rfl
  exact ⟨n, s', hnode, hgives.rest, hgrows.trans hgives.grows, hgives.known, hgives.means⟩

/-- A value drawn before is read by an alias. -/
theorem reads_again {l : Nat} {name : String} {w : Value} {r : List Token} {fuel : Nat}
    {context : NodeContext} (hname : anchorName labels l = some name) (hlookup : drawn.lookup l = some w)
    (hpending : l ∉ pending) (hs : s.tokens = .alias name :: r)
    (hknown : Known labels pending s inside drawn) (hfuel : 0 < fuel) :
    ∃ n s', node defaultHandles fuel context s = .ok (n, s') ∧
      Gives labels pending s inside n s' r drawn w := by
  obtain ⟨fuel, rfl⟩ := Nat.exists_eq_succ_of_ne_zero (Nat.ne_of_gt hfuel)
  obtain ⟨name', id, hname', hid, hmeans⟩ := hknown.known l w hlookup
  obtain rfl : name = name' := Option.some.inj (hname.symm.trans hname')
  have hgrows : s.Grows { s with tokens := r } := .of_eq (Nat.le_refl _) rfl rfl
  exact ⟨_, _, node_alias hs hid, rfl, hgrows, hknown.behind hgrows.next rfl rfl,
    hmeans.resolve_left hpending⟩

/-- A collection that is complete is named by its number from there on. -/
theorem Gives.anchored {l : Nat} {name : String} {n : Node} {r : List Token} {v : Value}
    (h : Gives labels (l :: pending) (s.entered (some name) []) inside n s' r drawn v)
    (hname : anchorName labels l = some name) (hfree : s.anchors.lookup name = none)
    (halias : ∀ i, n ≠ .alias i) :
    Gives labels pending s inside n { s' with named := (s.next, n) :: s'.named } r ((l, v) :: drawn) v := by
  have hnumber : (s.entered (some name) []).anchors.lookup name = some s.next := List.lookup_cons_self
  have hnamed : s'.named ⊆ (s.next, n) :: s'.named := fun e he => List.mem_cons_of_mem _ he
  have hmeans : ∀ d, Reading.Holds { s' with named := (s.next, n) :: s'.named } d →
      d.Means s'.next inside n v := fun d hd => h.means d fun e he => hd e (hnamed he)
  refine ⟨h.rest, h.grows.anchored hfree n, ?_, hmeans⟩
  exact h.known.complete (Nat.le_refl _) hnamed rfl hname (h.grows.anchors _ _ hnumber)
    fun d hd => Document.means_alias (hd _ List.mem_cons_self) halias (hmeans d hd)

/-- A shared value is read as an alias, or as a collection with an anchor, or like one without. -/
theorem readsNode_shared {l : Nat} {v : Value} (hv : env l = v) (h : ReadsCollection env labels v) :
    ReadsNode env labels (.shared l v) := by
  intro inMapping indent fresh s pending inside drawn r fuel o hs hknown hsizes hstops hfuel
  have hsize := Value.shared.sizeOf_spec l v
  have hlabel : sizeOf l = l := rfl
  have hsizes' : ∀ l' ∈ pending, sizeOf v ≤ sizeOf (env l') := fun l' hl' => by
    have := hsizes l' hl'
    omega
  cases hname : anchorName labels l with
  | none =>
    have ho : o = outline labels inMapping indent fresh v drawn := outline_unnamed hname
    rw [ho] at hs hfuel ⊢
    exact h.node inMapping indent fresh s pending inside drawn r fuel hs hknown hsizes' hstops hfuel
  | some name =>
    cases hlookup : drawn.lookup l with
    | some w =>
      have ho : o = (.alias name w, drawn) := outline_again hname hlookup
      have hpending : l ∉ pending := fun hmem => by
        have := hsizes l hmem
        rw [hv] at this
        omega
      rw [ho] at hs hfuel ⊢
      exact reads_again hname hlookup hpending hs hknown (by omega)
    | none =>
      obtain ⟨p, hp⟩ : ∃ p, outline labels inMapping indent false v ((l, .again l) :: drawn) = p :=
        ⟨_, rfl⟩
      have ho : o = (.anchored name p.1, (l, p.1.value) :: p.2) := by
        rw [← hp]
        exact outline_anchored hname hlookup
      rw [ho] at hs hfuel ⊢
      have hfuel : 3 * (p.1.tokens.length + 1) + 2 ≤ fuel := hfuel
      have hfree := hknown.free l name hname hlookup
      obtain ⟨n, s', hnode, hgives, halias⟩ := h inMapping indent false s (some name) (l :: pending)
        inside ((l, .again l) :: drawn) r fuel (by rw [hp]; exact hs)
        (fun name' h => Option.some.inj h ▸ hfree) hknown.below (hknown.anchor hname hlookup _ [])
        (List.forall_mem_cons.mpr ⟨by rw [hv], hsizes'⟩) hstops (by rw [hp]; omega)
      rw [hp] at hgives
      exact ⟨n, _, hnode, hgives.anchored hname hfree halias⟩

/-! ## All values -/

mutual

/-- From the outline of a value that JSON can hold a node is read that means its value, and if it is a
collection, then also behind an anchor. -/
theorem reads_value (labels : List Nat) : ∀ v : Value, v.isReadable → v.LabelledBy env →
    ReadsNode env labels v ∧ (v.isCollection → ReadsCollection env labels v)
  | .null, h, _ => ⟨readsNode_atom rfl h, nofun⟩
  | .bool _, h, _ => ⟨readsNode_atom rfl h, nofun⟩
  | .int _, h, _ => ⟨readsNode_atom rfl h, nofun⟩
  | .float _, h, _ => ⟨readsNode_atom rfl h, nofun⟩
  | .text u, _, _ => ⟨readsNode_text u, nofun⟩
  | .list [], _, _ => ⟨readsCollection_nil.node, fun _ => readsCollection_nil⟩
  | .list (x :: xs), h, hl => by
    obtain ⟨hx, hxs⟩ := Bool.and_eq_true_iff.mp h
    have hlist := readsCollection_list (reads_value labels x hx hl.1).1
      (reads_items labels xs hxs hl.2)
    exact ⟨hlist.node, fun _ => hlist⟩
  | .map [], _, _ => ⟨readsCollection_empty.node, fun _ => readsCollection_empty⟩
  | .map ((k, v) :: es), h, hl => by
    obtain ⟨hv, hes⟩ := Bool.and_eq_true_iff.mp (Bool.and_eq_true_iff.mp h).2
    have hmap := readsCollection_map k (reads_value labels v hv hl.2.1).1
      (reads_entries labels es hes hl.2.2)
    exact ⟨hmap.node, fun _ => hmap⟩
  | .shared _ v, h, hl =>
    ⟨readsNode_shared hl.1 ((reads_value labels v h hl.2.2).2 hl.2.1), nofun⟩

/-- From the outlines of items nodes are read that mean their values. -/
theorem reads_items (labels : List Nat) : ∀ xs : List Value,
    Value.allItems Json.hasReading Json.areNames xs → Value.LabelledByItems env xs →
      ReadsItems env labels xs
  | [], _, _ => readsItems_nil
  | x :: xs, h, hl => by
    obtain ⟨hx, hxs⟩ := Bool.and_eq_true_iff.mp h
    exact readsItems_cons (reads_value labels x hx hl.1).1 (reads_items labels xs hxs hl.2)

/-- From the outlines of entries nodes are read that mean their keys and values. -/
theorem reads_entries (labels : List Nat) : ∀ es : List (Value × Value),
    Value.allEntries Json.hasReading Json.areNames es → Value.LabelledByEntries env es →
      ReadsEntries env labels es
  | [], _, _ => readsEntries_nil
  | (k, v) :: es, h, hl => by
    obtain ⟨hv, hes⟩ := Bool.and_eq_true_iff.mp h
    exact readsEntries_cons k (reads_value labels v hv hl.2.1).1 (reads_entries labels es hes hl.2.2)

end

end Yaml

end GraphPaths
