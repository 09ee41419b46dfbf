import GraphPaths.Proofs.Value.Alike
import GraphPaths.Proofs.Yaml.Drawing

/-!
# The value of an outline

The outline of a value has the value itself, labels aside, just if each text in it is read back as it
was (`value_layout_iff`): a key that is read as another text changes a mapping also where it meets
another key, and an alias has the value that was drawn at its anchor.
-/

namespace GraphPaths

namespace Yaml

variable {env : Nat → Value} {labels pending : List Nat} {drawn : Drawn}

/-- What is read for a label is the value that it stands for, unless that is being drawn. -/
def Recalls (env : Nat → Value) (pending : List Nat) (drawn : Drawn) : Prop :=
  ∀ l w, drawn.lookup l = some w → l ∈ pending ∨ w = (env l).plain

/-- A label is recalled if its value is read. -/
theorem Recalls.put {l : Nat} {w : Value} (h : Recalls env (l :: pending) drawn)
    (hw : w = (env l).plain) : Recalls env pending ((l, w) :: drawn) := by
  intro k x hk
  by_cases hne : k = l
  · subst hne
    rw [List.lookup_cons_self] at hk
    exact .inr (Option.some.inj hk ▸ hw)
  · rw [lookup_cons_of_ne hne] at hk
    exact (h k x hk).imp_left fun hmem => (List.mem_cons.mp hmem).resolve_left hne

/-- A label is pending while its value is drawn. -/
theorem Recalls.enter (h : Recalls env pending drawn) (l : Nat) (w : Value) :
    Recalls env (l :: pending) ((l, w) :: drawn) := by
  intro k x hk
  by_cases hne : k = l
  · exact .inl (hne ▸ List.mem_cons_self)
  · rw [lookup_cons_of_ne hne] at hk
    exact (h k x hk).imp_left (List.mem_cons_of_mem l)

/-- The outline of a value has the value if all its texts are read back, and labels are then recalled
further on. -/
def Recovers (env : Nat → Value) (labels : List Nat) (v : Value) : Prop :=
  ∀ (inMapping : Bool) (indent : Option Nat) (fresh : Bool) (pending : List Nat) (drawn : Drawn),
    (∀ l ∈ pending, sizeOf v ≤ sizeOf (env l)) → Recalls env pending drawn →
    let o := outline labels inMapping indent fresh v drawn
    (o.1.value = v.plain ↔ ∀ s ∈ o.1.sites, s.sound) ∧
      (o.1.value = v.plain → Recalls env pending o.2)

theorem recovers_text (u : String) : Recovers env labels (.text u) := by
  intro inMapping indent fresh pending drawn _ hdrawn
  refine ⟨?_, fun _ => hdrawn⟩
  show Value.text (Site.readBack _) = .text u ↔ ∀ s ∈ [_], Site.sound s
  rw [List.forall_mem_singleton, ← Site.readBack_eq_iff, Value.text.injEq]

/-- A value that is no text and has no parts stands for itself. -/
theorem recovers_atom {v : Value}
    (houtline : ∀ inMapping indent fresh drawn,
      outline labels inMapping indent fresh v drawn = (.atom v, drawn))
    (hplain : v.plain = v) : Recovers env labels v := by
  intro inMapping indent fresh pending drawn _ hdrawn
  simp only [houtline, hplain, Outline.value, Outline.sites]
  exact ⟨by simp, fun _ => hdrawn⟩

theorem recovers_shared {l : Nat} {v : Value} (hl : env l = v) (h : Recovers env labels v) :
    Recovers env labels (.shared l v) := by
  intro inMapping indent fresh pending drawn hsizes hdrawn
  have hsize := Value.shared.sizeOf_spec l v
  have hinside : ∀ k ∈ pending, sizeOf v ≤ sizeOf (env k) := fun k hk => by
    have := hsizes k hk
    omega
  show let o := outline labels inMapping indent fresh (.shared l v) drawn
    (o.1.value = v.plain ↔ _) ∧ (o.1.value = v.plain → _)
  cases hname : anchorName labels l with
  | none =>
    rw [outline_unnamed hname]
    exact h inMapping indent fresh pending drawn hinside hdrawn
  | some name =>
    cases hlookup : drawn.lookup l with
    | some w =>
      -- nothing that is being drawn contains itself
      have hpending : l ∉ pending := fun hmem => by
        have := hsizes l hmem
        rw [hl, hsize] at this
        omega
      have hw : w = v.plain := hl ▸ (hdrawn l w hlookup).resolve_left hpending
      rw [outline_again hname hlookup]
      exact ⟨⟨fun _ => nofun, fun _ => hw⟩, fun _ => hdrawn⟩
    | none =>
      obtain ⟨hvalue, hrecalls⟩ := h inMapping indent false (l :: pending) _
        (List.forall_mem_cons.mpr ⟨by rw [hl], hinside⟩) (hdrawn.enter l (.again l))
      rw [outline_anchored hname hlookup]
      exact ⟨hvalue, fun hplain => (hrecalls hplain).put (hl ▸ hplain)⟩

/-! ## Lists -/

/-- The outlines of items have the items if all their texts are read back. -/
def RecoversItems (env : Nat → Value) (labels : List Nat) (xs : List Value) : Prop :=
  ∀ (indent : Nat) (pending : List Nat) (drawn : Drawn),
    (∀ l ∈ pending, sizeOf xs ≤ sizeOf (env l)) → Recalls env pending drawn →
    let os := outlineItems labels indent xs drawn
    (Outline.values os.1 = Value.plainItems xs ↔ ∀ s ∈ Outline.itemSites os.1, s.sound) ∧
      (Outline.values os.1 = Value.plainItems xs → Recalls env pending os.2)

theorem recoversItems_cons {x : Value} {xs : List Value} (hx : Recovers env labels x)
    (hxs : RecoversItems env labels xs) : RecoversItems env labels (x :: xs) := by
  intro indent pending drawn hsizes hdrawn
  have hsize : sizeOf (x :: xs) = 1 + sizeOf x + sizeOf xs := rfl
  obtain ⟨hvalue, hrecalls⟩ := hx false (some indent) true pending drawn
    (fun l hl => by have := hsizes l hl; omega) hdrawn
  obtain ⟨o, ho⟩ : ∃ o, outline labels false (some indent) true x drawn = o := ⟨_, rfl⟩
  obtain ⟨os, hos⟩ : ∃ os, outlineItems labels indent xs o.2 = os := ⟨_, rfl⟩
  rw [ho] at hvalue hrecalls
  have hrest : Recalls env pending o.2 → _ := hxs indent pending o.2
    (fun l hl => by have := hsizes l hl; omega)
  rw [hos] at hrest
  have houtline : outlineItems labels indent (x :: xs) drawn = (o.1 :: os.1, os.2) := by
    rw [outlineItems, ho, ← hos]
  rw [houtline]
  show (o.1.value :: Outline.values os.1 = x.plain :: Value.plainItems xs ↔
    ∀ s ∈ o.1.sites ++ Outline.itemSites os.1, s.sound) ∧ (_ :: _ = _ :: _ → _)
  rw [List.cons.injEq, List.forall_mem_append]
  refine ⟨⟨fun h => ⟨hvalue.mp h.1, (hrest (hrecalls h.1)).1.mp h.2⟩, fun h => ?_⟩,
    fun h => (hrest (hrecalls h.1)).2 h.2⟩
  have hfirst := hvalue.mpr h.1
  exact ⟨hfirst, (hrest (hrecalls hfirst)).1.mpr h.2⟩

theorem recovers_list {xs : List Value} (h : RecoversItems env labels xs) :
    Recovers env labels (.list xs) := by
  intro inMapping indent fresh pending drawn hsizes hdrawn
  have hsize := Value.list.sizeOf_spec xs
  obtain ⟨hvalue, hrecalls⟩ := h (inner indent (inMapping && !fresh)) pending drawn
    (fun l hl => by have := hsizes l hl; omega) hdrawn
  show (Value.list _ = .list _ ↔ _) ∧ (Value.list _ = .list _ → _)
  rw [Value.list.injEq]
  exact ⟨hvalue, hrecalls⟩

/-! ## Mappings -/

/-- The outlines of entries have the entries if all their texts are read back. -/
def RecoversEntries (env : Nat → Value) (labels : List Nat) (es : List (Value × Value)) : Prop :=
  ∀ (indent : Nat) (pending : List Nat) (drawn : Drawn),
    (∀ l ∈ pending, sizeOf es ≤ sizeOf (env l)) → Recalls env pending drawn →
    let os := outlineEntries labels indent es drawn
    (Outline.entryValues os.1 = Value.plainEntries es ↔ ∀ s ∈ Outline.entrySites os.1, s.sound) ∧
      (Outline.entryValues os.1 = Value.plainEntries es → Recalls env pending os.2)

theorem recoversEntries_cons (u : String) {v : Value} {es : List (Value × Value)}
    (hv : Recovers env labels v) (hes : RecoversEntries env labels es) :
    RecoversEntries env labels ((.text u, v) :: es) := by
  intro indent pending drawn hsizes hdrawn
  have hsize : sizeOf ((Value.text u, v) :: es) = 1 + (1 + sizeOf (Value.text u) + sizeOf v) + sizeOf es :=
    rfl
  obtain ⟨site, hsite⟩ : ∃ site : Site, site = ⟨u, indent + 2, isSimpleText u⟩ := ⟨_, rfl⟩
  have hkey : site.readBack = u ↔ site.sound := by
    rw [← Site.readBack_eq_iff, hsite]
  obtain ⟨hvalue, hrecalls⟩ := hv true (some indent) (!isSimpleText u) pending drawn
    (fun l hl => by have := hsizes l hl; omega) hdrawn
  obtain ⟨o, ho⟩ : ∃ o, outline labels true (some indent) (!isSimpleText u) v drawn = o := ⟨_, rfl⟩
  obtain ⟨os, hos⟩ : ∃ os, outlineEntries labels indent es o.2 = os := ⟨_, rfl⟩
  rw [ho] at hvalue hrecalls
  have hrest : Recalls env pending o.2 → _ := hes indent pending o.2
    (fun l hl => by have := hsizes l hl; omega)
  rw [hos] at hrest
  have houtline : outlineEntries labels indent ((.text u, v) :: es) drawn =
      ((site, o.1) :: os.1, os.2) := by
    rw [← hos, ← ho, hsite]
    rfl
  rw [houtline]
  have hcons : ((Value.text site.readBack, o.1.value) :: Outline.entryValues os.1 =
      (.text u, v.plain) :: Value.plainEntries es) ↔ (site.sound ∧ o.1.value = v.plain) ∧
        Outline.entryValues os.1 = Value.plainEntries es := by
    rw [List.cons.injEq, Prod.mk.injEq, Value.text.injEq, hkey]
  show ((Value.text site.readBack, o.1.value) :: Outline.entryValues os.1 =
      (.text u, v.plain) :: Value.plainEntries es ↔
        ∀ s ∈ site :: (o.1.sites ++ Outline.entrySites os.1), s.sound) ∧
    ((Value.text site.readBack, o.1.value) :: Outline.entryValues os.1 =
      (.text u, v.plain) :: Value.plainEntries es → Recalls env pending os.2)
  rw [hcons, List.forall_mem_cons, List.forall_mem_append]
  refine ⟨⟨fun h => ⟨h.1.1, hvalue.mp h.1.2, (hrest (hrecalls h.1.2)).1.mp h.2⟩, fun h => ?_⟩,
    fun h => (hrest (hrecalls h.1.2)).2 h.2⟩
  have hfirst := hvalue.mpr h.2.1
  exact ⟨⟨h.1, hfirst⟩, (hrest (hrecalls hfirst)).1.mpr h.2.2⟩

theorem length_outlineEntries : ∀ (es : List (Value × Value)) (indent : Nat) (drawn : Drawn),
    (outlineEntries labels indent es drawn).1.length = es.length
  | [], _, _ => rfl
  | (_, _) :: es, indent, _ => congrArg (· + 1) (length_outlineEntries es indent _)

/-- Entries that are put into a mapping without loss stay as they are. -/
theorem ofEntries_entryValues_iff {os : List (Site × Outline)} {fields : List (String × Value)}
    (hlength : os.length = fields.length) (hnames : (fields.map Prod.fst).Nodup) :
    Value.ofEntries (Outline.entryValues os) = Value.texts fields ↔
      Outline.entryValues os = Value.texts fields := by
  constructor
  · intro h
    rw [Outline.entryValues_eq] at h ⊢
    have hcount : (Value.ofFields (Outline.fields os)).length = (Outline.fields os).length := by
      rw [Value.ofEntries_texts] at h
      have := congrArg List.length h
      simpa [Value.texts, Outline.fields, hlength] using this
    have hsame : Value.ofEntries (Value.texts (Outline.fields os)) = _ :=
      Value.ofEntries_of_nodup (Value.nodup_of_length_ofFields hcount)
    exact hsame.symm.trans h
  · intro h
    rw [h]
    exact Value.ofEntries_of_nodup hnames

theorem recovers_map {es : List (Value × Value)} (hreadable : (Value.map es).isReadable)
    (h : RecoversEntries env labels es) : Recovers env labels (.map es) := by
  intro inMapping indent fresh pending drawn hsizes hdrawn
  have hsize := Value.map.sizeOf_spec es
  obtain ⟨hvalue, hrecalls⟩ := h (inner indent false) pending drawn
    (fun l hl => by have := hsizes l hl; omega) hdrawn
  obtain ⟨names, hnodup, hnames⟩ := Json.areNames_iff.mp (Bool.and_eq_true_iff.mp hreadable).1
  obtain ⟨fields, hfields, rfl⟩ := Json.exists_fields_plainEntries hnames
  have hplain : Value.plainEntries es = Value.texts fields := Value.map.inj hfields
  have hlength : (outlineEntries labels (inner indent false) es drawn).1.length = fields.length := by
    rw [length_outlineEntries]
    have := congrArg List.length hplain
    simpa [Value.plainEntries_eq_map, Value.texts] using this
  show (Value.map (Value.ofEntries _) = .map _ ↔ _) ∧ (Value.map (Value.ofEntries _) = .map _ → _)
  rw [Value.map.injEq]
  rw [hplain] at hvalue hrecalls ⊢
  rw [ofEntries_entryValues_iff hlength hnodup]
  exact ⟨hvalue, hrecalls⟩

mutual

/-- Each value that JSON can hold is recovered from its outline if all its texts are read back. -/
theorem recovers_value (labels : List Nat) : ∀ v : Value, v.isReadable → v.LabelledBy env →
    Recovers env labels v
  | .null, _, _ | .bool _, _, _ | .int _, _, _ | .float _, _, _ | .date _, _, _ | .moment _, _, _
  | .bytes _, _, _ | .again _, _, _ => recovers_atom (fun _ _ _ _ => rfl) rfl
  | .text u, _, _ => recovers_text u
  | .list xs, h, hl => recovers_list (recovers_items labels xs h hl)
  | .map es, h, hl => recovers_map h
    (recovers_entries labels es (textKeys_of_isReadable h hl) (Bool.and_eq_true_iff.mp h).2 hl)
  | .shared _ v, h, hl => recovers_shared hl.1 (recovers_value labels v h hl.2.2)

/-- So it is with items. -/
theorem recovers_items (labels : List Nat) : ∀ xs : List Value,
    Value.allItems Json.hasReading Json.areNames xs → Value.LabelledByItems env xs →
      RecoversItems env labels xs
  | [], _, _ => fun _ _ _ _ hdrawn => ⟨⟨fun _ => nofun, fun _ => rfl⟩, fun _ => hdrawn⟩
  | x :: xs, h, hl => by
    obtain ⟨hx, hxs⟩ := Bool.and_eq_true_iff.mp h
    exact recoversItems_cons (recovers_value labels x hx hl.1) (recovers_items labels xs hxs hl.2)

/-- So it is with entries. -/
theorem recovers_entries (labels : List Nat) : ∀ es : List (Value × Value),
    (∀ k ∈ es.map Prod.fst, ∃ u, k = .text u) →
      Value.allEntries Json.hasReading Json.areNames es → Value.LabelledByEntries env es →
        RecoversEntries env labels es
  | [], _, _, _ => fun _ _ _ _ hdrawn => ⟨⟨fun _ => nofun, fun _ => rfl⟩, fun _ => hdrawn⟩
  | (k, v) :: es, hkeys, h, hl => by
    obtain ⟨⟨u, rfl⟩, hrest⟩ := List.forall_mem_cons.mp hkeys
    obtain ⟨hv, hes⟩ := Bool.and_eq_true_iff.mp h
    exact recoversEntries_cons u (recovers_value labels v hv hl.2.1)
      (recovers_entries labels es hrest hes hl.2.2)

end

/-- The layout of a value has the value just if all its texts are read back. -/
theorem value_layout_iff {v : Value} (hv : v.isReadable) (hl : v.LabelledBy env) :
    (layout v).value = v.plain ↔ ∀ s ∈ (layout v).sites, s.sound :=
  (recovers_value (anchors v) v hv hl false none true [] [] nofun nofun).1

end Yaml

end GraphPaths
