import GraphPaths.Proofs.Json.Reading
import GraphPaths.Proofs.Value.Sharing
import GraphPaths.Proofs.Yaml.Atom
import GraphPaths.Proofs.Yaml.Blocks

/-!
# The text of a value is the text of its outline

What the pen draws for a value that JSON can hold, the lexer takes for the tokens of the outline of the
value, or it breaks at a key that does not fit (`writeNode_tells`).
-/

namespace GraphPaths

namespace Yaml

variable {env : Nat → Value} {labels : List Nat} {n : Nat}

/-- The labels of what is drawn are known alike. -/
structure Agrees (labels done : List Nat) (drawn : Drawn) : Prop where
  same : ∀ l, done.contains l = (drawn.lookup l).isSome
  named : ∀ l ∈ done, (anchorName labels l).isSome

/-- One more label is known alike where it is drawn. -/
theorem Agrees.put {done : List Nat} {drawn : Drawn} (h : Agrees labels done drawn) {l : Nat}
    (hl : l ∈ done) (w : Value) : Agrees labels done ((l, w) :: drawn) where
  same k := by
    by_cases hk : k = l
    · rw [hk, List.lookup_cons_self, List.contains_iff_mem.mpr hl]
      rfl
    · rw [lookup_cons_of_ne hk, h.same]
  named := h.named

/-- A label that is drawn now is known alike. -/
theorem Agrees.enter {done : List Nat} {drawn : Drawn} (h : Agrees labels done drawn) {l : Nat}
    (hl : (anchorName labels l).isSome) (w : Value) :
    Agrees labels (l :: done) ((l, w) :: drawn) where
  same k := by
    by_cases hk : k = l
    · rw [hk, List.lookup_cons_self, List.contains_iff_mem.mpr List.mem_cons_self]
      rfl
    · rw [lookup_cons_of_ne hk, ← h.same, List.contains_cons, beq_eq_false_iff_ne.mpr hk, Bool.false_or]
  named k hk := (List.mem_cons.mp hk).elim (fun h => h ▸ hl) (h.named k)

/-- The name of an anchor consists of letters and digits. -/
theorem isName_anchorName {l : Nat} {name : String} (h : anchorName labels l = some name) :
    IsName name.toList := by
  unfold anchorName at h
  obtain ⟨i, -, rfl⟩ := Option.map_eq_some_iff.mp h
  rw [String.toList_append]
  refine ⟨by simp, fun x hx => ?_⟩
  rcases List.mem_append.mp hx with hx | hx
  · have hall : "id".toList.all isNameChar := by decide
    exact List.all_eq_true.mp hall x hx
  · rw [Text.decimalPadded, String.toList_ofList] at hx
    have hdigit : x.isDigit := by
      rcases List.mem_append.mp hx with hx | hx
      · rw [List.eq_of_mem_replicate hx]
        decide
      · exact Nat.isDigit_of_mem_toDigits (by decide) (by decide) hx
    simp only [Char.isDigit, Bool.and_eq_true, decide_eq_true_eq] at hdigit
    have hrange : '0' ≤ x ∧ x ≤ '9' := hdigit
    simp [isNameChar, hrange]

/-- From one progress to another a text is drawn for an outline, after which `drawn` is drawn. -/
structure Drawing (labels : List Nat) (n : Nat) (s : Progress) (t : List Char) (s' : Progress)
    (whole : Bool) (ts : List Token) (drawn : Drawn) : Prop where
  tells : Tells n s.pen t s'.pen whole ts
  agrees : Agrees labels s'.done drawn
  kept : s.done ⊆ s'.done

/-- A node is drawn as its outline. -/
def DrawsNode (labels : List Nat) (v : Value) : Prop :=
  ∀ (place : Place) (n : Nat) (s : Progress) (drawn : Drawn), place.root = false → place.key = false →
    Behind n s.pen → Agrees labels s.done drawn →
    let o := outline labels place.inMapping (some n) s.pen.fresh v drawn
    ∃ s' t, writeNode labels place (some n) v s = .ok s' ∧ Parted t ∧
      Drawing labels n s t s' o.1.fits o.1.tokens o.2

theorem drawsNode_text (u : String) : DrawsNode labels (.text u) := by
  intro place n s drawn hroot hkey hp hagrees
  obtain ⟨t, hdraws, hsite, hsettled⟩ := writeScalar_draws ⟨u, n + 2, false⟩
    (fun h => absurd h Bool.false_ne_true) place hroot hkey (by show 0 < n + 2; omega) s.pen
    (fun _ => by have := hp.deep; show n + 2 ≤ _; omega)
  exact ⟨_, _, rfl, .inl rfl,
    tells_text hsite rfl (by show n < n + 2; omega) hp hdraws (hsettled hp.closed),
    hagrees,
    List.Subset.refl _⟩

theorem drawsNode_atom {v : Value} (hv : v.isAtom) (h : Json.hasReading v) :
    DrawsNode labels v := by
  obtain ⟨scalar, h⟩ := exists_plainAtom h hv
  intro place n s drawn hroot hkey hp hagrees
  have hwrite : writeNode labels place (some n) v s =
      .ok (s.draw (writeScalar place (n + 2) scalar)) := by
    have hscalar : writeNode labels place (some n) v s =
        (scalarOf v).map fun scalar => s.draw (writeScalar place (n + 2) scalar) := by
      cases v <;> first | rfl | cases hv
    rw [hscalar, h.written]
    rfl
  have houtline : outline labels place.inMapping (some n) s.pen.fresh v drawn = (.atom v, drawn) := by
    cases v <;> first | rfl | cases hv
  have htext : Outline.atomText v = scalar.text := by
    rw [Outline.atomText, h.written]
  have hbare : (implicitKind scalar.text.toList == scalar.kind) = true := by
    rw [h.implicit]
    exact beq_self_eq_true _
  have hstyle : styleOf true (scalar.kind == .binary) false (Traits.of scalar.text.toList) =
      .plain := by
    rw [beq_eq_false_iff_ne.mpr h.kind.2, styleOf]
    simp [h.plain]
  have hplain : writeScalar place (n + 2) scalar s.pen =
      writePlain s.pen false (n + 2) true scalar.text.toList := by
    unfold writeScalar
    simp only [hbare, hkey, hstyle, hroot]
    rfl
  obtain ⟨t, hdraws, htext', -⟩ := writePlain_draws (n + 2) true s.pen h.ne_nil h.plain
  have htells := tells_plain h.ne_nil h.plain htext' (by omega) hp hdraws
    (settled_writePlain (n + 2) true hp.closed h.ne_nil)
  rw [String.ofList_toList] at htells
  refine ⟨_, ' ' :: t, hwrite, .inl rfl, ?_, ?_, List.Subset.refl _⟩
  · rw [houtline]
    show Tells n s.pen (' ' :: t) (writeScalar place (n + 2) scalar s.pen) _ _
    rw [hplain]
    show Tells n s.pen _ _ true [.scalar (Outline.atomText v) true]
    rw [htext]
    exact htells
  · rw [houtline]
    exact hagrees

theorem drawsNode_shared {l : Nat} {v : Value} (h : DrawsNode labels v) :
    DrawsNode labels (.shared l v) := by
  intro place n s drawn hroot hkey hp hagrees
  have hwrite : writeNode labels place (some n) (.shared l v) s =
      if s.done.contains l then .ok (s.enter labels l)
      else writeNode labels place (some n) v (s.enter labels l) := rfl
  cases hname : anchorName labels l with
  | none =>
    have hcontains : s.done.contains l = false := by
      rw [← Bool.not_eq_true, List.contains_iff_mem]
      intro hmem
      have := hagrees.named l hmem
      rw [hname] at this
      contradiction
    have henter : s.enter labels l = s := by rw [Progress.enter, hname]
    rw [hwrite, hcontains, henter, outline_unnamed hname]
    exact h place n s drawn hroot hkey hp hagrees
  | some name =>
    have hletters := isName_anchorName hname
    cases hlookup : drawn.lookup l with
    | some w =>
      have hcontains : s.done.contains l = true := by rw [hagrees.same, hlookup]; rfl
      have henter : s.enter labels l = s.draw fun p => p.mark ("*" ++ name) true false := by
        rw [Progress.enter, hname]
        simp only [hcontains, if_true]
      rw [hwrite, hcontains, henter, outline_again hname hlookup]
      exact ⟨_, ' ' :: '*' :: name.toList, rfl, .inl rfl, tells_alias hletters hp, hagrees,
        List.Subset.refl _⟩
    | none =>
      have hcontains : s.done.contains l = false := by rw [hagrees.same, hlookup]; rfl
      generalize hs' : s.enter labels l = entered
      have henter : entered = { pen := s.pen.mark ("&" ++ name) true false, done := l :: s.done } := by
        rw [← hs', Progress.enter, hname]
        simp only [hcontains, Bool.false_eq_true, if_false]
        rfl
      have hfresh : entered.pen.fresh = false := by rw [henter]; exact Bool.and_false _
      have hentered : Agrees labels entered.done ((l, .again l) :: drawn) := by
        rw [henter]
        exact hagrees.enter (by rw [hname]; rfl) _
      obtain ⟨s'', t, hnode, hparted, hdrawing⟩ := h place n entered ((l, .again l) :: drawn) hroot hkey
        (by rw [henter]; exact behind_mark hp) hentered
      rw [hfresh] at hdrawing
      rw [hwrite, hcontains, hs', outline_anchored hname hlookup]
      refine ⟨_, ' ' :: '&' :: (name.toList ++ t), hnode, .inl rfl, tells_anchor hletters hp hparted ?_,
        ?_, ?_⟩
      · have := hdrawing.tells
        rw [henter] at this
        exact this
      · exact hdrawing.agrees.put (hdrawing.kept (by rw [henter]; exact List.mem_cons_self)) _
      · exact fun k hk => hdrawing.kept (by rw [henter]; exact List.mem_cons_of_mem l hk)

/-! ## Lists -/

/-- Items are drawn as their outlines, each in a new line. -/
def DrawsItems (labels : List Nat) (xs : List Value) : Prop :=
  ∀ (n : Nat) (s : Progress) (drawn : Drawn), Settled s.pen →
    Agrees labels s.done drawn →
    let os := outlineItems labels n xs drawn
    ∃ s' t, writeItems labels n xs s = .ok s' ∧ Lined n t ∧ (xs ≠ [] → Parted t) ∧
      Drawing labels n s t s' ((Outline.itemSites os.1).all Site.fits) (Outline.itemTokens os.1) os.2

theorem drawsItems_nil : DrawsItems labels [] :=
  fun n s _ hs hagrees => ⟨s, [], rfl, lined_nil n, fun h => absurd rfl h, .refl n hs, hagrees,
    List.Subset.refl _⟩

/-- An item in its line. -/
theorem draws_item {x : Value} (hx : DrawsNode labels x) {s : Progress} {drawn : Drawn}
    (hs : AtLine n s.pen) (hagrees : Agrees labels s.done drawn) :
    let o := outline labels false (some n) true x drawn
    ∃ s' w, writeNode labels ⟨false, false, false⟩ (some n) x (s.draw fun p => p.mark "-" true true) =
        .ok s' ∧
      Element n .blockSequenceStart s.pen w s'.pen o.1.fits (.blockEntry :: o.1.tokens) ∧
      Agrees labels s'.done o.2 ∧ s.done ⊆ s'.done := by
  have hfresh : (s.draw fun p => p.mark "-" true true).pen.fresh = true := by
    show (s.pen.fresh && true) = true
    rw [hs.fresh]
    rfl
  obtain ⟨s', t, hwrite, hparted, hdrawing⟩ := hx ⟨false, false, false⟩ n
    (s.draw fun p => p.mark "-" true true) drawn rfl rfl (behind_of_atLine hs _ rfl) hagrees
  rw [hfresh] at hdrawing
  exact ⟨s', _, hwrite, element_item hs hparted hdrawing.tells, hdrawing.agrees, hdrawing.kept⟩

theorem lined_element {start : Token} {p q : Pen} {w : List Char} {whole : Bool} {ts : List Token}
    (h : Element n start p w q whole ts) (u : List Char) : Lined n (newLine n ++ w ++ u) := by
  intro k r hk hr
  exact ⟨n, w ++ (u ++ (newLine k ++ r)), by simp only [List.append_assoc], Nat.le_refl n, h.follows _⟩

theorem drawsItems_cons {x : Value} {xs : List Value} (hx : DrawsNode labels x)
    (hxs : DrawsItems labels xs) : DrawsItems labels (x :: xs) := by
  intro n s drawn hs hagrees
  obtain ⟨s₁, w, hwrite, helement, hagrees₁, hkept₁⟩ := draws_item hx
    (s := s.draw fun p => p.indent n) (atLine_indent n hs.fresh) hagrees
  obtain ⟨s₂, u, hrest, hlined, -, htells, hagrees₂, hkept₂⟩ := hxs n s₁ _ helement.settled hagrees₁
  refine ⟨s₂, newLine n ++ w ++ u, ?_, lined_element helement u, fun _ => .inr rfl, ?_, hagrees₂,
    fun l hl => hkept₂ (hkept₁ hl)⟩
  · have hcons : writeItems labels n (x :: xs) s = writeNode labels ⟨false, false, false⟩ (some n) x
        ((s.draw fun p => p.indent n).draw fun p => p.mark "-" true true) >>= writeItems labels n xs := rfl
    rw [hcons, hwrite]
    exact hrest
  · have := (helement.next hs.fresh).trans hlined htells
    rw [Outline.fits, ← List.all_append] at this
    exact this

/-- A list of at least one item. -/
theorem drawsNode_list {x : Value} {xs : List Value} (hx : DrawsNode labels x)
    (hxs : DrawsItems labels xs) : DrawsNode labels (.list (x :: xs)) := by
  intro place n s drawn hroot hkey hp hagrees
  cases hloose : place.inMapping && !s.pen.fresh with
  | true =>
    simp only [Bool.and_eq_true, Bool.not_eq_true'] at hloose
    obtain ⟨s', t, hwrite, -, hparted, hdrawing⟩ := drawsItems_cons hx hxs n s drawn
      ⟨hloose.2, hp.spaced, hp.closed⟩ hagrees
    refine ⟨s', t, ?_, hparted (by simp), ?_⟩
    · rw [writeNode, hloose.1, hloose.2]
      exact hwrite
    · rw [outline, hloose.1, hloose.2]
      exact hdrawing
  | false =>
    obtain ⟨hstart, hline⟩ := draws_blockStart hp
    obtain ⟨s₁, w, hwrite, helement, hagrees₁, hkept₁⟩ := draws_item hx
      (s := s.draw fun p => p.indent (n + 2)) hline hagrees
    obtain ⟨s₂, u, hrest, hlined, -, htells, hagrees₂, hkept₂⟩ := hxs (n + 2) s₁ _ helement.settled
      hagrees₁
    refine ⟨s₂, blockStart s.pen (n + 2) ++ (w ++ u), ?_, parted_blockStart _ _ _, ?_⟩
    · have hcons : writeNode labels place (some n) (.list (x :: xs)) s =
          writeItems labels (inner (some n) (place.inMapping && !s.pen.fresh)) (x :: xs) s := rfl
      have hitems : writeItems labels (n + 2) (x :: xs) s =
          writeNode labels ⟨false, false, false⟩ (some (n + 2)) x
            ((s.draw fun p => p.indent (n + 2)).draw fun p => p.mark "-" true true) >>=
          writeItems labels (n + 2) xs := rfl
      rw [hcons, hloose]
      show writeItems labels (n + 2) (x :: xs) s = _
      rw [hitems, hwrite]
      exact hrest
    · rw [outline, hloose]
      refine ⟨?_, hagrees₂, fun l hl => hkept₂ (hkept₁ hl)⟩
      have := helement.block hp (by simp) hlined htells
      rw [Outline.fits, ← List.all_append] at this
      exact this

/-! ## Mappings -/

/-- Entries are drawn as their outlines, each in a new line. -/
def DrawsEntries (labels : List Nat) (es : List (Value × Value)) : Prop :=
  ∀ (n : Nat) (s : Progress) (drawn : Drawn), Settled s.pen →
    Agrees labels s.done drawn →
    let os := outlineEntries labels n es drawn
    ∃ s' t, writeEntries labels n es s = .ok s' ∧ Lined n t ∧
      Drawing labels n s t s' ((Outline.entrySites os.1).all Site.fits) (Outline.entryTokens os.1) os.2

theorem drawsEntries_nil : DrawsEntries labels [] :=
  fun n s _ hs hagrees => ⟨s, [], rfl, lined_nil n, .refl n hs, hagrees, List.Subset.refl _⟩

/-- The pen behind the colon of a key, which stands in a line of a block of the column `n`. -/
def keyPen (u : String) (n : Nat) (p : Pen) : Pen :=
  if isSimpleText u then (writeScalar ⟨false, true, true⟩ (n + 2) ⟨.text, u⟩ p).mark ":" false false
  else ((writeScalar ⟨false, true, false⟩ (n + 2) ⟨.text, u⟩ (p.mark "?" true true)).indent n).mark ":"
    true true

theorem isSimpleKey_text (done : List Nat) (u : String) :
    isSimpleKey labels done (.text u) = .ok (isSimpleText u) := by
  have htag : ScalarKind.text.tag.length = 5 := by decide
  have hlength : decide ("".length + ScalarKind.text.tag.length + u.length < 128) =
      decide (u.length < 123) := by
    rw [decide_eq_decide, htag, String.length_empty]
    omega
  show Except.ok (decide ("".length + ScalarKind.text.tag.length + u.length < 128) &&
    !(Traits.of u.toList).empty && !(Traits.of u.toList).multiline) = _
  rw [hlength]
  rfl

theorem writeEntries_text (n : Nat) (u : String) (v : Value) (es : List (Value × Value))
    (s : Progress) : writeEntries labels n ((.text u, v) :: es) s =
      writeNode labels ⟨false, true, false⟩ (some n) v (s.draw fun p => keyPen u n (p.indent n)) >>=
        writeEntries labels n es := by
  rw [writeEntries]
  simp only [isSimpleKey_text]
  unfold keyPen
  cases isSimpleText u <;> rfl

/-- An entry is drawn as its outline, in a line that was begun. -/
def DrawsEntry (labels : List Nat) (u : String) (v : Value) : Prop :=
  ∀ (n : Nat) (s : Progress) (drawn : Drawn), AtLine n s.pen → Agrees labels s.done drawn →
    let site : Site := ⟨u, n + 2, isSimpleText u⟩
    let o := outline labels true (some n) (!isSimpleText u) v drawn
    ∃ s' w, writeNode labels ⟨false, true, false⟩ (some n) v (s.draw (keyPen u n)) = .ok s' ∧
      Element n .blockMappingStart s.pen w s'.pen (site.fits && o.1.fits)
        (.key :: .scalar site.readBack (site.style == .plain) :: .value :: o.1.tokens) ∧
      Agrees labels s'.done o.2 ∧ s.done ⊆ s'.done

/-- A key in front of a colon. -/
theorem drawsEntry_simple {u : String} (hsimple : isSimpleText u = true) {v : Value}
    (hv : DrawsNode labels v) : DrawsEntry labels u v := by
  intro n s drawn hs hagrees
  rw [hsimple]
  have hshort : Site.Simple ⟨u, n + 2, true⟩ := by
    simp only [isSimpleText, Bool.and_eq_true, Bool.not_eq_true', decide_eq_true_eq] at hsimple
    exact fun _ => ⟨hsimple.2, hsimple.1.1⟩
  obtain ⟨w, hdraws, hsite, -⟩ := writeScalar_draws ⟨u, n + 2, true⟩ hshort
    ⟨false, true, true⟩ rfl rfl (by show 0 < n + 2; omega) s.pen (by simp)
  rw [lead_of_atLine hs] at hdraws
  generalize hq : writeScalar ⟨false, true, true⟩ (n + 2) ⟨.text, u⟩ s.pen = q at hdraws
  have hpen : s.draw (keyPen u n) = s.draw fun _ => q.mark ":" false false := by
    show { s with pen := keyPen u n s.pen } = { s with pen := q.mark ":" false false }
    rw [keyPen, hsimple, if_pos rfl, hq]
  have hbehind : Behind n (q.mark ":" false false) := by
    have hcolumn : (q.mark ":" false false).column = n + w.length + 1 := by
      rw [(draws_mark_close q ":" (isAscii_of_all (by decide)) false).column, hdraws.column, hs.column,
        List.nil_append, columnAfter_of_line (hsite.line rfl)]
      rfl
    exact ⟨rfl, rfl, by omega, fun h => absurd h (by simp [Pen.mark])⟩
  obtain ⟨s', t, hwrite, hparted, hdrawing⟩ := hv ⟨false, true, false⟩ n
    (s.draw fun _ => q.mark ":" false false) drawn rfl rfl hbehind hagrees
  have hfresh : (s.draw fun _ => q.mark ":" false false).pen.fresh = !true := Bool.and_false _
  rw [hfresh] at hdrawing
  rw [hpen]
  exact ⟨s', _, hwrite, element_simple hs hsite rfl (by show n < n + 2; omega) hdraws hparted
    hdrawing.tells, hdrawing.agrees, hdrawing.kept⟩

/-- A key behind a question mark. -/
theorem drawsEntry_explicit {u : String} (hsimple : isSimpleText u = false) {v : Value}
    (hv : DrawsNode labels v) : DrawsEntry labels u v := by
  intro n s drawn hs hagrees
  rw [hsimple]
  have hbehind := behind_of_atLine hs "?" rfl
  obtain ⟨w, hdraws, hsite, hsettled⟩ := writeScalar_draws ⟨u, n + 2, false⟩
    (fun h => absurd h Bool.false_ne_true) ⟨false, true, false⟩ rfl rfl
    (by show 0 < n + 2; omega) (s.pen.mark "?" true true)
    (fun _ => by have := hbehind.deep; show n + 2 ≤ _; omega)
  have hkeyText := tells_text hsite rfl (by show n < n + 2; omega) hbehind hdraws (hsettled rfl)
  generalize hq : writeScalar ⟨false, true, false⟩ (n + 2) ⟨.text, u⟩ (s.pen.mark "?" true true) = q
    at hkeyText
  have hpen : s.draw (keyPen u n) = s.draw fun _ => (q.indent n).mark ":" true true := by
    show { s with pen := keyPen u n s.pen } = { s with pen := (q.indent n).mark ":" true true }
    rw [keyPen, hsimple, if_neg Bool.false_ne_true, hq]
  have hline := atLine_indent n hkeyText.settled.fresh
  obtain ⟨s', t, hwrite, hparted, hdrawing⟩ := hv ⟨false, true, false⟩ n
    (s.draw fun _ => (q.indent n).mark ":" true true) drawn rfl rfl (behind_of_atLine hline _ rfl)
    hagrees
  have hfresh : (s.draw fun _ => (q.indent n).mark ":" true true).pen.fresh = !false := by
    show ((q.indent n).fresh && true) = true
    rw [hline.fresh]
    rfl
  rw [hfresh] at hdrawing
  rw [hpen]
  exact ⟨s', _, hwrite, element_explicit hs (.inl rfl) hkeyText hparted hdrawing.tells,
    hdrawing.agrees, hdrawing.kept⟩

theorem draws_entry (u : String) {v : Value} (hv : DrawsNode labels v) : DrawsEntry labels u v := by
  cases hsimple : isSimpleText u with
  | true => exact drawsEntry_simple hsimple hv
  | false => exact drawsEntry_explicit hsimple hv

theorem drawsEntries_cons (u : String) {v : Value} {es : List (Value × Value)} (hv : DrawsNode labels v)
    (hes : DrawsEntries labels es) : DrawsEntries labels ((.text u, v) :: es) := by
  intro n s drawn hs hagrees
  obtain ⟨s₁, w, hwrite, helement, hagrees₁, hkept₁⟩ := draws_entry u hv n
    (s.draw fun p => p.indent n) drawn (atLine_indent n hs.fresh) hagrees
  obtain ⟨s₂, t, hrest, hlined, htells, hagrees₂, hkept₂⟩ := hes n s₁ _ helement.settled hagrees₁
  refine ⟨s₂, newLine n ++ w ++ t, ?_, lined_element helement t, ?_, hagrees₂,
    fun l hl => hkept₂ (hkept₁ hl)⟩
  · rw [writeEntries_text]
    show writeNode labels ⟨false, true, false⟩ (some n) v
      ((s.draw fun p => p.indent n).draw (keyPen u n)) >>= writeEntries labels n es = _
    rw [hwrite]
    exact hrest
  · have := (helement.next hs.fresh).trans hlined htells
    rw [Bool.and_assoc, Outline.fits, ← List.all_append] at this
    exact this

/-- A mapping of at least one entry. -/
theorem drawsNode_map (u : String) {v : Value} {es : List (Value × Value)} (hv : DrawsNode labels v)
    (hes : DrawsEntries labels es) : DrawsNode labels (.map ((.text u, v) :: es)) := by
  intro place n s drawn hroot hkey hp hagrees
  obtain ⟨hstart, hline⟩ := draws_blockStart hp
  obtain ⟨s₁, w, hwrite, helement, hagrees₁, hkept₁⟩ := draws_entry u hv (n + 2)
    (s.draw fun p => p.indent (n + 2)) drawn hline hagrees
  obtain ⟨s₂, t, hrest, hlined, htells, hagrees₂, hkept₂⟩ := hes (n + 2) s₁ _ helement.settled hagrees₁
  refine ⟨s₂, blockStart s.pen (n + 2) ++ (w ++ t), ?_, parted_blockStart _ _ _, ?_, hagrees₂,
    fun l hl => hkept₂ (hkept₁ hl)⟩
  · show writeEntries labels (n + 2) ((.text u, v) :: es) s = _
    rw [writeEntries_text]
    show writeNode labels ⟨false, true, false⟩ (some (n + 2)) v
      ((s.draw fun p => p.indent (n + 2)).draw (keyPen u (n + 2))) >>= writeEntries labels (n + 2) es = _
    rw [hwrite]
    exact hrest
  · have := helement.block hp (by simp) hlined htells
    rw [Bool.and_assoc, Outline.fits, ← List.all_append] at this
    exact this

/-! ## All values -/

theorem drawsNode_nil : DrawsNode labels (.list []) := by
  intro place n s drawn _ _ hp hagrees
  have hwrite : writeNode labels place (some n) (.list []) s =
      .ok (s.draw fun p => p.mark "[]" true false) := rfl
  have houtline : outline labels place.inMapping (some n) s.pen.fresh (.list []) drawn =
      (.list (place.inMapping && !s.pen.fresh) [], drawn) := rfl
  rw [hwrite, houtline]
  exact ⟨_, ' ' :: "[]".toList, rfl, .inl rfl, tells_brackets (.inl ⟨rfl, rfl, rfl⟩) hp, hagrees,
    List.Subset.refl _⟩

theorem drawsNode_empty : DrawsNode labels (.map []) := by
  intro place n s drawn _ _ hp hagrees
  have hwrite : writeNode labels place (some n) (.map []) s =
      .ok (s.draw fun p => p.mark "\x7b\x7d" true false) := rfl
  have houtline : outline labels place.inMapping (some n) s.pen.fresh (.map []) drawn =
      (.map [], drawn) := rfl
  rw [hwrite, houtline]
  exact ⟨_, ' ' :: "\x7b\x7d".toList, rfl, .inl rfl, tells_brackets (.inr ⟨rfl, rfl, rfl⟩) hp, hagrees,
    List.Subset.refl _⟩

/-- The keys of a mapping whose keys JSON can hold are texts, if no label stands for one. -/
theorem textKeys_of_isReadable {es : List (Value × Value)} (h : (Value.map es).isReadable)
    (hl : (Value.map es).LabelledBy env) : ∀ k ∈ es.map Prod.fst, ∃ u, k = .text u := by
  obtain ⟨names, -, hnames⟩ := Json.areNames_iff.mp (Bool.and_eq_true_iff.mp h).1
  intro k hk
  have hbare := (Value.labelledBy_map.mp hl).1 k hk
  obtain ⟨e, he, rfl⟩ := List.mem_map.mp hk
  have hmem : e.1.bare ∈ Value.keys es := List.mem_map_of_mem he
  rw [hnames, hbare] at hmem
  obtain ⟨u, -, hu⟩ := List.mem_map.mp hmem
  exact ⟨u, hu.symm⟩

mutual

/-- A value that JSON can hold is drawn as its outline. -/
theorem writeNode_tells (labels : List Nat) : ∀ v : Value, v.isReadable → v.LabelledBy env →
    DrawsNode labels v
  | .null, h, _ => drawsNode_atom rfl h
  | .bool _, h, _ => drawsNode_atom rfl h
  | .int _, h, _ => drawsNode_atom rfl h
  | .float _, h, _ => drawsNode_atom rfl h
  | .text u, _, _ => drawsNode_text u
  | .list [], _, _ => drawsNode_nil
  | .list (x :: xs), h, hl => by
    obtain ⟨hx, hxs⟩ := Bool.and_eq_true_iff.mp h
    exact drawsNode_list (writeNode_tells labels x hx hl.1) (writeItems_tells labels xs hxs hl.2)
  | .map [], _, _ => drawsNode_empty
  | .map ((k, v) :: es), h, hl => by
    obtain ⟨⟨u, rfl⟩, hkeys⟩ := List.forall_mem_cons.mp (textKeys_of_isReadable h hl)
    obtain ⟨hv, hes⟩ := Bool.and_eq_true_iff.mp (Bool.and_eq_true_iff.mp h).2
    exact drawsNode_map u (writeNode_tells labels v hv hl.2.1)
      (writeEntries_tells labels es hkeys hes hl.2.2)
  | .shared _ v, h, hl => drawsNode_shared (writeNode_tells labels v h hl.2.2)

/-- Items that JSON can hold are drawn as their outlines. -/
theorem writeItems_tells (labels : List Nat) : ∀ xs : List Value,
    Value.allItems Json.hasReading Json.areNames xs → Value.LabelledByItems env xs →
      DrawsItems labels xs
  | [], _, _ => drawsItems_nil
  | x :: xs, h, hl => by
    obtain ⟨hx, hxs⟩ := Bool.and_eq_true_iff.mp h
    exact drawsItems_cons (writeNode_tells labels x hx hl.1) (writeItems_tells labels xs hxs hl.2)

/-- Entries that JSON can hold are drawn as their outlines. -/
theorem writeEntries_tells (labels : List Nat) : ∀ es : List (Value × Value),
    (∀ k ∈ es.map Prod.fst, ∃ u, k = .text u) →
      Value.allEntries Json.hasReading Json.areNames es → Value.LabelledByEntries env es →
        DrawsEntries labels es
  | [], _, _, _ => drawsEntries_nil
  | (k, v) :: es, hkeys, h, hl => by
    obtain ⟨⟨u, rfl⟩, hrest⟩ := List.forall_mem_cons.mp hkeys
    obtain ⟨hv, hes⟩ := Bool.and_eq_true_iff.mp h
    exact drawsEntries_cons u (writeNode_tells labels v hv hl.2.1)
      (writeEntries_tells labels es hrest hes hl.2.2)

end

/-! ## The whole text -/

section Text

open Lexer

/-- The end of a text behind its blocks. -/
theorem finish_of_newLine {x : Lexer} {c : Cursor} {toks : List Token} {whole : Bool}
    (h : Lands whole x (outside c toks 0 [-1] true none)) (hc : c.rest = newLine 0 ++ [])
    (fuel : Nat) (hfuel : x.cursor.rest.length < fuel) :
    (whole → x.finish fuel = toks.reverse ++ [.blockEnd, .streamEnd]) ∧
      (whole = false → .streamEnd ∉ x.finish fuel) := by
  refine ⟨fun hwhole => ?_, fun hwhole => ?_⟩
  · subst hwhole
    have hready := ready_newLine toks 0 [-1] true (slack_none c) hc (by simp [Begins])
    rw [unwind_of_le (by omega)] at hready
    have hrest := rest_newLine hc
    have := finish_of_arrives h hready hrest
      (z := outside (c.forward (0 + 1)) (.blockEnd :: toks) (-1) [] true none) rfl hfuel
    rw [this]
    simp [Lexer.push, outside]
  · subst hwhole
    exact not_mem_finish_of_breaks h hfuel

/-- The text of one block, with a new line behind it, has the tokens of its elements, or it breaks. -/
theorem tokens_of_block {start : Token} {p q : Pen} {w t : List Char} {a b : Bool} {ts us : List Token}
    (hstart : start ≠ .streamEnd) (h : Element 0 start Pen.start w p a ts) (ht : Lined 0 t)
    (h' : Tells 0 p t q b us) {y : String}
    (hy : y.toList = w ++ (t ++ (newLine 0 ++ []))) :
    ((a && b) → tokens y = start :: (ts ++ us) ++ [.blockEnd, .streamEnd]) ∧
      ((a && b) = false → .streamEnd ∉ tokens y) := by
  have hchars : y.toList.all isTextChar := by
    rw [List.all_eq_true, hy]
    intro c hc
    have := (h.draws.trans (h'.draws.trans (draws_newLine (n := 0) (.inl h'.settled.fresh)))).drawn c
      (by simpa using hc)
    simp only [isDrawn, Bool.and_eq_true] at this
    exact this.1.1.1
  generalize hc : Cursor.start y.toList = c
  have hcursor : c.rest = w ++ (t ++ (newLine 0 ++ [])) := by rw [← hc, ← hy]; rfl
  have hcolumn : c.column = 0 := by rw [← hc]; rfl
  have htokens : tokens y = (outside c [] (-1) [] true none).finish (y.toList.length + 2) := by
    unfold tokens
    simp only [hchars, if_true]
    rw [← hc]
    rfl
  have hbegins : Begins c.rest := by
    rw [hcursor]
    exact (h.follows _).begins
  have hready := ready_of_fresh [] [] true none (m := -1) hbegins rfl rfl (by omega)
  have hnothing : Follows 0 [] := follows_of_start (by simp [Begins]) (fun c hc => by
    unfold Cursor.atDocumentMark Cursor.atMark
    rw [hc]
    rfl) 0
  obtain ⟨k', r', hmore, hk', hr'⟩ := ht (Nat.le_refl 0) hnothing
  have hfirst := h.lands (by simp) hready (by rw [hcursor, hmore]) hcolumn (by omega) hk' hr'
    (slack_none c)
  have hrest := Cursor.rest_forward hcursor
  have hcolumn' := Cursor.column_forward hcursor h.draws.drawn
  rw [hcolumn] at hcolumn'
  have hsecond := h'.lands (ts.reverse ++ (opening start (-1) 0 ++ [])) (opened (-1) 0 []) true
    (by simpa [opening] using ⟨h.noEnd, hstart.symm⟩) hrest (hcolumn'.trans h.draws.column.symm)
    (Nat.le_refl 0) hnothing (slack_none _) (fun _ => rfl)
  have hend := finish_of_newLine (hfirst.trans hsecond) (Cursor.rest_forward hrest)
    (y.toList.length + 2) (by
      show c.rest.length < _
      rw [hcursor, hy]
      omega)
  rw [← htokens] at hend
  refine ⟨fun hwhole => ?_, hend.2⟩
  rw [hend.1 hwhole]
  simp [opening]

/-- The text of a mapping is written, and its tokens are those of the outline, or the text breaks at a
key that does not fit. -/
theorem tokens_text {es : List (Value × Value)} (hne : es ≠ []) (h : (Value.map es).isReadable)
    (hl : (Value.map es).LabelledBy env) :
    ∃ y, text (.map es) = .ok y ∧
      ((layout (.map es)).fits → tokens y = (layout (.map es)).tokens ++ [.streamEnd]) ∧
      ((layout (.map es)).fits = false → .streamEnd ∉ tokens y) := by
  obtain ⟨⟨k, v⟩, es, rfl⟩ := List.exists_cons_of_ne_nil hne
  obtain ⟨⟨u, rfl⟩, hkeys⟩ := List.forall_mem_cons.mp (textKeys_of_isReadable h hl)
  obtain ⟨hv, hes⟩ := Bool.and_eq_true_iff.mp (Bool.and_eq_true_iff.mp h).2
  generalize hlabels : anchors (.map ((.text u, v) :: es)) = labels
  have hagrees : Agrees labels [] [] := ⟨fun _ => rfl, by simp⟩
  obtain ⟨s₁, w, hwrite, helement, hagrees₁, -⟩ := draws_entry u (writeNode_tells labels v hv hl.2.1) 0
    ⟨Pen.start, []⟩ [] ⟨rfl, rfl, rfl⟩ hagrees
  obtain ⟨s₂, t, hrest, hlined, htells, -, -⟩ := writeEntries_tells labels es hkeys hes hl.2.2 0 s₁ _
    helement.settled hagrees₁
  have htext : text (.map ((.text u, v) :: es)) = .ok (s₂.pen.indent 0).written := by
    have hentries : writeNode labels ⟨true, false, false⟩ none (.map ((.text u, v) :: es))
        ⟨Pen.start, []⟩ = .ok s₂ := by
      show writeEntries labels 0 ((.text u, v) :: es) ⟨Pen.start, []⟩ = _
      rw [writeEntries_text]
      show writeNode labels ⟨false, true, false⟩ (some 0) v
        ((⟨Pen.start, []⟩ : Progress).draw (keyPen u 0)) >>= writeEntries labels 0 es = _
      rw [hwrite]
      exact hrest
    have hfinish : finish s₂.pen = (s₂.pen.indent 0).written := by
      unfold finish
      simp only [openEnded_indent, htells.settled.closed]
      rfl
    unfold text
    rw [hlabels, hentries, ← hfinish]
    rfl
  have hdraws := helement.draws.trans (htells.draws.trans (draws_newLine (n := 0)
    (.inl htells.settled.fresh)))
  have hchars : (s₂.pen.indent 0).written.toList = w ++ (t ++ (newLine 0 ++ [])) := by
    rw [hdraws.written, String.toList_append, String.toList_ofList, List.append_nil]
    rfl
  have houtline : layout (.map ((.text u, v) :: es)) =
      .map (outlineEntries labels 0 ((.text u, v) :: es) []).1 := by
    rw [layout, hlabels]
    rfl
  have htokens := tokens_of_block (by simp) helement hlined htells hchars
  rw [Bool.and_assoc, Outline.fits, ← List.all_append] at htokens
  rw [houtline]
  refine ⟨_, htext, fun hfits => ?_, htokens.2⟩
  rw [htokens.1 hfits]
  simp [Outline.tokens, outlineEntries, keyText, Value.text?]

end Text

end Yaml

end GraphPaths
