import GraphPaths.Proofs.Json.Writing
import GraphPaths.Proofs.Yaml.Outline

/-!
# Values whose texts are legible

A text can be lost in the drawing by the character U+0085 or a deep indentation only, and a key also by
characters that need long escapes. So in a value that is not too deep and has no such characters each
text is legible (`legible_of_isCalm`).
-/

namespace GraphPaths

namespace Value

mutual

/-- How many lists and mappings stand inside each other. -/
def depth : Value → Nat
  | .list xs => depthItems xs + 1
  | .map es => depthEntries es + 1
  | .shared _ v => v.depth
  | _ => 0

/-- The depth of the deepest item. -/
def depthItems : List Value → Nat
  | [] => 0
  | x :: xs => max x.depth (depthItems xs)

/-- The depth of the deepest value under a key. -/
def depthEntries : List (Value × Value) → Nat
  | [] => 0
  | (_, v) :: es => max v.depth (depthEntries es)

end

/-- Whether no text has the character U+0085, and no key a character beyond U+FFFF either. -/
def isCalm (v : Value) : Bool :=
  v.all (fun v => !(Yaml.keyText v).toList.contains '\x85') fun ks => ks.all fun k =>
    (Yaml.keyText k).toList.all fun c => c != '\x85' && decide (c.toNat < 0x10000)

end Value

namespace Yaml

/-! ## Sites -/

theorem length_escape {c : Char} (h : c.toNat < 0x10000) : (escape c).length ≤ 6 := by
  unfold escape
  split
  · simp
  · split
    · simp [Text.length_hexPadded]
    · rw [if_pos (by omega)]
      simp [Text.length_hexPadded]

theorem length_doubleLine {cs : List Char} (h : ∀ c ∈ cs, c.toNat < 0x10000) :
    (doubleLine cs).length ≤ 6 * cs.length := by
  induction cs with
  | nil => exact Nat.le_refl 0
  | cons c cs ih =>
    have hrest := ih fun d hd => h d (List.mem_cons_of_mem c hd)
    have hfirst : (if needsEscape c then escape c else [c]).length ≤ 6 := by
      split
      · exact length_escape (h c List.mem_cons_self)
      · simp
    have hcons : doubleLine (c :: cs) = (if needsEscape c then escape c else [c]) ++ doubleLine cs :=
      List.flatMap_cons
    rw [hcons, List.length_append, List.length_cons]
    omega

/-- A site that is not too deep, for a text without characters that are lost. -/
structure Site.Calm (s : Site) : Prop where
  indent : s.indent < 80
  chars : '\x85' ∉ s.text.toList
  key : s.key → s.text.length < 123 ∧ ∀ c ∈ s.text.toList, c.toNat < 0x10000

theorem Site.Calm.legible {s : Site} (h : s.Calm) : s.legible := by
  have hsound : s.sound := by
    unfold Site.sound
    split
    · rfl
    · rfl
    · simpa using h.chars
    · simp [h.indent]
  have hfits : s.fits := by
    cases hkey : s.key with
    | false => simp [Site.fits, hkey]
    | true =>
      obtain ⟨hshort, hchars⟩ := h.key hkey
      have hlength := length_doubleLine hchars
      rw [String.length_toList] at hlength
      have : (doubleLine s.text.toList).length + 2 ≤ 1024 := by omega
      simp [Site.fits, this]
  rw [Site.legible, hsound, hfits]
  rfl

/-! ## Outlines -/

/-- A name that is calm behind a label is calm. -/
theorem mem_keyText_bare {k : Value} {c : Char} (h : c ∈ (keyText k).toList) :
    c ∈ (keyText k.bare).toList := by
  cases k with
  | shared _ _ => exact absurd h (by simp [keyText, Value.text?])
  | _ => exact h

theorem isCalm_list {xs : List Value} (h : (Value.list xs).isCalm) : ∀ x ∈ xs, x.isCalm :=
  Value.all_list.mp h

theorem isCalm_map {es : List (Value × Value)} (h : (Value.map es).isCalm) :
    ∀ e ∈ es, (∀ c ∈ (keyText e.1).toList, c ≠ '\x85' ∧ c.toNat < 0x10000) ∧ e.2.isCalm := by
  obtain ⟨hkeys, hvalues⟩ := Value.all_map.mp h
  refine fun e he => ⟨fun c hc => ?_, hvalues e he⟩
  have hkey := List.all_eq_true.mp hkeys e.1.bare (List.mem_map_of_mem he)
  simpa using List.all_eq_true.mp hkey c (mem_keyText_bare hc)

theorem inner_le (indent : Option Nat) (stay : Bool) : inner indent stay ≤ inner indent false := by
  unfold inner
  cases indent with
  | none => exact Nat.le_refl 0
  | some n => cases stay <;> simp

variable {labels : List Nat}

mutual

/-- The sites of a calm value that is not too deep are calm. -/
theorem calm_outline : ∀ (v : Value) (inMapping : Bool) (indent : Option Nat) (fresh : Bool)
    (drawn : Drawn), v.isCalm → continued indent < 80 → inner indent false + 2 * v.depth < 80 →
    ∀ s ∈ (outline labels inMapping indent fresh v drawn).1.sites, s.Calm
  | .text u, _, _, _, _, hv, hindent, _ =>
    List.forall_mem_singleton.mpr ⟨hindent, by
      simpa [Value.isCalm, Value.all, keyText, Value.text?] using hv, nofun⟩
  | .shared l v, inMapping, indent, fresh, drawn, hv, hindent, hdepth => by
    cases hname : anchorName labels l with
    | none =>
      rw [outline_unnamed hname]
      exact calm_outline v inMapping indent fresh drawn hv hindent hdepth
    | some name =>
      cases hlookup : drawn.lookup l with
      | some w =>
        rw [outline_again hname hlookup]
        exact fun _ => nofun
      | none =>
        rw [outline_anchored hname hlookup]
        exact calm_outline v inMapping indent false _ hv hindent hdepth
  | .list xs, inMapping, indent, fresh, drawn, hv, _, hdepth => by
    have hdepth : inner indent false + 2 * (Value.depthItems xs + 1) < 80 := hdepth
    have hinner := inner_le indent (inMapping && !fresh)
    exact calm_outlineItems xs _ drawn (isCalm_list hv) (by omega)
  | .map es, inMapping, indent, fresh, drawn, hv, _, hdepth => by
    have hdepth : inner indent false + 2 * (Value.depthEntries es + 1) < 80 := hdepth
    exact calm_outlineEntries es _ drawn (isCalm_map hv) (by omega)
  | .null, _, _, _, _, _, _, _ | .bool _, _, _, _, _, _, _, _ | .int _, _, _, _, _, _, _, _
  | .float _, _, _, _, _, _, _, _ | .date _, _, _, _, _, _, _, _ | .moment _, _, _, _, _, _, _, _
  | .bytes _, _, _, _, _, _, _, _ | .set _, _, _, _, _, _, _, _ | .again _, _, _, _, _, _, _, _ =>
    fun _ => nofun

/-- So it is with items. -/
theorem calm_outlineItems : ∀ (xs : List Value) (n : Nat) (drawn : Drawn), (∀ x ∈ xs, x.isCalm) →
    n + 2 + 2 * Value.depthItems xs < 80 →
    ∀ s ∈ Outline.itemSites (outlineItems labels n xs drawn).1, s.Calm
  | [], _, _, _, _ => fun _ => nofun
  | x :: xs, n, drawn, hxs, hdepth => by
    have hdepth : n + 2 + 2 * max x.depth (Value.depthItems xs) < 80 := hdepth
    obtain ⟨hx, hxs⟩ := List.forall_mem_cons.mp hxs
    have hfirst := calm_outline x false (some n) true drawn hx (by show n + 2 < 80; omega)
      (by show n + 2 + _ < 80; omega)
    have hrest := calm_outlineItems xs n (outline labels false (some n) true x drawn).2 hxs (by omega)
    exact List.forall_mem_append.mpr ⟨hfirst, hrest⟩

/-- So it is with entries. -/
theorem calm_outlineEntries : ∀ (es : List (Value × Value)) (n : Nat) (drawn : Drawn),
    (∀ e ∈ es, (∀ c ∈ (keyText e.1).toList, c ≠ '\x85' ∧ c.toNat < 0x10000) ∧ e.2.isCalm) →
    n + 2 + 2 * Value.depthEntries es < 80 →
    ∀ s ∈ Outline.entrySites (outlineEntries labels n es drawn).1, s.Calm
  | [], _, _, _, _ => fun _ => nofun
  | (k, v) :: es, n, drawn, hes, hdepth => by
    have hdepth : n + 2 + 2 * max v.depth (Value.depthEntries es) < 80 := hdepth
    obtain ⟨⟨hk, hv⟩, hes⟩ := List.forall_mem_cons.mp hes
    have hkey : Site.Calm ⟨keyText k, n + 2, isSimpleText (keyText k)⟩ := by
      refine ⟨by show n + 2 < 80; omega, fun hmem => (hk _ hmem).1 rfl, fun hsimple => ?_⟩
      have hsimple : isSimpleText (keyText k) := hsimple
      simp only [isSimpleText, Bool.and_eq_true, decide_eq_true_eq] at hsimple
      exact ⟨hsimple.1.1, fun c hc => (hk c hc).2⟩
    have hfirst := calm_outline v true (some n) (!isSimpleText (keyText k)) drawn hv
      (by show n + 2 < 80; omega) (by show n + 2 + _ < 80; omega)
    have hrest := calm_outlineEntries es n
      (outline labels true (some n) (!isSimpleText (keyText k)) v drawn).2 hes (by omega)
    exact List.forall_mem_cons.mpr ⟨hkey, List.forall_mem_append.mpr ⟨hfirst, hrest⟩⟩

end

/-- In a calm value of a depth below 40 each text is legible. -/
theorem legible_of_isCalm {v : Value} (h : v.isCalm) (hdepth : v.depth < 40) :
    ∀ s ∈ (layout v).sites, s.legible :=
  fun s hs => (calm_outline v false none true [] h (by decide) (by show 0 + _ < 80; omega) s hs).legible

end Yaml

end GraphPaths
