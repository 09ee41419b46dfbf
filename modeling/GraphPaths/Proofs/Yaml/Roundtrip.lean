import GraphPaths.Proofs.Yaml.Nodes
import GraphPaths.Proofs.Yaml.Reading
import GraphPaths.Proofs.Yaml.Recall

/-!
# Mappings read back from YAML

The YAML text of a mapping that JSON can hold is loaded as the value of its layout, or as nothing if a
key does not fit (`load_text`). So the mapping is read back, without its labels, just if each of its
texts is drawn where it is legible (`load_text_iff`).
-/

namespace GraphPaths

namespace Yaml

variable {env : Nat → Value}

/-- A text that has no end gives no value. -/
theorem streamEnd_mem_of_load {text : String} {w : Value} (h : load text = .ok w) :
    .streamEnd ∈ tokens text := by
  obtain ⟨d, hd, -⟩ := bind_eq_ok.mp h
  exact ((meets_read text).of_ok hd).2

/-- A document whose root is a mapping in lines of its own. -/
theorem read_of_node {text : String} {ts : List Token} {n : Node} {s : Reading}
    (htokens : tokens text = .blockMappingStart :: ts)
    (hnode : node defaultHandles (4 * (tokens text).length + 4) .block ⟨tokens text, 0, [], []⟩ =
      .ok (n, s)) (hend : s.tokens = [.streamEnd]) :
    Document.read text = .ok ⟨some n, s.named, s.next⟩ := by
  have hstream : streamEnd s = .ok () := by
    obtain ⟨us, next, anchors, named⟩ := s
    obtain rfl : us = _ := hend
    rfl
  unfold Document.read
  simp only
  rw [htokens] at hnode ⊢
  show (node defaultHandles _ .block _ >>= _) = _
  rw [hnode]
  show (streamEnd s >>= _) = _
  rw [hstream]
  rfl

/-- The tokens of the outline of a mapping are loaded as the value of the outline. -/
theorem load_of_tokens {es : List (Value × Value)} (hne : es ≠ []) {v : Value} (hes : v = .map es)
    (hv : v.isReadable) (hl : v.LabelledBy env) {text : String}
    (h : tokens text = (layout v).tokens ++ [.streamEnd]) :
    ∃ w, load text = .ok w ∧ w.plain = (layout v).value := by
  obtain ⟨ts, htokens⟩ : ∃ ts, tokens text = .blockMappingStart :: ts := by
    obtain ⟨e, es, rfl⟩ := List.exists_cons_of_ne_nil hne
    subst hes
    exact ⟨_, h⟩
  have hknown : Known (anchors v) [] ⟨tokens text, 0, [], []⟩ [] [] :=
    ⟨Nat.le_refl 0, nofun, fun _ _ _ _ => rfl, nofun⟩
  have hlength : (tokens text).length = (layout v).tokens.length + 1 := by
    rw [h, List.length_append, List.length_singleton]
  obtain ⟨n, s, hnode, hgives⟩ := (reads_value (anchors v) v hv hl).1 false none true
    ⟨tokens text, 0, [], []⟩ [] [] [] [.streamEnd] (4 * (tokens text).length + 4) h hknown nofun nofun
    (by show 3 * (layout v).tokens.length + 2 ≤ _; omega)
  have hread := read_of_node htokens hnode hgives.rest
  -- an alias finds the node with its number, which no other node has
  obtain ⟨more, hmore, hdistinct, -⟩ := hgives.grows.named
  have hnamed : s.named = more := hmore.trans (List.append_nil more)
  have hholds : s.Holds ⟨some n, s.named, s.next⟩ := fun e he =>
    lookup_of_mem (by rw [hnamed]; exact hdistinct) he
  obtain ⟨w, hw, hplain⟩ := hgives.means _ hholds (s.next + 1) [] (by simp) nofun
  refine ⟨w, ?_, hplain⟩
  unfold load
  rw [hread]
  show ((Document.mk (some n) s.named s.next).value (s.next + 1) [] n).mapError _ = _
  rw [hw]
  rfl

/-- The text of a mapping that JSON can hold is loaded as what its layout tells, or as nothing if a key
does not fit. -/
theorem load_text {es : List (Value × Value)} (hne : es ≠ []) (hv : (Value.map es).isReadable)
    (hl : (Value.map es).LabelledBy env) : ∃ y, text (.map es) = .ok y ∧
      ((layout (.map es)).fits → ∃ w, load y = .ok w ∧ w.plain = (layout (.map es)).value) ∧
      ((layout (.map es)).fits = false → ∀ w, load y ≠ .ok w) := by
  obtain ⟨y, hy, hfits, hbreaks⟩ := tokens_text hne hv hl
  exact ⟨y, hy, fun h => load_of_tokens hne rfl hv hl (hfits h),
    fun h w hw => hbreaks h (streamEnd_mem_of_load hw)⟩

/-- A mapping that JSON can hold is read back from its text just if all its texts are legible. -/
theorem load_text_iff {es : List (Value × Value)} (hne : es ≠ []) (hv : (Value.map es).isReadable)
    (hl : (Value.map es).LabelledBy env) : ∃ y, text (.map es) = .ok y ∧
      ((∃ w, load y = .ok w ∧ w.plain = (Value.map es).plain) ↔
        ∀ s ∈ (layout (.map es)).sites, s.legible) := by
  obtain ⟨y, hy, hloads, hfails⟩ := load_text hne hv hl
  have hsound := value_layout_iff hv hl
  have hfits : (layout (.map es)).fits ↔ ∀ s ∈ (layout (.map es)).sites, s.fits := List.all_eq_true
  refine ⟨y, hy, ?_⟩
  simp only [Site.legible, Bool.and_eq_true]
  rw [forall₂_and, ← hfits, ← hsound]
  cases h : (layout (.map es)).fits with
  | true =>
    obtain ⟨w, hw, hvalue⟩ := hloads h
    refine ⟨fun ⟨w', hw', hplain⟩ => ⟨rfl, ?_⟩, fun hplain => ⟨w, hw, hvalue.trans hplain.2⟩⟩
    obtain rfl : w = w' := Except.ok.inj (hw.symm.trans hw')
    exact hvalue.symm.trans hplain
  | false => exact ⟨fun ⟨w, hw, _⟩ => absurd hw (hfails h w), fun h => absurd h.1 Bool.false_ne_true⟩

end Yaml

end GraphPaths
