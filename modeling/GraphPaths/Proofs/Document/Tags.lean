import GraphPaths.Proofs.Transform

/-!
# Tags of a document

A document declares the tags of its operations. `Declares` is what holds of the declared tags after
every operation: they have the names used so far, each once, in the order of first use. Adding the
tag of one more operation keeps this (`Declares.addTag`), and so it holds of a whole document
(`declares_documentOf`).
-/

namespace GraphPaths

/-- The tags declare the names in use, in order of first use. Every operation uses one name or none.
-/
structure Declares (tags : List RouteTag) (used : List (Option String)) : Prop where
  mem : ∀ name, name ∈ tags.map RouteTag.name ↔ some name ∈ used
  order : (tags.map RouteTag.name).Pairwise fun a b => used.idxOf (some a) < used.idxOf (some b)

namespace Declares

variable {tags : List RouteTag} {used : List (Option String)}

theorem nil : Declares [] [] :=
  ⟨fun _ => by simp, List.Pairwise.nil⟩

/-- Names used in order differ. -/
theorem nodup (h : Declares tags used) : (tags.map RouteTag.name).Nodup :=
  h.order.imp fun hlt heq => by simp [heq] at hlt

/-- Further uses do not change the order of the names in use. -/
theorem order_append (h : Declares tags used) (more : List (Option String)) :
    (tags.map RouteTag.name).Pairwise fun a b =>
      (used ++ more).idxOf (some a) < (used ++ more).idxOf (some b) :=
  h.order.imp_of_mem fun ha hb hlt => by
    rwa [List.idxOf_append_of_mem ((h.mem _).mp ha), List.idxOf_append_of_mem ((h.mem _).mp hb)]

/-- An operation that uses nothing new changes nothing. -/
theorem useOld (h : Declares tags used) {tag : Option String}
    (hold : ∀ name, tag = some name → some name ∈ used) : Declares tags (used ++ [tag]) where
  mem name := by
    rw [h.mem, List.mem_append, List.mem_singleton]
    exact ⟨.inl, fun hn => hn.elim id fun heq => hold name heq.symm⟩
  order := h.order_append [tag]

/-- A new name comes last. -/
theorem useNew (h : Declares tags used) {t : RouteTag} (hnew : some t.name ∉ used) :
    Declares (tags ++ [t]) (used ++ [some t.name]) where
  mem name := by
    rw [List.map_append, List.mem_append, h.mem, List.mem_append]
    simp
  order := by
    rw [List.map_append, List.pairwise_append]
    refine ⟨h.order_append _, List.pairwise_singleton _ _, fun a ha b hb => ?_⟩
    obtain rfl := List.mem_singleton.mp hb
    have hused := (h.mem a).mp ha
    rw [List.idxOf_append_of_mem hused, List.idxOf_append_of_notMem hnew]
    have := List.idxOf_lt_length_of_mem hused
    omega

/-- Adding the tag of an operation keeps the tags declared. -/
theorem addTag (h : Declares tags used) (tag : Option RouteTag) :
    Declares (GraphPaths.addTag tags tag) (used ++ [tag.map RouteTag.name]) := by
  cases tag with
  | none => exact h.useOld nofun
  | some t =>
    have hany : (tags.any fun x => x.name == t.name) ↔ some t.name ∈ used := by
      rw [← h.mem t.name, List.any_eq_true, List.mem_map]
      exact exists_congr fun x => and_congr_right fun _ => beq_iff_eq
    show Declares (if tags.any fun x => x.name == t.name then tags else tags ++ [t]) _
    by_cases hused : some t.name ∈ used
    · rw [if_pos (hany.mpr hused)]
      exact h.useOld fun name hname => hname ▸ hused
    · rw [if_neg fun hall => hused (hany.mp hall)]
      exact h.useNew hused

end Declares

/-- The names of the tags of the fields of examples, in order. -/
def tagNames (o : Options) (ex : Examples) : List (Option String) :=
  ex.map fun entry => (o.tag? entry.1).map RouteTag.name

/-- Going through the examples keeps the tags declared. -/
theorem declares_foldl (o : Options) : ∀ (ex : Examples) {tags : List RouteTag}
    {used : List (Option String)}, Declares tags used →
      Declares (ex.foldl (fun tags (field, _) => addTag tags (o.tag? field)) tags)
        (used ++ tagNames o ex)
  | [], _, _, h => by rwa [tagNames, List.map_nil, List.append_nil]
  | (field, e) :: ex, tags, used, h => by
    have ih := declares_foldl o ex (h.addTag (o.tag? field))
    rw [List.append_assoc] at ih
    exact ih

/-- A document declares the tags of its fields. -/
theorem declares_documentOf (o : Options) (ex : Examples) (parts : List ApiPart) :
    Declares (documentOf o ex parts).tags (tagNames o ex) :=
  declares_foldl o ex Declares.nil

end GraphPaths
