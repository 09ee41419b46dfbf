import GraphPaths.Proofs.Outcome
import GraphPaths.Proofs.Text.Digits
import GraphPaths.Yaml.Load

/-!
# Scalars without a value

How a scalar can fail to be a value of its kind, and how a plain one can whose kind is only implied by
its form (`meets_implied`): a word for a truth value always is one, no number is empty and a timestamp
has the form of one, so that what is left is a number that cannot be read or that stands for too many
seconds, and a moment that no calendar has.
-/

namespace GraphPaths

namespace Yaml

/-- The error says that a text is no numeral. -/
def IsNumberFault (e : LoadError) : Prop := ∃ n, e = .number n

/-! ## Numbers -/

theorem meets_numeral (base : Nat) (cs : List Char) :
    Meets (numeral base cs) (fun _ => True) IsNumberFault := by
  unfold numeral
  cases Numeral.int base (String.ofList cs) with
  | ok i => exact meets_pure trivial
  | error n => exact meets_throw ⟨n, rfl⟩

theorem meets_realNumeral (cs : List Char) :
    Meets (realNumeral cs) (fun _ => True) IsNumberFault := by
  unfold realNumeral
  cases Numeral.real (String.ofList cs) with
  | ok x => exact meets_pure trivial
  | error n => exact meets_throw ⟨n, rfl⟩

/-- Only the empty text has no first character that could be a sign. -/
theorem meets_splitSign (cs : List Char) : Meets (splitSign cs) (fun r => r.2 = unsigned cs)
    (fun e => unsigned cs = [] ∧ e = .emptyNumber) := by
  unfold splitSign
  split
  · exact meets_throw ⟨rfl, rfl⟩
  · exact meets_pure rfl
  · exact meets_pure rfl
  · next hminus hplus =>
    refine meets_pure ?_
    show cs = unsigned cs
    unfold unsigned
    split
    · exact (hplus _ rfl).elim
    · exact (hminus _ rfl).elim
    · rfl

theorem meets_unsignedInt (cs : List Char) : Meets (unsignedInt cs) (fun _ => True)
    (fun e => cs = [] ∧ e = .emptyNumber ∨ IsNumberFault e) := by
  have hnumeral : ∀ (base : Nat) (ds : List Char), Meets (numeral base ds) (fun _ => True)
      (fun e => cs = [] ∧ e = .emptyNumber ∨ IsNumberFault e) := fun base ds =>
    (meets_numeral base ds).mono (fun _ h => h) fun _ h => .inr h
  unfold unsignedInt
  split
  · exact meets_pure trivial
  · exact hnumeral 2 _
  · exact hnumeral 16 _
  · exact hnumeral 8 _
  · exact meets_throw (.inl ⟨rfl, rfl⟩)
  · split
    · exact (meets_mapM fun part _ => hnumeral 10 part).bind fun _ _ => meets_pure trivial
    · exact hnumeral 10 _

theorem meets_int (text : String) : Meets (int text) (fun _ => True)
    (fun e => unsigned (dropLowLines text) = [] ∧ e = .emptyNumber ∨ IsNumberFault e) := by
  refine Meets.bind ((meets_splitSign _).mono (fun _ h => h) fun _ h => .inl h) fun r hr => ?_
  rw [← hr]
  exact (meets_unsignedInt r.2).bind fun _ _ => meets_pure trivial

theorem meets_sumSixtieths : ∀ (sum : Binary64) (base : Nat) (parts : List Binary64),
    Meets (sumSixtieths sum base parts) (fun _ => True) (· = .tooLarge)
  | _, _, [] => meets_pure trivial
  | sum, base, part :: parts => by
    unfold sumSixtieths
    simp only
    split
    · exact meets_sumSixtieths _ _ parts
    · exact meets_throw rfl

theorem lowerFrom_eq_nil {before cs : List Char} (h : Text.lowerFrom before cs = []) : cs = [] := by
  cases cs with
  | nil => rfl
  | cons c r =>
    have hc : Text.lowerIn before c r = [] := (List.append_eq_nil_iff.mp h).1
    unfold Text.lowerIn at hc
    split_ifs at hc

theorem meets_unsignedFloat (cs : List Char) : Meets (unsignedFloat cs) (fun _ => True)
    (fun e => e = .tooLarge ∨ IsNumberFault e) := by
  have hreal : ∀ ds : List Char, Meets (realNumeral ds) (fun _ => True)
      (fun e => e = .tooLarge ∨ IsNumberFault e) := fun ds =>
    (meets_realNumeral ds).mono (fun _ h => h) fun _ h => .inr h
  unfold unsignedFloat
  split
  · exact meets_pure trivial
  split
  · exact meets_pure trivial
  split
  · exact (meets_mapM fun part _ => hreal part).bind fun parts _ =>
      (meets_sumSixtieths _ _ _).mono (fun _ h => h) fun _ h => .inl h
  · exact hreal cs

theorem meets_float (text : String) : Meets (float text) (fun _ => True)
    (fun e => dropLowLines text = [] ∧ e = .emptyNumber ∨ e = .tooLarge ∨ IsNumberFault e) := by
  have hparts : Meets (floatParts text) (fun _ => True)
      (fun e => dropLowLines text = [] ∧ e = .emptyNumber) := by
    unfold floatParts splitSign
    split
    · next heq =>
      refine meets_throw ⟨?_, rfl⟩
      unfold Text.lower at heq
      rw [String.toList_ofList, String.toList_ofList] at heq
      exact lowerFrom_eq_nil heq
    all_goals exact meets_pure trivial
  refine Meets.bind (hparts.mono (fun _ h => h) fun _ h => .inl h) fun r _ => ?_
  exact Meets.bind ((meets_unsignedFloat _).mono (fun _ h => h) fun _ h => .inr h) fun _ _ =>
    meets_pure trivial

/-! ## Other kinds -/

theorem meets_bool (text : String) : Meets (bool text) (fun _ => True)
    (fun e => boolWords.lookup (Text.lower text) = none ∧ e = .noBool (Text.lower text)) := by
  unfold bool
  simp only
  split
  · exact meets_pure trivial
  · next h => exact meets_throw ⟨h, rfl⟩

/-- The characters of a text without the line end after them. -/
def withoutLineEnd (text : String) : List Char :=
  match text.toList.reverse with
  | '\n' :: r => r.reverse
  | _ => text.toList

theorem meets_timestamp (text : String) : Meets (timestamp text) (fun _ => True)
    (fun e => Timestamp.scan (withoutLineEnd text) = none ∧ e = .noTimestamp ∨
      ∃ c, e = .calendar c) := by
  unfold timestamp
  simp only
  split
  · next h => exact meets_throw (.inl ⟨h, rfl⟩)
  · next t _ _ _ => cases t.resolve with
    | ok found => exact meets_pure trivial
    | error c => exact meets_throw (.inr ⟨c, rfl⟩)

/-! ## Implied kinds -/

/-- The form that a plain scalar of a kind has. -/
def HasForm (cs : List Char) : ScalarKind → Prop
  | .bool => ∃ w ∈ boolWords, spells cs w.1
  | .int => isInt cs
  | .float => isFloat cs
  | .timestamp => Timestamp.isImplicit cs
  | .binary => False
  | _ => True

theorem hasForm_implicitKind (cs : List Char) : HasForm cs (implicitKind cs) := by
  unfold implicitKind
  split_ifs with hnull hbool hfloat hint hmerge htimestamp
  · trivial
  · exact List.any_eq_true.mp hbool
  · exact hfloat
  · exact hint
  · trivial
  · exact htimestamp
  all_goals trivial

/-- A word for a truth value is one. -/
theorem lookup_of_spells {text : String} (h : ∃ w ∈ boolWords, spells text.toList w.1) :
    (boolWords.lookup (Text.lower text)).isSome := by
  have hall : ∀ w ∈ boolWords, ∀ cs ∈ spellings w.1.toList,
      (boolWords.lookup (Text.lower (String.ofList cs))).isSome := by decide +kernel
  obtain ⟨w, hw, hspells⟩ := h
  have hmem : text.toList ∈ spellings w.1.toList := List.contains_iff_mem.mp hspells
  rw [← String.ofList_toList (s := text)]
  exact hall w hw _ hmem

theorem exists_of_colonParts {cs p : List Char} {ps : List (List Char)} {c : Char}
    (h : colonParts cs = (c :: p) :: ps) : ∃ r, cs = c :: r := by
  cases cs with
  | nil => exact nomatch h
  | cons d r =>
    unfold colonParts at h
    split at h
    · exact nomatch h
    · split at h
      · obtain ⟨rfl, -⟩ := List.cons.inj (List.cons.inj h).1
        exact ⟨r, rfl⟩
      · obtain ⟨rfl, -⟩ := List.cons.inj (List.cons.inj h).1
        exact ⟨r, rfl⟩

theorem exists_of_isCount {cs : List Char} (h : isCount cs) : ∃ c r, cs = c :: r ∧ c.isDigit := by
  cases cs with
  | nil => exact nomatch h
  | cons c r =>
    unfold isCount at h
    rw [Bool.and_eq_true, Text.asciiDigit_isSome] at h
    exact ⟨c, r, rfl, h.1⟩

/-- After its sign an integer starts with a digit. -/
theorem exists_of_isInt {cs : List Char} (h : isInt cs) : ∃ c r, unsigned cs = c :: r ∧ c.isDigit := by
  unfold isInt at h
  simp only at h
  split at h
  · next heq => exact ⟨_, _, heq, rfl⟩
  · next heq => exact ⟨_, _, heq, rfl⟩
  · next heq => exact ⟨_, _, heq, rfl⟩
  · next heq => exact ⟨_, _, heq, rfl⟩
  · rcases Bool.or_eq_true _ _ ▸ h with h | h
    · exact exists_of_isCount h
    · unfold isSexagesimal at h
      split at h
      · next first second rest hparts =>
        obtain ⟨c, p, rfl, hc⟩ := exists_of_isCount (Bool.and_eq_true _ _ ▸ h).1
        obtain ⟨r, hr⟩ := exists_of_colonParts hparts
        exact ⟨c, r, hr, hc⟩
      · exact nomatch h

/-- The first digit of an integer stays when its low lines are dropped. -/
theorem unsigned_dropLowLines_ne_nil {text : String} (h : isInt text.toList) :
    unsigned (dropLowLines text) ≠ [] := by
  obtain ⟨c, r, hr, hc⟩ := exists_of_isInt h
  obtain ⟨hline, hplus, hminus⟩ : (c != '_') = true ∧ c ≠ '+' ∧ c ≠ '-' :=
    Text.forall_digit (fun c => (c != '_') = true ∧ c ≠ '+' ∧ c ≠ '-') (by decide) hc
  have hfilter : (c :: r).filter (· != '_') = c :: r.filter (· != '_') :=
    List.filter_cons_of_pos hline
  unfold dropLowLines
  unfold unsigned at hr
  split at hr
  · next heq =>
    rw [heq, hr, List.filter_cons_of_pos (by decide), hfilter]
    exact List.cons_ne_nil _ _
  · next heq =>
    rw [heq, hr, List.filter_cons_of_pos (by decide), hfilter]
    exact List.cons_ne_nil _ _
  · rw [hr, hfilter]
    unfold unsigned
    split
    · next heq => exact absurd (List.cons.inj heq).1 hplus
    · next heq => exact absurd (List.cons.inj heq).1 hminus
    · exact List.cons_ne_nil _ _

theorem mem_of_mem_unsigned {c : Char} {cs : List Char} (h : c ∈ unsigned cs) : c ∈ cs := by
  unfold unsigned at h
  split at h
  · exact List.mem_cons_of_mem _ h
  · exact List.mem_cons_of_mem _ h
  · exact h

/-- The point of a float stays when its low lines are dropped. -/
theorem dropLowLines_ne_nil {text : String} (h : isFloat text.toList) : dropLowLines text ≠ [] := by
  have hpoint : '.' ∈ unsigned text.toList := by
    by_contra hnone
    have hrest : (unsigned text.toList).dropWhile (· != '.') = [] :=
      List.dropWhile_eq_nil_iff.mpr fun c hc => bne_iff_ne.mpr fun hpoint => hnone (hpoint ▸ hc)
    unfold isFloat at h
    simp only [List.span_eq_takeWhile_dropWhile, hrest] at h
    contradiction
  exact List.ne_nil_of_mem (List.mem_filter.mpr ⟨mem_of_mem_unsigned hpoint, by decide⟩)

/-- How a plain scalar can fail to be a value of the kind that its form implies. -/
def IsImpliedFault (e : LoadError) : Prop :=
  e = .malformed ∨ e = .tooLarge ∨ IsNumberFault e ∨ ∃ c, e = .calendar c

theorem meets_implied {text : String} (hline : text.toList.getLast? ≠ some '\n') :
    Meets (scalar (scalarKind text) text) (fun _ => True) IsImpliedFault := by
  have hhead : ∀ {r : List Char}, text.toList.reverse ≠ '\n' :: r := by
    intro r hr
    rw [← List.head?_reverse, hr] at hline
    exact hline rfl
  have hkind : scalarKind text = implicitKind text.toList := by
    unfold scalarKind
    split
    · next heq => exact absurd heq hhead
    · next heq => exact absurd heq hhead
    · rfl
  have hwhole : withoutLineEnd text = text.toList := by
    unfold withoutLineEnd
    split
    · next heq => exact absurd heq hhead
    · rfl
  have hform := hasForm_implicitKind text.toList
  rw [hkind]
  generalize implicitKind text.toList = kind at hform
  cases kind with
  | text | null => exact meets_pure trivial
  | bool =>
    refine (meets_bool text).mono (fun _ h => h) fun e he => ?_
    have hsome := lookup_of_spells hform
    rw [he.1] at hsome
    contradiction
  | int =>
    refine (meets_int text).mono (fun _ h => h) fun e he => ?_
    exact .inr (.inr (.inl (he.resolve_left fun h => unsigned_dropLowLines_ne_nil hform h.1)))
  | float =>
    refine (meets_float text).mono (fun _ h => h) fun e he => ?_
    exact .inr ((he.resolve_left fun h => dropLowLines_ne_nil hform h.1).imp_right .inl)
  | timestamp =>
    refine (meets_timestamp text).mono (fun _ h => h) fun e he => ?_
    refine .inr (.inr (.inr (he.resolve_left fun h => ?_)))
    have hscan : Timestamp.isImplicit text.toList := hform
    unfold Timestamp.isImplicit at hscan
    rw [← hwhole, h.1] at hscan
    contradiction
  | binary => exact hform.elim
  | merge | default | indicator => exact meets_throw (.inl rfl)

end Yaml

end GraphPaths
