import GraphPaths.FilePath
import GraphPaths.Proofs.Text.Parts

/-!
# The order of paths

Paths are in the order of their names (`le_iff`). A root has slashes and a name has none, so that no
two paths have the same names (`orderKey_inj`): sorted paths are in one order only. Every text is a
path whose names have no slashes (`parted_parse`), and a proper one if it goes nowhere back
(`proper_parse`).
-/

namespace GraphPaths

namespace FilePath

/-! ## Names -/

/-- Whether something in a directory can have a name. -/
def isEntryName (name : String) : Bool :=
  name != "" && name != "." && name != ".." && !name.toList.contains '/'

/-- Whether a name leads on from a directory, or back. -/
def isStepName (name : String) : Bool := isEntryName name || name == ".."

/-- A path that is parted at its slashes; its names may go back. -/
structure Parted (p : FilePath) : Prop where
  root : p.root = "" ∨ p.root = "/" ∨ p.root = "//"
  names : ∀ name ∈ p.names, '/' ∉ name.toList

/-- A path whose names can all be those of something in a directory. -/
structure Proper (p : FilePath) : Prop where
  root : p.root = "" ∨ p.root = "/" ∨ p.root = "//"
  names : ∀ name ∈ p.names, isEntryName name

theorem ne_dots_of_isEntryName {name : String} (h : isEntryName name) : name ≠ ".." := by
  simp only [isEntryName, Bool.and_eq_true, bne_iff_ne] at h
  exact h.1.2

theorem notMem_of_isEntryName {name : String} (h : isEntryName name) : '/' ∉ name.toList := by
  simp only [isEntryName, Bool.and_eq_true, Bool.not_eq_true', List.contains_eq_mem,
    decide_eq_false_iff_not] at h
  exact h.2

theorem Proper.parted {p : FilePath} (hp : p.Proper) : p.Parted :=
  ⟨hp.root, fun name hname => notMem_of_isEntryName (hp.names name hname)⟩

theorem parted_below {p : FilePath} {names : List String} (hp : p.Parted)
    (h : ∀ name ∈ names, isEntryName name) : (p.below names).Parted :=
  ⟨hp.root, fun name hname => (List.mem_append.mp hname).elim (hp.names name)
    fun hmem => notMem_of_isEntryName (h name hmem)⟩

theorem proper_below {p : FilePath} {names : List String} (hp : p.Proper)
    (h : ∀ name ∈ names, isEntryName name) : (p.below names).Proper :=
  ⟨hp.root, fun name hname => (List.mem_append.mp hname).elim (hp.names name) (h name)⟩

/-- The path that a text is has no slashes in its names. -/
theorem parted_parse (text : String) : (parse text).Parted where
  root := by
    show rootOf text.toList = "" ∨ rootOf text.toList = "/" ∨ rootOf text.toList = "//"
    unfold rootOf
    split
    · exact .inl rfl
    · exact .inr (.inr rfl)
    · exact .inr (.inl rfl)
  names name hname := by
    obtain ⟨part, hpart, rfl⟩ := List.mem_map.mp (List.mem_filter.mp hname).1
    rw [String.toList_ofList]
    exact Text.notMem_of_mem_splitAt part hpart

/-- The names of the path that a text is lead on or back. -/
theorem isStepName_parse (text : String) : ∀ name ∈ (parse text).names, isStepName name := by
  intro name hname
  have hslash := (parted_parse text).names name hname
  have hkept := (List.mem_filter.mp hname).2
  simp only [Bool.and_eq_true, bne_iff_ne] at hkept
  by_cases hdots : name = ".."
  · simp [isStepName, hdots]
  · simp [isStepName, isEntryName, hkept.1, hkept.2, hdots, hslash]

/-- The path that a text is has proper names, unless one of them goes back. -/
theorem proper_parse {text : String} (h : ".." ∉ (parse text).names) : (parse text).Proper where
  root := (parted_parse text).root
  names name hname := by
    have hstep := isStepName_parse text name hname
    unfold isStepName at hstep
    exact (Bool.or_eq_true _ _ ▸ hstep).resolve_right fun hdots =>
      h (eq_of_beq hdots ▸ hname)

/-- A path that does not go back has no names to take away. -/
theorem collapse_of_names {p : FilePath} (h : ∀ name ∈ p.names, isEntryName name) :
    p.collapse = p := by
  have hfold : ∀ (names acc : List String), (∀ name ∈ names, isEntryName name) →
      names.foldl (fun acc n => if n == ".." then acc.tail else n :: acc) acc =
        names.reverse ++ acc := by
    intro names
    induction names with
    | nil => exact fun _ _ => rfl
    | cons name names ih =>
      intro acc hnames
      obtain ⟨hname, hnames⟩ := List.forall_mem_cons.mp hnames
      rw [List.foldl_cons, if_neg (by simpa using ne_dots_of_isEntryName hname), ih _ hnames]
      simp
  unfold collapse
  rw [hfold p.names [] h, List.append_nil, List.reverse_reverse]

/-! ## Order -/

/-- Names come before others as lists of texts do. -/
theorem namesLe_iff : ∀ {as bs : List String}, namesLe as bs ↔ as ≤ bs
  | [], bs => iff_of_true rfl (not_lt.mp (List.not_lt_nil bs))
  | a :: as, [] => iff_of_false nofun (not_le.mpr (List.nil_lt_cons a as))
  | a :: as, b :: bs => by
    have hlt : b :: bs < a :: as ↔ b < a ∨ b = a ∧ bs < as := List.cons_lt_cons_iff
    unfold namesLe
    rw [← not_lt, hlt]
    by_cases h : a = b
    · simp [h, namesLe_iff]
    · simp [h, Ne.symm h, lt_iff_le_and_ne]

theorem le_iff {p q : FilePath} : p.le q ↔ p.orderKey ≤ q.orderKey :=
  namesLe_iff

/-- Paths are known by the names that order them. -/
theorem orderKey_inj {p q : FilePath} (hp : p.Parted) (hq : q.Parted)
    (h : p.orderKey = q.orderKey) : p = q := by
  have hslash : ∀ root : String, (root = "/" ∨ root = "//") → '/' ∈ root.toList := by
    rintro root (rfl | rfl) <;> decide
  obtain ⟨root, names⟩ := p
  obtain ⟨root', names'⟩ := q
  simp only [orderKey, beq_iff_eq] at h
  split at h
  · next hroot =>
    split at h
    · next hroot' => rw [hroot, hroot', h]
    · next hroot' =>
      exact absurd (hslash root' (hq.root.resolve_left hroot'))
        (hp.names root' (h ▸ List.mem_cons_self))
  · next hroot =>
    split at h
    · next hroot' =>
      exact absurd (hslash root (hp.root.resolve_left hroot))
        (hq.names root (h ▸ List.mem_cons_self))
    · next hroot' =>
      obtain ⟨rfl, rfl⟩ := List.cons.inj h
      rfl

end FilePath

end GraphPaths
