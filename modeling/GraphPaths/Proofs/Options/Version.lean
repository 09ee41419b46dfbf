import GraphPaths.Assembly
import GraphPaths.Proofs.Json.Numeral
import GraphPaths.Proofs.Number.Integer
import GraphPaths.Proofs.Text.Parts
import GraphPaths.Proofs.Value.Record

/-!
# The version of the format

The head of a document has a summary from version 3.1 of the format on (`summary_since_31`). A version
is two integers, which the first two parts of its text are numerals of; without a second part the
second integer is nought, and what follows the second part does not count (`IsVersion`). Versions are
in the order of pairs, and a text that names none is not 3.1 or later (`atLeast31_iff`).
-/

namespace GraphPaths

namespace Options

/-! ## What a version is -/

/-- The parts of a text that count for a version. -/
def versionParts (version : String) : List (List Char) := (Text.splitAt '.' version.toList).take 2

/-- The version that parts of a text name. -/
inductive IsVersion : List (List Char) → Int → Int → Prop
  | short {first : List Char} {major : Int} (isInteger : Numeral.IsInteger first major) :
      IsVersion [first] major 0
  | full {first second : List Char} {major minor : Int}
      (major_isInteger : Numeral.IsInteger first major)
      (minor_isInteger : Numeral.IsInteger second minor) : IsVersion [first, second] major minor

theorem versionPart_eq_some_iff {cs : List Char} {i : Int} :
    versionPart cs = some i ↔ Numeral.IsInteger cs i := by
  have hint := @Numeral.int_eq_ok_iff (String.ofList cs) i
  rw [String.toList_ofList] at hint
  rw [← hint, versionPart]
  cases Numeral.int 10 (String.ofList cs) with
  | error e => exact ⟨nofun, nofun⟩
  | ok n => simp [Except.toOption]

theorem isInteger_unique {cs : List Char} {i j : Int} (hi : Numeral.IsInteger cs i)
    (hj : Numeral.IsInteger cs j) : i = j :=
  Option.some.inj ((versionPart_eq_some_iff.mpr hi).symm.trans (versionPart_eq_some_iff.mpr hj))

/-- Parts name one version at most. -/
theorem IsVersion.unique {parts : List (List Char)} {major minor major' minor' : Int}
    (h : IsVersion parts major minor) (h' : IsVersion parts major' minor') :
    major = major' ∧ minor = minor' := by
  cases h with
  | short first => cases h' with
    | short first' => exact ⟨isInteger_unique first first', rfl⟩
  | full first second => cases h' with
    | full first' second' => exact ⟨isInteger_unique first first', isInteger_unique second second'⟩

/-- All parts of a version are numerals. -/
theorem IsVersion.isInteger {parts : List (List Char)} {major minor : Int}
    (h : IsVersion parts major minor) : ∀ part ∈ parts, ∃ i, Numeral.IsInteger part i := by
  cases h with
  | short first => exact List.forall_mem_singleton.mpr ⟨_, first⟩
  | full first second => simpa using ⟨⟨_, first⟩, ⟨_, second⟩⟩

/-- A text is 3.1 or later if it names a version that is. -/
theorem atLeast31_iff {version : String} : atLeast31 version ↔
    ∃ major minor, IsVersion (versionParts version) major minor ∧
      toLex ((3 : Int), (1 : Int)) ≤ toLex (major, minor) := by
  unfold atLeast31 versionParts
  simp only [Prod.Lex.toLex_le_toLex]
  split
  · next hparts => exact absurd hparts (Text.splitAt_ne_nil _)
  · next first hparts =>
    rw [hparts, Option.any_eq_true]
    constructor
    · rintro ⟨major, hmajor, hlt⟩
      exact ⟨major, 0, .short (versionPart_eq_some_iff.mp hmajor), .inl (of_decide_eq_true hlt)⟩
    · rintro ⟨major, minor, ⟨hmajor⟩, hle⟩
      exact ⟨major, versionPart_eq_some_iff.mpr hmajor, decide_eq_true (by omega)⟩
  · next first second rest hparts =>
    rw [hparts]
    split
    · next major minor hmajor hminor =>
      have hversion : IsVersion [first, second] major minor :=
        .full (versionPart_eq_some_iff.mp hmajor) (versionPart_eq_some_iff.mp hminor)
      simp only [Bool.or_eq_true, Bool.and_eq_true, decide_eq_true_eq, beq_iff_eq]
      constructor
      · intro hle
        exact ⟨major, minor, hversion, by omega⟩
      · rintro ⟨major', minor', hversion', hle⟩
        obtain ⟨rfl, rfl⟩ := hversion.unique hversion'
        omega
    · next hnone =>
      refine iff_of_false Bool.false_ne_true ?_
      rintro ⟨major, minor, ⟨⟩ | ⟨hmajor, hminor⟩, -⟩
      exact hnone major minor (versionPart_eq_some_iff.mpr hmajor)
        (versionPart_eq_some_iff.mpr hminor)

theorem atLeast31_of_isVersion {version : String} {major minor : Int}
    (h : IsVersion (versionParts version) major minor) :
    atLeast31 version ↔ toLex ((3 : Int), (1 : Int)) ≤ toLex (major, minor) := by
  rw [atLeast31_iff]
  constructor
  · rintro ⟨major', minor', h', hle⟩
    obtain ⟨rfl, rfl⟩ := h.unique h'
    exact hle
  · exact fun hle => ⟨major, minor, h, hle⟩

/-! ## Versions in decimal -/

/-- A decimal that is not too long, with noughts in front or without, is a numeral. -/
theorem isInteger_decimalPadded {width n : Nat}
    (h : (Text.decimalPadded width n).toList.length ≤ digitLimit) :
    Numeral.IsInteger (Text.decimalPadded width n).toList n := by
  have hread := Json.int_chars false (Text.isDigits_decimalPadded width n)
    (Text.decimalPadded_ne_nil width n)
  rw [if_neg (not_lt.mpr h), Text.ofDigitChars_decimalPadded] at hread
  have hint := Numeral.int_eq_ok_iff.mp hread
  rwa [String.toList_ofList] at hint

theorem notMem_decimalPadded (width n : Nat) : '.' ∉ (Text.decimalPadded width n).toList :=
  fun h => absurd (Text.isDigits_decimalPadded width n '.' h) (by decide)

theorem versionParts_short (width n : Nat) :
    versionParts (Text.decimalPadded width n) = [(Text.decimalPadded width n).toList] := by
  rw [versionParts, Text.splitAt_of_notMem (notMem_decimalPadded width n)]
  rfl

/-- What follows the second part of a version does not count. -/
theorem versionParts_full {width n width' n' : Nat} {version : String}
    (h : version = Text.decimalPadded width n ++ "." ++ Text.decimalPadded width' n' ∨
      ∃ rest, version =
        Text.decimalPadded width n ++ "." ++ Text.decimalPadded width' n' ++ "." ++ rest) :
    versionParts version =
      [(Text.decimalPadded width n).toList, (Text.decimalPadded width' n').toList] := by
  have hdot := notMem_decimalPadded width n
  have hdot' := notMem_decimalPadded width' n'
  have htext : ".".toList = ['.'] := rfl
  unfold versionParts
  rcases h with rfl | ⟨rest, rfl⟩
  · rw [String.toList_append, String.toList_append, htext, List.append_assoc, List.singleton_append,
      Text.splitAt_append _ hdot, Text.splitAt_of_notMem hdot']
    rfl
  · rw [String.toList_append, String.toList_append, String.toList_append, String.toList_append, htext,
      List.append_assoc, List.append_assoc, List.append_assoc, List.singleton_append,
      List.singleton_append, Text.splitAt_append _ hdot, Text.splitAt_append _ hdot']
    rfl

/-! ## The summary -/

/-- The head of a document has a summary if the version of the format is 3.1 or later.

Only the first two parts of the text count, and their values as integers: in decimal they may have
noughts in front, and a version without a second part is that with a nought. Where a part is no
numeral, there is no summary. A version that is later than one with a summary has one. -/
theorem summary_since_31 (o : Options) :
    (o.info.toValue.get? "summary" = if o.supportsInfoSummary then some o.summary else none) ∧
    (∀ o' : Options, versionParts o.openapi = versionParts o'.openapi →
      o.supportsInfoSummary = o'.supportsInfoSummary) ∧
    (∀ width major width' minor : Nat,
      (Text.decimalPadded width major).toList.length ≤ digitLimit →
      (Text.decimalPadded width' minor).toList.length ≤ digitLimit →
      (o.openapi = Text.decimalPadded width major ++ "." ++ Text.decimalPadded width' minor ∨
        ∃ rest, o.openapi =
          Text.decimalPadded width major ++ "." ++ Text.decimalPadded width' minor ++ "." ++ rest) →
      (o.supportsInfoSummary ↔ toLex (3, 1) ≤ toLex (major, minor))) ∧
    (∀ width major : Nat, (Text.decimalPadded width major).toList.length ≤ digitLimit →
      o.openapi = Text.decimalPadded width major → (o.supportsInfoSummary ↔ 4 ≤ major)) ∧
    (∀ part ∈ versionParts o.openapi, (∀ i, ¬Numeral.IsInteger part i) →
      o.supportsInfoSummary = false) ∧
    (∀ major minor : Int, IsVersion (versionParts o.openapi) major minor →
      (o.supportsInfoSummary ↔ toLex (3, 1) ≤ toLex (major, minor))) ∧
    (∀ (o' : Options) (major minor major' minor' : Int),
      IsVersion (versionParts o.openapi) major minor →
      IsVersion (versionParts o'.openapi) major' minor' →
      toLex (major, minor) ≤ toLex (major', minor') →
      o.supportsInfoSummary → o'.supportsInfoSummary) := by
  unfold supportsInfoSummary
  refine ⟨?info, ?parts, ?full, ?short, ?none, fun _ _ => atLeast31_of_isVersion, ?later⟩
  case info =>
    cases h : o.supportsInfoSummary <;> simp_all [ApiInfo.toValue, info, supportsInfoSummary]
  case parts =>
    intro o' h
    rw [Bool.eq_iff_iff, atLeast31_iff, atLeast31_iff, h]
  case full =>
    intro width major width' minor hmajor hminor h
    have hversion : IsVersion (versionParts o.openapi) major minor :=
      versionParts_full h ▸ .full (isInteger_decimalPadded hmajor) (isInteger_decimalPadded hminor)
    rw [atLeast31_of_isVersion hversion, Prod.Lex.toLex_le_toLex, Prod.Lex.toLex_le_toLex]
    omega
  case short =>
    intro width major hmajor h
    have hversion : IsVersion (versionParts o.openapi) major 0 :=
      h ▸ versionParts_short width major ▸ .short (isInteger_decimalPadded hmajor)
    rw [atLeast31_of_isVersion hversion, Prod.Lex.toLex_le_toLex]
    omega
  case none =>
    intro part hpart hnone
    rw [← Bool.not_eq_true, atLeast31_iff]
    rintro ⟨major, minor, hversion, -⟩
    obtain ⟨i, hi⟩ := hversion.isInteger part hpart
    exact hnone i hi
  case later =>
    intro o' major minor major' minor' hversion hversion' hle h
    exact (atLeast31_of_isVersion hversion').mpr
      (((atLeast31_of_isVersion hversion).mp h).trans hle)

/-- Of two versions the numbers count and not their texts, and a release candidate is of its version. -/
theorem summary_of_versions :
    (∀ version ∈ ["3.10", "3.1.0-rc1", "4", "4.0"],
      { standard with openapi := version }.supportsInfoSummary) ∧
    (∀ version ∈ ["3.0.99", "2.9"],
      { standard with openapi := version }.supportsInfoSummary = false) ∧
    { standard with openapi := "x.1" }.supportsInfoSummary = false := by
  have hfull := fun version width major width' minor =>
    (summary_since_31 { standard with openapi := version }).2.2.1 width major width' minor
  have hshort := fun version width major =>
    (summary_since_31 { standard with openapi := version }).2.2.2.1 width major
  refine ⟨?_, ?_, ?_⟩
  · simp only [List.forall_mem_cons, List.not_mem_nil, false_imp_iff, implies_true, and_true]
    refine ⟨?_, ?_, ?_, ?_⟩
    · exact (hfull "3.10" 0 3 0 10 (by decide) (by decide) (.inl (by decide))).mpr (by decide)
    · exact (hfull "3.1.0-rc1" 0 3 0 1 (by decide) (by decide) (.inr ⟨"0-rc1", by decide⟩)).mpr
        (by decide)
    · exact (hshort "4" 0 4 (by decide) (by decide)).mpr (by decide)
    · exact (hfull "4.0" 0 4 0 0 (by decide) (by decide) (.inl (by decide))).mpr (by decide)
  · simp only [List.forall_mem_cons, List.not_mem_nil, false_imp_iff, implies_true, and_true,
      ← Bool.not_eq_true]
    refine ⟨fun h => ?_, fun h => ?_⟩
    · exact absurd ((hfull "3.0.99" 0 3 0 0 (by decide) (by decide) (.inr ⟨"99", by decide⟩)).mp h)
        (by decide)
    · exact absurd ((hfull "2.9" 0 2 0 9 (by decide) (by decide) (.inl (by decide))).mp h)
        (by decide)
  · have hnone : versionPart ['x'] = none := by decide
    refine (summary_since_31 _).2.2.2.2.1 ['x'] (by decide) fun i hi => ?_
    rw [← versionPart_eq_some_iff, hnone] at hi
    contradiction

end Options

end GraphPaths
