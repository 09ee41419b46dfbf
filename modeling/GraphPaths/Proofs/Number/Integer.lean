import GraphPaths.Proofs.Text.Character
import GraphPaths.Proofs.Text.Digits

/-!
# Numerals of integers

A text is read as an integer in base ten just if it is a numeral of it (`int_eq_ok_iff`): white space
around a sign, or none, and a row of digits between which single low lines may stand (`IsInteger`).
Digits and white space may be those of any script. They are read through their counterparts in ASCII
(`asciiOf`), which changes neither what is white space nor what a digit is worth.
-/

namespace GraphPaths

namespace Numeral

/-! ## What a numeral is -/

/-- White space that may stand around a numeral: of ASCII only the six blanks. -/
def isSpace (c : Char) : Bool := if c.toNat < 127 then Text.isAsciiBlank c else Text.isBlank c

/-- A sign, and whether it is that of negative numbers. -/
inductive IsSign : List Char → Bool → Prop
  | none : IsSign [] false
  | plus : IsSign ['+'] false
  | minus : IsSign ['-'] true

/-- Digits with their values; a single low line may stand between two of them. -/
inductive IsDigitRow : List Char → List Nat → Prop
  | last {c : Char} {d : Nat} (digit : Text.digitValue c = some d) : IsDigitRow [c] [d]
  | next {c : Char} {d : Nat} {cs : List Char} {ds : List Nat}
      (digit : Text.digitValue c = some d) (rest : IsDigitRow cs ds) : IsDigitRow (c :: cs) (d :: ds)
  | line {c : Char} {d : Nat} {cs : List Char} {ds : List Nat}
      (digit : Text.digitValue c = some d) (rest : IsDigitRow cs ds) :
      IsDigitRow (c :: '_' :: cs) (d :: ds)

/-- A numeral of an integer in base ten, with no more digits than the limit allows. -/
inductive IsInteger : List Char → Int → Prop
  | intro {before sign row after : List Char} {negative : Bool} {ds : List Nat}
      (before_space : ∀ c ∈ before, isSpace c) (sign_isSign : IsSign sign negative)
      (row_isDigitRow : IsDigitRow row ds) (after_space : ∀ c ∈ after, isSpace c)
      (length_le : ds.length ≤ digitLimit) :
      IsInteger (before ++ (sign ++ row) ++ after)
        (if negative then -(ofDigits 10 ds : Int) else ofDigits 10 ds)

theorem isBlank_of_isSpace {c : Char} (h : isSpace c) : Text.isBlank c := by
  unfold isSpace at h
  split at h
  · simp [Text.isBlank, h]
  · exact h

/-! ## Counterparts in ASCII -/

/-- The counterpart of a character in ASCII, if it has one. -/
def asciiOf (c : Char) : Char :=
  if c.toNat < 127 then c
  else if Text.isBlank c then ' '
  else match Text.digitValue c with
    | some d => Text.hexChar false d
    | none => c

theorem toAscii_eq_map (cs : List Char) : toAscii cs = cs.map asciiOf := rfl

theorem toAscii_append (cs ds : List Char) : toAscii (cs ++ ds) = toAscii cs ++ toAscii ds :=
  List.map_append

/-- White space is no digit. -/
theorem digitValue_of_isBlank {c : Char} (h : Text.isBlank c) : Text.digitValue c = none := by
  have htables : ∀ n ∈ Text.blankNumbers, ∀ z ∈ Text.noughts, ¬(z ≤ n ∧ n ≤ z + 9) := by
    decide +kernel
  unfold Text.digitValue
  rw [Option.map_eq_none_iff, List.find?_eq_none]
  intro z hz
  simpa using htables c.toNat (Text.isBlank_iff.mp h) z hz

theorem digitValue_lt {c : Char} {d : Nat} (h : Text.digitValue c = some d) : d < 10 := by
  obtain ⟨z, hz, rfl⟩ := Option.map_eq_some_iff.mp h
  have hfound := List.find?_some hz
  simp only [Bool.and_eq_true, decide_eq_true_eq] at hfound
  omega

/-- A character of ASCII counts as what it is. -/
theorem asciiOf_of_lt {c : Char} (h : c.toNat < 127) : asciiOf c = c := if_pos h

/-- Beyond ASCII there are white space, digits, and characters without a counterpart. -/
theorem asciiOf_cases {c : Char} (h : 127 ≤ c.toNat) :
    (Text.isBlank c ∧ asciiOf c = ' ') ∨
    (Text.isBlank c = false ∧ ∃ d, Text.digitValue c = some d ∧ asciiOf c = Text.hexChar false d) ∨
    (Text.isBlank c = false ∧ Text.digitValue c = none ∧ asciiOf c = c) := by
  unfold asciiOf
  rw [if_neg (by omega)]
  cases hblank : Text.isBlank c with
  | true => exact .inl ⟨rfl, if_pos rfl⟩
  | false =>
    rw [if_neg Bool.false_ne_true]
    cases Text.digitValue c with
    | some d => exact .inr (.inl ⟨rfl, d, rfl, rfl⟩)
    | none => exact .inr (.inr ⟨rfl, rfl, rfl⟩)

/-- A digit in ASCII is no white space and no sign. -/
theorem hexChar_facts {d : Nat} (h : d < 10) : Text.isAsciiBlank (Text.hexChar false d) = false ∧
    Text.hexChar false d ∉ ['_', '+', '-'] := by
  have hall : ∀ d : Fin 10, Text.isAsciiBlank (Text.hexChar false d.val) = false ∧
      Text.hexChar false d.val ∉ ['_', '+', '-'] := by decide
  exact hall ⟨d, h⟩

theorem isAsciiBlank_asciiOf (c : Char) : Text.isAsciiBlank (asciiOf c) = isSpace c := by
  unfold isSpace
  rcases Nat.lt_or_ge c.toNat 127 with hc | hc
  · rw [asciiOf_of_lt hc, if_pos hc]
  · rw [if_neg (by omega)]
    rcases asciiOf_cases hc with ⟨hblank, heq⟩ | ⟨hblank, d, hd, heq⟩ | ⟨hblank, -, heq⟩
    · rw [heq, hblank]
      rfl
    · rw [heq, hblank, (hexChar_facts (digitValue_lt hd)).1]
    · have hnone : Text.isAsciiBlank c = false := by
        rw [← Bool.not_eq_true, Text.isAsciiBlank]
        simp only [Bool.or_eq_true, beq_iff_eq, Bool.and_eq_true, decide_eq_true_eq,
          Text.charLe_iff, Text.charEq_iff, Char.reduceToNat]
        omega
      rw [heq, hblank, hnone]

/-- A low line and a sign are the counterparts of themselves alone. -/
theorem asciiOf_eq_iff {c m : Char} (hm : m ∈ ['_', '+', '-']) : asciiOf c = m ↔ c = m := by
  rcases Nat.lt_or_ge c.toNat 127 with hc | hc
  · rw [asciiOf_of_lt hc]
  · have hlt : m.toNat < 127 := by
      have hall : ∀ m ∈ ['_', '+', '-'], m.toNat < 127 := by simp
      exact hall m hm
    have hne : c ≠ m := fun h => absurd (h ▸ hc) (by omega)
    refine iff_of_false (fun h => ?_) hne
    rcases asciiOf_cases hc with ⟨-, heq⟩ | ⟨-, d, hd, heq⟩ | ⟨-, -, heq⟩
    · have hspace : ' ' ∉ ['_', '+', '-'] := by simp
      exact hspace (heq ▸ h ▸ hm)
    · exact (hexChar_facts (digitValue_lt hd)).2 (heq ▸ h ▸ hm)
    · exact hne (heq ▸ h)

/-- The counterpart of a character is a decimal digit of its value, or none if it is no digit. -/
theorem hexDigit_asciiOf (c : Char) :
    (Text.hexDigit (asciiOf c)).filter (· < 10) = Text.digitValue c := by
  rcases Nat.lt_or_ge c.toNat 127 with hc | hc
  · rw [asciiOf_of_lt hc]
    refine Text.forall_ascii (fun c => (Text.hexDigit c).filter (· < 10) = Text.digitValue c) ?_
      (by omega)
    decide +kernel
  · rcases asciiOf_cases hc with ⟨hblank, heq⟩ | ⟨-, d, hd, heq⟩ | ⟨-, hnone, heq⟩
    · rw [heq, digitValue_of_isBlank hblank]
      rfl
    · have hlt := digitValue_lt hd
      rw [heq, hd, Text.hexDigit_hexChar false (by omega)]
      simpa using hlt
    · have hhex : Text.hexDigit c = none := by
        unfold Text.hexDigit
        simp only [Text.charLe_iff, Char.reduceToNat]
        rw [if_neg (by omega), if_neg (by omega), if_neg (by omega)]
      rw [heq, hhex, hnone]
      rfl

/-! ## Rows of digits -/

theorem digits_digit {c : Char} {d : Nat} (h : Text.digitValue c = some d) (after : Bool)
    (cs : List Char) : digits 10 after (asciiOf c :: cs) = (digits 10 true cs).map (d :: ·) := by
  have hline : (asciiOf c == '_') = false := by
    rw [beq_eq_false_iff_ne, Ne, asciiOf_eq_iff List.mem_cons_self]
    rintro rfl
    have hnone : Text.digitValue '_' = none := by decide
    rw [hnone] at h
    contradiction
  obtain ⟨hhex, hlt⟩ := Option.filter_eq_some_iff.mp ((hexDigit_asciiOf c).trans h)
  rw [digits]
  simp only [hline, hhex, if_pos (of_decide_eq_true hlt)]
  rfl

/-- What is neither a digit nor a low line cannot be read. -/
theorem digits_other {c : Char} (hline : c ≠ '_') (h : Text.digitValue c = none) (after : Bool)
    (cs : List Char) : digits 10 after (asciiOf c :: cs) = none := by
  have hne : (asciiOf c == '_') = false := by
    rw [beq_eq_false_iff_ne, Ne, asciiOf_eq_iff List.mem_cons_self]
    exact hline
  have hfilter := (hexDigit_asciiOf c).trans h
  rw [digits]
  simp only [hne, Bool.false_eq_true, if_false]
  cases hhex : Text.hexDigit (asciiOf c) with
  | none => rfl
  | some d =>
    rw [hhex, Option.filter_eq_none_iff] at hfilter
    exact if_neg fun hlt => hfilter d rfl (decide_eq_true hlt)

/-- A row of digits is read into their values, whatever stands in front of it. -/
theorem digits_of_isDigitRow {cs : List Char} {ds : List Nat} (h : IsDigitRow cs ds) :
    ∀ after, digits 10 after (toAscii cs) = some ds := by
  induction h with
  | last digit =>
    intro after
    exact digits_digit digit after []
  | next digit _ ih =>
    intro after
    rw [toAscii_eq_map, List.map_cons, digits_digit digit, ← toAscii_eq_map, ih true]
    rfl
  | line digit _ ih =>
    intro after
    rw [toAscii_eq_map, List.map_cons, List.map_cons, digits_digit digit, ← toAscii_eq_map,
      asciiOf_of_lt (by decide), digits, if_pos (by decide), if_pos rfl, ih false]
    rfl

/-- What is read into values is a row of digits, or what may follow a digit in one. -/
theorem isDigitRow_of_digits : ∀ {cs : List Char} {after : Bool} {ds : List Nat},
    digits 10 after (toAscii cs) = some ds → IsDigitRow cs ds ∨
      (after ∧ cs = [] ∧ ds = []) ∨ (after ∧ ∃ rest, cs = '_' :: rest ∧ IsDigitRow rest ds)
  | [], after, ds, h => by
    cases after with
    | false => contradiction
    | true => exact .inr (.inl ⟨rfl, rfl, (Option.some.inj h).symm⟩)
  | c :: cs, after, ds, h => by
    rw [toAscii_eq_map, List.map_cons, ← toAscii_eq_map] at h
    by_cases hline : c = '_'
    · rw [hline, asciiOf_of_lt (by decide), digits, if_pos (by decide)] at h
      cases after with
      | false => contradiction
      | true =>
        refine .inr (.inr ⟨rfl, cs, by rw [hline], ?_⟩)
        rcases isDigitRow_of_digits h with hrow | ⟨hfalse, -⟩ | ⟨hfalse, -⟩
        · exact hrow
        · contradiction
        · contradiction
    · left
      cases hd : Text.digitValue c with
      | none =>
        rw [digits_other hline hd] at h
        contradiction
      | some d =>
        rw [digits_digit hd] at h
        obtain ⟨ds, hds, rfl⟩ := Option.map_eq_some_iff.mp h
        rcases isDigitRow_of_digits hds with hrow | ⟨-, rfl, rfl⟩ | ⟨-, rest, rfl, hrow⟩
        · exact .next hd hrow
        · exact .last hd
        · exact .line hd hrow

theorem digits_eq_some_iff {cs : List Char} {ds : List Nat} :
    digits 10 false (toAscii cs) = some ds ↔ IsDigitRow cs ds := by
  refine ⟨fun h => ?_, fun h => digits_of_isDigitRow h false⟩
  rcases isDigitRow_of_digits h with hrow | ⟨hfalse, -⟩ | ⟨hfalse, -⟩
  · exact hrow
  · contradiction
  · contradiction

/-! ## Integers -/

/-- A sign is taken off the text that it stands in front of. -/
theorem sign_append_of_isSign {s row : List Char} {negative : Bool} (hs : IsSign s negative)
    (hrow : ∀ c ∈ row.head?, c ≠ '+' ∧ c ≠ '-') : sign (s ++ row) = (negative, row) := by
  cases hs with
  | plus => rfl
  | minus => rfl
  | none =>
    unfold sign
    split
    · next heq => exact absurd rfl (hrow '-' (by rw [← List.nil_append row, heq]; rfl)).2
    · next heq => exact absurd rfl (hrow '+' (by rw [← List.nil_append row, heq]; rfl)).1
    · rfl

/-- What is taken off a text is a sign. -/
theorem exists_isSign (cs : List Char) :
    ∃ s, IsSign s (sign cs).1 ∧ cs = s ++ (sign cs).2 := by
  unfold sign
  split
  · exact ⟨['-'], .minus, rfl⟩
  · exact ⟨['+'], .plus, rfl⟩
  · exact ⟨[], .none, rfl⟩

/-- The counterparts of a text are a sign just if the text is. -/
theorem isSign_toAscii_iff {s : List Char} {negative : Bool} :
    IsSign (toAscii s) negative ↔ IsSign s negative := by
  have hplus : asciiOf '+' = '+' := asciiOf_of_lt (by decide)
  have hminus : asciiOf '-' = '-' := asciiOf_of_lt (by decide)
  rw [toAscii_eq_map]
  constructor
  · intro h
    generalize hs : s.map asciiOf = s' at h
    cases h with
    | none => exact List.map_eq_nil_iff.mp hs ▸ .none
    | plus =>
      obtain ⟨c, rfl, hc⟩ := List.map_eq_singleton_iff.mp hs
      exact (asciiOf_eq_iff (by simp)).mp hc ▸ .plus
    | minus =>
      obtain ⟨c, rfl, hc⟩ := List.map_eq_singleton_iff.mp hs
      exact (asciiOf_eq_iff (by simp)).mp hc ▸ .minus
  · intro h
    cases h with
    | none => exact .none
    | plus => exact hplus.symm ▸ .plus
    | minus => exact hminus.symm ▸ .minus

theorem isSpace_of_digitValue {c : Char} {d : Nat} (h : Text.digitValue c = some d) :
    isSpace c = false := by
  rw [← Bool.not_eq_true]
  intro hspace
  rw [digitValue_of_isBlank (isBlank_of_isSpace hspace)] at h
  contradiction

theorem IsSign.isSpace {s : List Char} {negative : Bool} (h : IsSign s negative) :
    ∀ c ∈ s, isSpace c = false := by
  cases h with
  | none => exact nofun
  | plus => exact fun c hc => List.mem_singleton.mp hc ▸ by decide
  | minus => exact fun c hc => List.mem_singleton.mp hc ▸ by decide

theorem IsDigitRow.isSpace {cs : List Char} {ds : List Nat} (h : IsDigitRow cs ds) :
    ∀ c ∈ cs, isSpace c = false := by
  induction h with
  | last digit => exact List.forall_mem_singleton.mpr (isSpace_of_digitValue digit)
  | next digit _ ih => exact List.forall_mem_cons.mpr ⟨isSpace_of_digitValue digit, ih⟩
  | line digit _ ih =>
    exact List.forall_mem_cons.mpr
      ⟨isSpace_of_digitValue digit, List.forall_mem_cons.mpr ⟨by decide, ih⟩⟩

/-- A row of digits does not start with a sign. -/
theorem IsDigitRow.head_ne_sign {cs : List Char} {ds : List Nat} (h : IsDigitRow cs ds) :
    ∀ c ∈ (toAscii cs).head?, c ≠ '+' ∧ c ≠ '-' := by
  have hdigit : ∀ {c : Char} {d : Nat}, Text.digitValue c = some d →
      asciiOf c ≠ '+' ∧ asciiOf c ≠ '-' := by
    intro c d hd
    have hsigns : Text.digitValue '+' = none ∧ Text.digitValue '-' = none := by decide
    rw [Ne, Ne, asciiOf_eq_iff (by simp), asciiOf_eq_iff (by simp)]
    constructor <;> rintro rfl <;> simp_all
  cases h with
  | last digit | next digit | line digit =>
    intro c hc
    rw [← Option.some.inj hc]
    exact hdigit digit

/-- Blanks among the counterparts are those of white space. -/
theorem forall_toAscii_iff {cs : List Char} {b : Bool} :
    (∀ c ∈ toAscii cs, Text.isAsciiBlank c = b) ↔ ∀ c ∈ cs, isSpace c = b := by
  simp only [toAscii_eq_map, List.forall_mem_map, isAsciiBlank_asciiOf]

/-- A text is what is left of it between white space. -/
theorem exists_trim (cs : List Char) : ∃ before core after, cs = before ++ core ++ after ∧
    trim (toAscii cs) = toAscii core ∧ (∀ c ∈ before, isSpace c) ∧ ∀ c ∈ after, isSpace c := by
  obtain ⟨before, after, hcs, hbefore, hafter⟩ :=
    Text.exists_stripBy Text.isAsciiBlank (toAscii cs)
  obtain ⟨front, last, rfl, hfront, rfl⟩ := List.map_eq_append_iff.mp hcs
  obtain ⟨first, core, rfl, rfl, hcore⟩ := List.map_eq_append_iff.mp hfront
  exact ⟨first, core, last, rfl, hcore.symm, forall_toAscii_iff.mp hbefore,
    forall_toAscii_iff.mp hafter⟩

theorem trim_padded {before core after : List Char} (hbefore : ∀ c ∈ before, isSpace c)
    (hafter : ∀ c ∈ after, isSpace c) (hcore : ∀ c ∈ core, isSpace c = false) :
    trim (toAscii (before ++ core ++ after)) = toAscii core := by
  rw [toAscii_append, toAscii_append]
  exact Text.stripBy_padded (forall_toAscii_iff.mpr hbefore) (forall_toAscii_iff.mpr hafter)
    (forall_toAscii_iff.mpr hcore)

/-- A text is read as an integer just if it is a numeral of it. -/
theorem int_eq_ok_iff {text : String} {i : Int} :
    int 10 text = .ok i ↔ IsInteger text.toList i := by
  unfold int
  generalize text.toList = cs
  simp only [Text.dropMark_ten, beq_self_eq_true, Bool.true_and, decide_eq_true_eq]
  constructor
  · intro h
    obtain ⟨before, core, after, rfl, htrim, hbefore, hafter⟩ := exists_trim cs
    obtain ⟨sign', hsign, hcore⟩ := exists_isSign (toAscii core)
    rw [htrim] at h
    cases hdigits : digits 10 false (sign (toAscii core)).2 with
    | none => simp [hdigits] at h
    | some ds =>
      simp only [hdigits] at h
      obtain ⟨s, row, rfl, rfl, hrow⟩ := List.map_eq_append_iff.mp hcore
      rw [← hrow] at hdigits
      have hlength : ds.length ≤ digitLimit := by
        by_contra hlt
        rw [if_pos (not_le.mp hlt)] at h
        contradiction
      rw [if_neg (not_lt.mpr hlength)] at h
      rw [← Except.ok.inj h]
      exact .intro hbefore (isSign_toAscii_iff.mp hsign) (digits_eq_some_iff.mp hdigits) hafter
        hlength
  · rintro ⟨hbefore, hsign, hrow, hafter, hlength⟩
    have hcore := List.forall_mem_append.mpr ⟨hsign.isSpace, hrow.isSpace⟩
    rw [trim_padded hbefore hafter hcore, toAscii_append,
      sign_append_of_isSign (isSign_toAscii_iff.mpr hsign) hrow.head_ne_sign]
    simp only [digits_eq_some_iff.mpr hrow, if_neg (not_lt.mpr hlength)]

end Numeral

end GraphPaths
