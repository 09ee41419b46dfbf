import GraphPaths.Proofs.Json.Scalar
import GraphPaths.Yaml.Load
import GraphPaths.Yaml.Printer

/-!
# Numbers, truth values and null

Values without parts that are no texts are written plain and without a tag, and what is read from
their text is the value again (`exists_plainAtom`). The text of a number is a sign and a numeral, which
has no character that a plain scalar could not have (`plain_of_numeral`); it is one of an integer just
if it has no point (`implicitKind_integer`, `implicitKind_real`).
-/

namespace GraphPaths

/-- Whether a value is null, a truth value or a number. -/
def Value.isAtom : Value → Bool
  | .null | .bool _ | .int _ | .float _ => true
  | _ => false

namespace Yaml

open Json (isNumeralChar signChars IsWhole Written)
open Text (IsDigits)

/-- A scalar that is written plain and is read as a value again. -/
structure PlainAtom (v : Value) (s : Scalar) : Prop where
  written : scalarOf v = .ok s
  ne_nil : s.text.toList ≠ []
  plain : (Traits.of s.text.toList).plain
  implicit : implicitKind s.text.toList = s.kind
  read : scalar s.kind s.text = .ok v
  kind : s.kind ≠ .text ∧ s.kind ≠ .binary

/-! ## The characters of numerals -/

theorem facts_of_isNumeralChar {c : Char} (h : isNumeralChar c) : c ≠ ' ' ∧ isBreak c = false ∧
    isPlainChar c ∧ c ≠ ':' ∧ c ≠ '#' ∧ c ≠ '_' := by
  have hlt : c.toNat < 128 := Nat.lt_succ_of_lt (Json.toNat_lt_of_isNumeralChar h).1
  refine Text.forall_ascii (fun c => isNumeralChar c → c ≠ ' ' ∧ isBreak c = false ∧
    isPlainChar c ∧ c ≠ ':' ∧ c ≠ '#' ∧ c ≠ '_') ?_ hlt h
  decide +kernel

theorem hasPair_of_forall {p q : Char → Bool} : ∀ {cs : List Char}, (∀ c ∈ cs, p c = false) →
    hasPair p q cs = false
  | [], _ => rfl
  | [_], _ => rfl
  | a :: b :: r, h => by
    obtain ⟨ha, hr⟩ := List.forall_mem_cons.mp h
    simp only [hasPair, ha, hasPair_of_forall hr, Bool.false_and, Bool.or_false]

theorem hasIndicatorAfter_of_forall : ∀ {cs : List Char} {before : Char},
    (∀ c ∈ cs, c ≠ ':' ∧ c ≠ '#') → hasIndicatorAfter before cs = false
  | [], _, _ => rfl
  | c :: r, before, h => by
    obtain ⟨⟨hcolon, hsign⟩, hr⟩ := List.forall_mem_cons.mp h
    simp only [hasIndicatorAfter, beq_eq_false_iff_ne.mpr hcolon, beq_eq_false_iff_ne.mpr hsign,
      hasIndicatorAfter_of_forall hr, Bool.false_and, Bool.or_false]

theorem hasIndicator_of_numeral (negative : Bool) {c : Char} {cs : List Char} (hc : c.isDigit)
    (hcs : ∀ d ∈ cs, isNumeralChar d) : hasIndicator (signChars negative ++ c :: cs) = false := by
  have hafter : ∀ before, hasIndicatorAfter before cs = false := fun before =>
    hasIndicatorAfter_of_forall fun d hd =>
      let h := facts_of_isNumeralChar (hcs d hd)
      ⟨h.2.2.2.1, h.2.2.2.2.1⟩
  have hdigit : isGap c = false ∧ isLeadIndicator c = false ∧ c ≠ '-' ∧ c ≠ '.' ∧ c ≠ '?' ∧
      c ≠ ':' ∧ c ≠ '#' :=
    Text.forall_digit (fun c => isGap c = false ∧ isLeadIndicator c = false ∧ c ≠ '-' ∧ c ≠ '.' ∧
      c ≠ '?' ∧ c ≠ ':' ∧ c ≠ '#') (by decide +kernel) hc
  obtain ⟨hgap, hlead, hminus, hpoint, hask, hcolon, hsign⟩ := hdigit
  cases negative with
  | false =>
    simp [hasIndicator, List.isPrefixOf, signChars, hafter, hlead, hminus, hask, hcolon,
      hminus.symm, hpoint.symm]
  | true =>
    have hminusLead : isLeadIndicator '-' = false := by decide +kernel
    simp [hasIndicator, List.isPrefixOf, hasIndicatorAfter, signChars, hafter, hgap, hminusLead,
      hcolon, hsign, hminus.symm]

/-- A numeral can be written plain. -/
theorem plain_of_numeral (negative : Bool) {c : Char} {cs : List Char} (hc : c.isDigit)
    (hcs : ∀ d ∈ cs, isNumeralChar d) : (Traits.of (signChars negative ++ c :: cs)).plain := by
  have hindicator := hasIndicator_of_numeral negative hc hcs
  have hchars : ∀ d ∈ signChars negative ++ c :: cs, isNumeralChar d := by
    refine List.forall_mem_append.mpr ⟨Json.isNumeralChar_signChars negative,
      List.forall_mem_cons.mpr ⟨?_, hcs⟩⟩
    simp [isNumeralChar, hc]
  obtain ⟨first, r, hall⟩ : ∃ first r, signChars negative ++ c :: cs = first :: r :=
    List.exists_cons_of_ne_nil (by simp)
  rw [hall] at hchars hindicator ⊢
  have hspace : ∀ d ∈ first :: r, (d == ' ') = false := fun d hd =>
    beq_eq_false_iff_ne.mpr (facts_of_isNumeralChar (hchars d hd)).1
  have hbreak : ∀ d ∈ first :: r, isBreak d = false := fun d hd =>
    (facts_of_isNumeralChar (hchars d hd)).2.1
  have hplain : ((first :: r).any fun d => !isPlainChar d) = false :=
    List.any_eq_false.mpr fun d hd => by simp [(facts_of_isNumeralChar (hchars d hd)).2.2.1]
  have hbreaks : (first :: r).any isBreak = false :=
    List.any_eq_false.mpr fun d hd => by simp [hbreak d hd]
  have hlast : (first :: r).getLastD first ∈ first :: r := by
    rw [List.getLastD_eq_getLast?, List.getLast?_eq_some_getLast (List.cons_ne_nil _ _)]
    exact List.getLast_mem _
  have hfirst : first ∈ first :: r := List.mem_cons_self
  simp only [Traits.of, hasPair_of_forall hspace, hasPair_of_forall hbreak, hplain, hbreaks,
    hindicator, hspace _ hlast, hbreak _ hlast, hspace _ hfirst, hbreak _ hfirst, Bool.or_false,
    Bool.not_false]

/-! ## The kinds of numerals -/

theorem unsigned_numeral (negative : Bool) {c : Char} (hc : c.isDigit) (cs : List Char) :
    unsigned (signChars negative ++ c :: cs) = c :: cs := by
  cases negative with
  | true => rfl
  | false =>
    show unsigned (c :: cs) = _
    unfold unsigned
    split
    · next heq => exact absurd hc ((List.cons.inj heq).1 ▸ by decide)
    · next heq => exact absurd hc ((List.cons.inj heq).1 ▸ by decide)
    · rfl

/-- Words start with letters. -/
theorem not_spells_numeral (negative : Bool) {c : Char} (hc : c.isDigit) (cs : List Char)
    {word : String} (hword : ∀ w ∈ spellings word.toList, w.head?.any isNumeralChar = false) :
    spells (signChars negative ++ c :: cs) word = false := by
  rw [spells, ← Bool.not_eq_true, List.contains_iff_mem]
  intro hmem
  cases negative with
  | false => simpa [signChars, isNumeralChar, hc] using hword _ hmem
  | true => exact absurd (hword _ hmem) (by simp [signChars, isNumeralChar])

/-- A numeral is that of a float or an integer if it has the form of one. -/
theorem implicitKind_of_numeral (negative : Bool) {c : Char} (hc : c.isDigit) (cs : List Char) :
    implicitKind (signChars negative ++ c :: cs) =
      let all := signChars negative ++ c :: cs
      if isFloat all then .float else if isInt all then .int else implicitKind all := by
  have hwords : ∀ w ∈ "null" :: boolWords.map Prod.fst, ∀ s ∈ spellings w.toList,
      s.head?.any isNumeralChar = false := by decide +kernel
  have hspells : ∀ w ∈ "null" :: boolWords.map Prod.fst,
      spells (signChars negative ++ c :: cs) w = false :=
    fun w hw => not_spells_numeral negative hc cs (hwords w hw)
  obtain ⟨hnull, hbool⟩ := List.forall_mem_cons.mp hspells
  have htilde : (signChars negative ++ c :: cs == ['~']) = false := by
    rw [beq_eq_false_iff_ne]
    cases negative with
    | true => simp [signChars]
    | false => exact fun h => absurd hc ((List.cons.inj h).1 ▸ by decide)
  have hisNull : isNull (signChars negative ++ c :: cs) = false := by
    simp [isNull, hnull, htilde]
  have hisBool : (boolWords.any fun w => spells (signChars negative ++ c :: cs) w.1) = false :=
    List.any_eq_false.mpr fun w hw => by
      simp [hbool _ (List.mem_map_of_mem (f := Prod.fst) hw)]
  unfold implicitKind
  simp only [hisNull, hisBool, Bool.false_eq_true, if_false]
  split_ifs <;> rfl

theorem allDigits_of_isDigits {ds : List Char} (h : IsDigits ds) :
    (ds.isEmpty || allDigits 10 ds) = true := by
  unfold allDigits
  cases ds with
  | nil => rfl
  | cons d ds =>
    have hall : (d :: ds).all (fun c => c == '_' ||
        ((Text.hexDigit c).map (decide <| · < 10)).getD false) = true := by
      refine List.all_eq_true.mpr fun c hc => ?_
      rw [Text.hexDigit_of_isDigit (h c hc)]
      exact Text.forall_digit (fun c => (c == '_' ||
        ((some (c.toNat - '0'.toNat)).map (decide <| · < 10)).getD false) = true) (by decide) (h c hc)
    rw [hall]
    rfl

theorem isCount_of_isDigits {c : Char} {ds : List Char} (h : IsDigits (c :: ds)) :
    isCount (c :: ds) := by
  have hrest : IsDigits ds := fun d hd => h d (List.mem_cons_of_mem c hd)
  rw [isCount, Text.asciiDigit_isSome, h c List.mem_cons_self, allDigits_of_isDigits hrest]
  rfl

/-- A whole number is the numeral of an integer. -/
theorem implicitKind_integer (negative : Bool) {ds : List Char} (h : IsWhole ds) :
    implicitKind (signChars negative ++ ds) = .int := by
  have hdigits := h.isDigits
  obtain ⟨c, cs, rfl⟩ := List.exists_cons_of_ne_nil h.ne_nil
  have hc := hdigits c List.mem_cons_self
  have hpoint : (c :: cs).dropWhile (· != '.') = [] :=
    List.dropWhile_eq_nil_iff.mpr fun d hd =>
      Text.forall_digit (fun d => (d != '.') = true) (by decide) (hdigits d hd)
  have hfloat : isFloat (signChars negative ++ c :: cs) = false := by
    unfold isFloat
    simp only [unsigned_numeral negative hc, List.span_eq_takeWhile_dropWhile, hpoint]
  have hint : isInt (signChars negative ++ c :: cs) = true := by
    unfold isInt
    simp only [unsigned_numeral negative hc]
    cases h with
    | nought => rfl
    | digits hc _ =>
      split
      · rfl
      · next heq => exact absurd (List.cons.inj heq).1 hc
      · next heq => exact absurd (List.cons.inj heq).1 hc
      · next heq => exact absurd (List.cons.inj heq).1 hc
      · rw [isCount_of_isDigits hdigits, Bool.true_or]
  rw [implicitKind_of_numeral negative hc]
  simp only [hfloat, hint, Bool.false_eq_true, if_false, if_true]

theorem isExponent_exponentChars {x : Option (Bool × List Char)}
    (hx : ∀ y ∈ x, y.2 ≠ [] ∧ IsDigits y.2) : isExponent (Written.exponentChars x) := by
  cases x with
  | none => rfl
  | some y =>
    obtain ⟨negative, ds⟩ := y
    obtain ⟨hne, hds⟩ : ds ≠ [] ∧ IsDigits ds := hx _ rfl
    have hall : ds.all (fun c => (Text.asciiDigit c).isSome) = true :=
      List.all_eq_true.mpr fun c hc => Text.asciiDigit_isSome.trans (hds c hc)
    have hempty : ds.isEmpty = false := by simpa using hne
    simp only [Written.exponentChars, isExponent, hall, hempty]
    cases negative <;> rfl

/-- A real with a point is the numeral of a float. -/
theorem implicitKind_real (negative : Bool) {w : Written} (hw : w.IsReal) (hpoint : w.fraction ≠ []) :
    implicitKind (signChars negative ++ w.chars) = .float := by
  obtain ⟨d, ds, hfraction⟩ := List.exists_cons_of_ne_nil hpoint
  have hwhole : ∀ c ∈ w.whole, (c != '.') = true := fun c hc =>
    Text.forall_digit (fun c => (c != '.') = true) (by decide) (hw.whole.isDigits c hc)
  have hdigits : ∀ c ∈ w.fraction, isFloatDigit c := fun c hc => by
    rw [isFloatDigit, Text.asciiDigit_isSome, hw.fraction c hc, Bool.or_true]
  -- the whole part stands before the point, and behind the fraction comes the exponent
  have hchars : w.chars = w.whole ++ '.' :: (w.fraction ++ Written.exponentChars w.exponent) := by
    rw [Written.chars, hfraction]
    simp [Written.fractionChars]
  have hspan : w.chars.span (· != '.') =
      (w.whole, '.' :: (w.fraction ++ Written.exponentChars w.exponent)) := by
    rw [hchars, List.span_eq_takeWhile_dropWhile, List.takeWhile_append_of_pos hwhole,
      List.dropWhile_append_of_pos hwhole, List.takeWhile_cons_of_neg (by decide),
      List.dropWhile_cons_of_neg (by decide), List.append_nil]
  have htail : (w.fraction ++ Written.exponentChars w.exponent).dropWhile isFloatDigit =
      Written.exponentChars w.exponent := by
    rw [List.dropWhile_append_of_pos hdigits]
    cases w.exponent <;> rfl
  have hcount : isCount w.whole := by
    have hall := hw.whole.isDigits
    obtain ⟨c, cs, hcs⟩ := List.exists_cons_of_ne_nil hw.whole.ne_nil
    rw [hcs] at hall ⊢
    exact isCount_of_isDigits hall
  have hexponent : isExponent (Written.exponentChars w.exponent) := isExponent_exponentChars hw.exponent
  obtain ⟨c, cs, hcs, hc⟩ := Written.exists_chars_cons hw
  have hfloat : isFloat (signChars negative ++ w.chars) = true := by
    unfold isFloat
    rw [hcs, unsigned_numeral negative hc, ← hcs]
    simp only [hspan, htail, hcount, hexponent, Bool.and_true, Bool.true_or]
  rw [hcs] at hfloat ⊢
  rw [implicitKind_of_numeral negative hc]
  simp only [hfloat, if_true]

/-! ## What numerals are read as -/

theorem splitSign_numeral (negative : Bool) {c : Char} (hc : c.isDigit) (cs : List Char) :
    splitSign (signChars negative ++ c :: cs) = .ok (negative, c :: cs) := by
  cases negative with
  | true => rfl
  | false =>
    show splitSign (c :: cs) = _
    unfold splitSign
    split
    · next heq => exact absurd heq (List.cons_ne_nil _ _)
    · next heq => exact absurd hc ((List.cons.inj heq).1 ▸ by decide)
    · next heq => exact absurd hc ((List.cons.inj heq).1 ▸ by decide)
    · rfl

theorem dropLowLines_of_numeral {cs : List Char} (h : ∀ c ∈ cs, isNumeralChar c) :
    dropLowLines (String.ofList cs) = cs := by
  rw [dropLowLines, String.toList_ofList]
  exact List.filter_eq_self.mpr fun c hc => bne_iff_ne.mpr (facts_of_isNumeralChar (h c hc)).2.2.2.2.2

theorem contains_colon_of_numeral {cs : List Char} (h : ∀ c ∈ cs, isNumeralChar c) :
    cs.contains ':' = false := by
  rw [← Bool.not_eq_true, List.contains_iff_mem]
  exact fun hmem => (facts_of_isNumeralChar (h _ hmem)).2.2.2.1 rfl

theorem isNumeralChar_signed (negative : Bool) {cs : List Char} (h : ∀ c ∈ cs, isNumeralChar c) :
    ∀ c ∈ signChars negative ++ cs, isNumeralChar c :=
  List.forall_mem_append.mpr ⟨Json.isNumeralChar_signChars negative, h⟩

theorem unsignedInt_whole {ds : List Char} (h : IsWhole ds) (hlength : ds.length ≤ digitLimit) :
    unsignedInt ds = .ok (Nat.ofDigitChars 10 ds 0 : Int) := by
  have hint : Numeral.int 10 (String.ofList (signChars false ++ ds)) =
      .ok (Nat.ofDigitChars 10 ds 0 : Int) := by
    rw [Json.int_chars false h.isDigits h.ne_nil, if_neg (Nat.not_lt.mpr hlength)]
    rfl
  have hnumeral : numeral 10 ds = .ok (Nat.ofDigitChars 10 ds 0 : Int) := by
    unfold numeral
    rw [← List.nil_append ds]
    rw [show ([] : List Char) = signChars false from rfl, hint]
    rfl
  have hcolon := contains_colon_of_numeral (Json.isNumeralChar_of_isDigits h.isDigits)
  cases h with
  | nought => rfl
  | digits hc _ =>
    unfold unsignedInt
    split
    · next heq => exact absurd (List.cons.inj heq).1 hc
    · next heq => exact absurd (List.cons.inj heq).1 hc
    · next heq => exact absurd (List.cons.inj heq).1 hc
    · next heq => exact absurd (List.cons.inj heq).1 hc
    · next heq => exact absurd heq (List.cons_ne_nil _ _)
    · rw [hcolon, if_neg Bool.false_ne_true, hnumeral]

/-- The numeral of an integer is read as the integer. -/
theorem int_integer {i : Int} (h : (Nat.toDigits 10 i.natAbs).length ≤ digitLimit) :
    int (String.ofList (signChars (decide (i < 0)) ++ Nat.toDigits 10 i.natAbs)) = .ok (.int i) := by
  have hdigits := Text.isDigits_toDigits i.natAbs
  have hread := unsignedInt_whole (Json.isWhole_toDigits i.natAbs) h
  rw [Nat.ofDigitChars_ten_toDigits] at hread
  unfold int
  rw [dropLowLines_of_numeral (isNumeralChar_signed _ (Json.isNumeralChar_of_isDigits hdigits))]
  obtain ⟨c, cs, hcs⟩ := List.exists_cons_of_ne_nil (Nat.toDigits_ne_nil (b := 10) (n := i.natAbs))
  rw [hcs] at hdigits hread ⊢
  rw [splitSign_numeral _ (hdigits c List.mem_cons_self)]
  show (unsignedInt (c :: cs) >>= _) = _
  rw [hread]
  show Except.ok (Value.int (if decide (i < 0) = true then -(i.natAbs : Int) else i.natAbs)) = _
  congr 2
  split
  · next hi => have := of_decide_eq_true hi; omega
  · next hi => have : ¬i < 0 := fun h => hi (decide_eq_true h); omega

/-- Nothing in a real is a capital. -/
theorem map_lowerChar_chars {w : Written} (hw : w.IsReal) : w.chars.map Text.lowerChar = w.chars := by
  have hdigits : ∀ {ds : List Char}, IsDigits ds → ∀ c ∈ ds, Text.lowerChar c = c := fun h c hc =>
    Text.forall_digit (fun c => Text.lowerChar c = c) (by decide) (h c hc)
  have hfraction : ∀ c ∈ Written.fractionChars w.fraction, Text.lowerChar c = c := by
    have hall := hdigits hw.fraction
    cases hcs : w.fraction with
    | nil => exact nofun
    | cons c cs => exact List.forall_mem_cons.mpr ⟨by decide, hcs ▸ hall⟩
  have hexponent : ∀ c ∈ Written.exponentChars w.exponent, Text.lowerChar c = c := by
    have hall := hw.exponent
    cases hx : w.exponent with
    | none => exact nofun
    | some x =>
      refine List.forall_mem_cons.mpr ⟨by decide, List.forall_mem_cons.mpr ⟨?_, ?_⟩⟩
      · split <;> decide
      · exact hdigits (hall x hx).2
  rw [List.map_congr_left (g := id) ?_, List.map_id]
  unfold Written.chars
  exact List.forall_mem_append.mpr ⟨List.forall_mem_append.mpr
    ⟨hdigits hw.whole.isDigits, hfraction⟩, hexponent⟩

/-- A real is read as the number nearest to the decimal that its parts tell. -/
theorem float_real (negative : Bool) {w : Written} (hw : w.IsReal) :
    float (String.ofList (signChars negative ++ w.chars)) =
      .ok (.float (let x := .ofDecimal false w.digits w.power; if negative then x.neg else x)) := by
  have hchars := Written.isNumeralChar_chars hw
  have hreal := Written.real_chars hw false
  have hcolon := contains_colon_of_numeral hchars
  have hascii : ∀ c ∈ signChars negative ++ w.chars, c.toNat < 128 := fun c hc =>
    Nat.lt_succ_of_lt (Json.toNat_lt_of_isNumeralChar (isNumeralChar_signed negative hchars c hc)).1
  have hlower : Text.lower (String.ofList (signChars negative ++ w.chars)) =
      String.ofList (signChars negative ++ w.chars) := by
    unfold Text.lower
    rw [String.toList_ofList, Text.lowerFrom_of_ascii _ hascii, List.map_append,
      map_lowerChar_chars hw]
    cases negative <;> rfl
  have hparts : floatParts (String.ofList (signChars negative ++ w.chars)) =
      .ok (negative, w.chars) := by
    unfold floatParts
    rw [dropLowLines_of_numeral (isNumeralChar_signed negative hchars), hlower, String.toList_ofList]
    obtain ⟨c, cs, hcs, hc⟩ := Written.exists_chars_cons hw
    rw [hcs]
    exact splitSign_numeral negative hc cs
  have hunsigned : unsignedFloat w.chars = .ok (.ofDecimal false w.digits w.power) := by
    obtain ⟨c, cs, hcs, hc⟩ := Written.exists_chars_cons hw
    have hword : ∀ word : List Char, (w.chars == '.' :: word) = false := by
      intro word
      rw [beq_eq_false_iff_ne, hcs]
      exact fun h => absurd hc ((List.cons.inj h).1 ▸ by decide)
    have hinf : (w.chars == ".inf".toList) = false := hword _
    have hnan : (w.chars == ".nan".toList) = false := hword _
    unfold unsignedFloat
    rw [hinf, if_neg Bool.false_ne_true, hnan, if_neg Bool.false_ne_true, hcolon,
      if_neg Bool.false_ne_true]
    unfold realNumeral
    rw [← List.nil_append w.chars, show ([] : List Char) = signChars false from rfl, hreal]
    rfl
  unfold float
  rw [hparts]
  show (unsignedFloat w.chars >>= _) = _
  rw [hunsigned]
  rfl

/-! ## Numbers as they are written -/

/-- A real that always has a fraction. -/
def pointed (w : Written) : Written := if w.fraction = [] then { w with fraction := ['0'] } else w

theorem isReal_pointed {w : Written} (hw : w.IsReal) : (pointed w).IsReal ∧
    (pointed w).fraction ≠ [] := by
  unfold pointed
  split
  · exact ⟨⟨hw.whole, Text.isDigits_replicate 1, hw.exponent, .inl (List.cons_ne_nil _ _)⟩,
      List.cons_ne_nil _ _⟩
  · next h => exact ⟨hw, h⟩

theorem value_pointed (w : Written) : (pointed w).value = w.value := by
  unfold pointed
  split
  · next h =>
    have hpower : (10 : ℚ) ^ (Written.exponentValue w.exponent - 1) =
        10 ^ Written.exponentValue w.exponent / 10 := by
      rw [zpow_sub₀ (by norm_num), zpow_one]
    unfold Written.value Written.digits Written.power
    rw [h, Nat.ofDigitChars_append, List.append_nil, List.length_nil, ← List.replicate_one,
      Nat.ofDigitChars_replicate_zero, List.length_replicate]
    push_cast
    rw [hpower, sub_zero]
    ring
  · rfl

/-- The text of a finite number has a point. -/
theorem floatText_eq {s : Bool} {m : Nat} {e : Int} {w : Written} (hw : w.IsReal)
    (h : (Binary64.text (.finite s m e)).toList = signChars s ++ w.chars) :
    floatText (.finite s m e) = String.ofList (signChars s ++ (pointed w).chars) := by
  have htext : floatText (.finite s m e) =
      if (signChars s ++ w.chars).contains '.' then String.ofList (signChars s ++ w.chars)
      else String.ofList ((signChars s ++ w.chars).flatMap fun c =>
        if c == 'e' then ['.', '0', 'e'] else [c]) := by
    rw [← h]
    rfl
  have hdigit : ∀ {ds : List Char}, IsDigits ds → ∀ c ∈ ds, c ≠ '.' ∧ c ≠ 'e' := fun hds c hc =>
    Text.forall_digit (fun c => c ≠ '.' ∧ c ≠ 'e') (by decide) (hds c hc)
  have hsame : ∀ {cs : List Char}, (∀ c ∈ cs, c ≠ '.' ∧ c ≠ 'e') →
      cs.flatMap (fun c => if c == 'e' then ['.', '0', 'e'] else [c]) = cs := by
    intro cs hcs
    conv_rhs => rw [← List.flatMap_singleton' cs]
    exact List.flatMap_congr fun c hc => if_neg (by simpa using (hcs c hc).2)
  rw [htext]
  cases hfraction : w.fraction with
  | cons d ds =>
    have hpoint : '.' ∈ signChars s ++ w.chars := by
      rw [Written.chars, hfraction]
      simp [Written.fractionChars]
    rw [List.contains_iff_mem.mpr hpoint, if_pos rfl, pointed, if_neg (by simp [hfraction])]
  | nil =>
    -- without a fraction there is an exponent, which gets one
    obtain ⟨⟨negative, ds⟩, hexponent⟩ : ∃ x, w.exponent = some x :=
      Option.ne_none_iff_exists'.mp (hw.real.resolve_left (absurd hfraction))
    have hchars : signChars s ++ w.chars =
        signChars s ++ w.whole ++ 'e' :: ((if negative then ['-'] else ['+']) ++ ds) := by
      rw [Written.chars, hfraction, hexponent]
      cases negative <;> simp [Written.fractionChars, Written.exponentChars]
    have hfront : ∀ c ∈ signChars s ++ w.whole, c ≠ '.' ∧ c ≠ 'e' := by
      refine List.forall_mem_append.mpr ⟨?_, hdigit hw.whole.isDigits⟩
      cases s <;> simp [signChars]
    have hback : ∀ c ∈ (if negative then ['-'] else ['+']) ++ ds, c ≠ '.' ∧ c ≠ 'e' := by
      refine List.forall_mem_append.mpr ⟨?_, hdigit (hw.exponent _ hexponent).2⟩
      cases negative <;> simp
    have hpoint : '.' ∉ signChars s ++ w.chars := by
      rw [hchars, List.mem_append, List.mem_cons, not_or, not_or]
      exact ⟨fun h => (hfront _ h).1 rfl, by decide, fun h => (hback _ h).1 rfl⟩
    rw [if_neg fun h => hpoint (List.contains_iff_mem.mp h), hchars, List.flatMap_append,
      List.flatMap_cons, hsame hfront, hsame hback, pointed, if_pos hfraction, Written.chars, hexponent]
    cases negative <;> simp [Written.fractionChars, Written.exponentChars]

/-! ## Values without parts -/

theorem plainAtom_int {i : Int} (h : (Nat.toDigits 10 i.natAbs).length ≤ digitLimit) :
    PlainAtom (.int i)
      ⟨.int, String.ofList (signChars (decide (i < 0)) ++ Nat.toDigits 10 i.natAbs)⟩ := by
  have hdigits := Text.isDigits_toDigits i.natAbs
  have hkind := implicitKind_integer (decide (i < 0)) (Json.isWhole_toDigits i.natAbs)
  have hne := Nat.toDigits_ne_nil (b := 10) (n := i.natAbs)
  refine ⟨?_, by simp [hne], ?_, by rw [String.toList_ofList, hkind], int_integer h, ⟨nofun, nofun⟩⟩
  · rw [scalarOf, Numeral.ofInt, if_neg (Nat.not_lt.mpr h), Json.integerChars_eq]
    rfl
  · obtain ⟨c, cs, hcs⟩ := List.exists_cons_of_ne_nil hne
    rw [String.toList_ofList]
    rw [hcs] at hdigits ⊢
    exact plain_of_numeral _ (hdigits c List.mem_cons_self) fun d hd =>
      Json.isNumeralChar_of_isDigits hdigits d (List.mem_cons_of_mem c hd)

theorem exists_plainAtom_finite {s : Bool} {m : Nat} {e : Int} (h : Binary64.Canonical m e) :
    ∃ scalar, PlainAtom (.float (.finite s m e)) scalar := by
  obtain ⟨w, hw, htext, hround⟩ := Json.exists_written s m e
  obtain ⟨hreal, hpoint⟩ := isReal_pointed hw
  have hkind := implicitKind_real s hreal hpoint
  have hvalue := hround h false (value_pointed w)
  have hchars := Written.isNumeralChar_chars hreal
  obtain ⟨c, cs, hcs, hc⟩ := Written.exists_chars_cons hreal
  refine ⟨⟨.float, String.ofList (signChars s ++ (pointed w).chars)⟩, ?_, by simp [hcs], ?_,
    by rw [String.toList_ofList, hkind], ?_, ⟨nofun, nofun⟩⟩
  · rw [scalarOf, floatText_eq hw htext]
  · rw [String.toList_ofList]
    rw [hcs] at hchars ⊢
    exact plain_of_numeral s hc fun d hd => hchars d (List.mem_cons_of_mem c hd)
  · show float _ = _
    rw [float_real s hreal, hvalue]
    cases s <;> rfl

/-- The words for null, truth values and numbers that are not finite. -/
def wordAtoms : List (Value × Scalar) :=
  [(.null, ⟨.null, "null"⟩), (.bool true, ⟨.bool, "true"⟩), (.bool false, ⟨.bool, "false"⟩),
   (.float .nan, ⟨.float, ".nan"⟩), (.float (.infinite true), ⟨.float, "-.inf"⟩),
   (.float (.infinite false), ⟨.float, ".inf"⟩)]

theorem plainAtom_word {v : Value} {s : Scalar} (h : (v, s) ∈ wordAtoms) : PlainAtom v s := by
  simp only [wordAtoms, List.mem_cons, Prod.mk.injEq, List.not_mem_nil, or_false] at h
  obtain ⟨rfl, rfl⟩ | ⟨rfl, rfl⟩ | ⟨rfl, rfl⟩ | ⟨rfl, rfl⟩ | ⟨rfl, rfl⟩ | ⟨rfl, rfl⟩ := h <;>
    exact ⟨rfl, by decide, by decide +kernel, by decide +kernel, by rfl, by decide⟩

/-- Null, a truth value or a number that can be read back is written plain. -/
theorem exists_plainAtom {v : Value} (hv : Json.hasReading v) (h : v.isAtom) :
    ∃ s, PlainAtom v s := by
  have hword : ∀ {s : Scalar}, (v, s) ∈ wordAtoms → ∃ s, PlainAtom v s :=
    fun h => ⟨_, plainAtom_word h⟩
  cases v with
  | null => exact hword (s := ⟨.null, "null"⟩) (by simp [wordAtoms])
  | bool b =>
    exact hword (s := ⟨.bool, if b then "true" else "false"⟩) (by cases b <;> simp [wordAtoms])
  | int i => exact ⟨_, plainAtom_int (of_decide_eq_true hv)⟩
  | float x =>
    cases x with
    | nan => exact hword (s := ⟨.float, ".nan"⟩) (by simp [wordAtoms])
    | infinite negative =>
      exact hword (s := ⟨.float, if negative then "-.inf" else ".inf"⟩)
        (by cases negative <;> simp [wordAtoms])
    | finite s m e => exact exists_plainAtom_finite (of_decide_eq_true hv)
  | _ => contradiction

end Yaml

end GraphPaths
