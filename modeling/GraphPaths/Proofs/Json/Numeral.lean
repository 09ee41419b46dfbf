import GraphPaths.Json.Reader
import GraphPaths.Proofs.Json.Number
import GraphPaths.Proofs.Text.Character

/-!
# Numbers that are read from JSON

The numeral of an integer is read as the integer (`numberAt_integer`) and a real as the number
nearest to the decimal that its parts tell (`numberAt_real`), whatever follows, so long as it does
not go on with the number (`EndsNumber`).
-/

namespace GraphPaths

namespace Json

open Text (IsDigits NoDigit digitValues)

/-! ## Numerals -/

/-- Characters that numerals are written with. -/
def isNumeralChar (c : Char) : Bool := c.isDigit || ['+', '-', '.', 'e', 'E'].contains c

theorem toNat_lt_of_isNumeralChar {c : Char} (h : isNumeralChar c) :
    c.toNat < 127 ∧ Text.isAsciiBlank c = false := by
  have hdigit : c.isDigit → c.toNat < 127 ∧ Text.isAsciiBlank c = false :=
    Text.forall_digit (fun c => c.toNat < 127 ∧ Text.isAsciiBlank c = false) (by decide)
  simp only [isNumeralChar, Bool.or_eq_true, List.contains_iff_mem, List.mem_cons,
    List.not_mem_nil, or_false] at h
  rcases h with h | rfl | rfl | rfl | rfl | rfl
  · exact hdigit h
  all_goals decide

/-- A numeral is read as it stands. -/
theorem trim_toAscii {cs : List Char} (h : ∀ c ∈ cs, isNumeralChar c) :
    Numeral.trim (Numeral.toAscii cs) = cs := by
  have hascii : Numeral.toAscii cs = cs := by
    unfold Numeral.toAscii
    rw [List.map_congr_left fun c hc => if_pos (toNat_lt_of_isNumeralChar (h c hc)).1, List.map_id']
  rw [hascii]
  exact Text.stripBy_of_none fun c hc => (toNat_lt_of_isNumeralChar (h c hc)).2

theorem isNumeralChar_of_isDigits {cs : List Char} (h : IsDigits cs) :
    ∀ c ∈ cs, isNumeralChar c := fun c hc => by simp [isNumeralChar, h c hc]

/-- A sign is read in front of what does not start with one. -/
theorem sign_append (negative : Bool) {c : Char} (hc : c.isDigit) (cs : List Char) :
    Numeral.sign (signChars negative ++ c :: cs) = (negative, c :: cs) := by
  cases negative with
  | true => rfl
  | false =>
    show Numeral.sign (c :: cs) = _
    unfold Numeral.sign
    split
    · next heq => exact absurd hc ((List.cons.inj heq).1 ▸ by decide)
    · next heq => exact absurd hc ((List.cons.inj heq).1 ▸ by decide)
    · rfl

theorem isNumeralChar_signChars (negative : Bool) : ∀ c ∈ signChars negative, isNumeralChar c := by
  cases negative with
  | false => exact nofun
  | true => exact fun c hc => List.mem_singleton.mp hc ▸ rfl

theorem IsWhole.isDigits {cs : List Char} (h : IsWhole cs) : IsDigits cs := by
  cases h with
  | nought => exact Text.isDigits_replicate 1
  | digits _ h => exact h

theorem IsWhole.ne_nil {cs : List Char} (h : IsWhole cs) : cs ≠ [] := by
  cases h <;> exact nofun

/-- Digits tell an integer, unless there are too many. -/
theorem int_chars (negative : Bool) {cs : List Char} (hcs : IsDigits cs) (hne : cs ≠ []) :
    Numeral.int 10 (String.ofList (signChars negative ++ cs)) =
      if digitLimit < cs.length then .error (.tooManyDigits cs.length)
      else .ok (if negative then -(Nat.ofDigitChars 10 cs 0 : Int) else Nat.ofDigitChars 10 cs 0) := by
  have htrim : Numeral.trim (Numeral.toAscii (signChars negative ++ cs)) = signChars negative ++ cs :=
    trim_toAscii fun c hc => (List.mem_append.mp hc).elim (isNumeralChar_signChars _ c)
      (isNumeralChar_of_isDigits hcs c)
  have hread := @Text.digits_of_isDigits _ false hcs fun h => absurd h hne
  have hlength : (digitValues cs).length = cs.length := List.length_map _
  unfold Numeral.int
  rw [String.toList_ofList, htrim]
  obtain ⟨c, cs, rfl⟩ := List.exists_cons_of_ne_nil hne
  simp only [sign_append _ (hcs c List.mem_cons_self), Text.dropMark_ten, hread, beq_self_eq_true,
    Bool.true_and, decide_eq_true_eq, Text.ofDigits_digitValues, hlength]

/-- What is read as a real without a sign is read with one. -/
theorem real_of_unsignedReal (negative : Bool) {c : Char} {cs : List Char} {x : Binary64}
    (hc : c.isDigit) (hchars : ∀ d ∈ c :: cs, isNumeralChar d)
    (hread : Numeral.unsignedReal negative (c :: cs) = some x) :
    Numeral.real (String.ofList (signChars negative ++ c :: cs)) = .ok x := by
  have htrim : Numeral.trim (Numeral.toAscii (signChars negative ++ c :: cs)) =
      signChars negative ++ c :: cs :=
    trim_toAscii fun d hd => (List.mem_append.mp hd).elim (isNumeralChar_signChars _ d) (hchars d)
  unfold Numeral.real
  rw [String.toList_ofList, htrim]
  -- the words that are read as reals start with letters
  have hword : ∀ {d : Char} {ds : List Char}, d ∈ ['i', 'n'] →
      (String.ofList ((c :: cs).map fun c => if 'A' ≤ c ∧ c ≤ 'Z' then Char.ofNat (c.toNat + 32)
        else c) == String.ofList (d :: ds)) = false := by
    intro d ds hd
    rw [beq_eq_false_iff_ne]
    intro h
    have h := (List.cons.inj (String.ofList_injective h)).1
    simp only at h
    refine absurd hd ?_
    rw [← h]
    exact Text.forall_digit (fun c => (if 'A' ≤ c ∧ c ≤ 'Z' then Char.ofNat (c.toNat + 32) else c) ∉
      ['i', 'n']) (by decide) hc
  have hinf := @hword 'i' ['n', 'f'] (by decide)
  have hinfinity := @hword 'i' ['n', 'f', 'i', 'n', 'i', 't', 'y'] (by decide)
  have hnan := @hword 'n' ['a', 'n'] (by decide)
  simp only [sign_append negative hc, hread]
  rw [if_neg (by rw [Bool.or_eq_true]; exact not_or.mpr ⟨ne_true_of_eq_false hinf,
    ne_true_of_eq_false hinfinity⟩), if_neg (ne_true_of_eq_false hnan)]

/-- An exponent tells the number of its digits. -/
theorem exponent_digits {e : Char} {cs ds : List Char} {negative : Bool}
    (he : (e == 'e' || e == 'E') = true) (hsign : Numeral.sign cs = (negative, ds))
    (hds : IsDigits ds) (hne : ds ≠ []) : Numeral.exponent (e :: cs) =
      some (if negative then -(Nat.ofDigitChars 10 ds 0 : Int) else Nat.ofDigitChars 10 ds 0) := by
  have hread : Numeral.leadingDigits ds = (digitValues ds, []) := by
    have := @Text.digitsFrom_append ds [] false hds nofun nofun
    rwa [List.append_nil] at this
  have hvalues : digitValues ds ≠ [] := fun h => hne (List.map_eq_nil_iff.mp h)
  unfold Numeral.exponent
  simp only [he, if_true, hsign, hread]
  obtain ⟨v, vs, hv⟩ := List.exists_cons_of_ne_nil hvalues
  rw [hv, ← Text.ofDigits_digitValues, hv]

/-- The digits of a real are read up to the point, and from there to what follows. -/
theorem unsignedReal_parts (negative : Bool) {whole ds es : List Char} {e : Int}
    (hwhole : IsDigits whole) (hne : whole ≠ []) (hds : IsDigits ds) (hdigit : NoDigit es)
    (hline : es.head? ≠ some '_') (hpoint : ∀ cs, es ≠ '.' :: cs)
    (he : Numeral.exponent es = some e) :
    Numeral.unsignedReal negative (whole ++ Written.fractionChars ds ++ es) =
      some (.ofDecimal negative (Nat.ofDigitChars 10 (whole ++ ds) 0) (e - ds.length)) := by
  have hvalues : digitValues whole ≠ [] := fun h => hne (List.map_eq_nil_iff.mp h)
  unfold Numeral.unsignedReal
  rw [← Text.ofDigits_digitValues]
  cases ds with
  | nil =>
    have hread : Numeral.leadingDigits (whole ++ Written.fractionChars [] ++ es) =
        (digitValues whole, es) := by
      rw [List.append_assoc]
      exact Text.digitsFrom_append hwhole hdigit hline
    rw [hread]
    simp only
    rw [if_neg (by simpa using hvalues)]
    simp [he]
  | cons c cs =>
    have hread : Numeral.leadingDigits (whole ++ Written.fractionChars (c :: cs) ++ es) =
        (digitValues whole, Written.fractionChars (c :: cs) ++ es) := by
      rw [List.append_assoc]
      refine Text.digitsFrom_append hwhole (fun d hd => ?_) (by simp [Written.fractionChars])
      obtain rfl := Option.some.inj hd
      rfl
    have hrest : Numeral.leadingDigits (c :: cs ++ es) = (digitValues (c :: cs), es) :=
      Text.digitsFrom_append hds hdigit hline
    rw [hread]
    simp only [Written.fractionChars, List.cons_append] at hrest ⊢
    simp [hrest, he, digitValues]

namespace Written

variable {w : Written} (hw : w.IsReal)
include hw

theorem isNumeralChar_chars : ∀ c ∈ w.chars, isNumeralChar c := by
  have hfraction : ∀ c ∈ fractionChars w.fraction, isNumeralChar c := by
    have hdigits := isNumeralChar_of_isDigits hw.fraction
    cases hcs : w.fraction with
    | nil => exact nofun
    | cons c cs => exact List.forall_mem_cons.mpr ⟨rfl, hcs ▸ hdigits⟩
  have hexponent : ∀ c ∈ exponentChars w.exponent, isNumeralChar c := by
    have hdigits := hw.exponent
    cases hx : w.exponent with
    | none => exact nofun
    | some x =>
      refine List.forall_mem_cons.mpr ⟨rfl, List.forall_mem_cons.mpr ⟨?_, ?_⟩⟩
      · split <;> rfl
      · exact isNumeralChar_of_isDigits (hdigits x hx).2
  unfold chars
  exact List.forall_mem_append.mpr ⟨List.forall_mem_append.mpr
    ⟨isNumeralChar_of_isDigits hw.whole.isDigits, hfraction⟩, hexponent⟩

/-- An exponent that follows digits tells its number. -/
theorem exponent_exponentChars :
    Numeral.exponent (exponentChars w.exponent) = some (exponentValue w.exponent) := by
  have hdigits := hw.exponent
  cases hx : w.exponent with
  | none => rfl
  | some x =>
    obtain ⟨negative, ds⟩ := x
    obtain ⟨hne, hds⟩ : ds ≠ [] ∧ IsDigits ds := hdigits _ hx
    have hsign : Numeral.sign ((if negative then '-' else '+') :: ds) = (negative, ds) := by
      cases negative <;> rfl
    exact exponent_digits rfl hsign hds hne

omit hw in
/-- What stands before an exponent ends there. -/
theorem noDigit_exponentChars :
    NoDigit (exponentChars w.exponent) ∧ (exponentChars w.exponent).head? ≠ some '_' ∧
      ∀ cs, exponentChars w.exponent ≠ '.' :: cs := by
  cases w.exponent with
  | none => exact ⟨nofun, nofun, nofun⟩
  | some x =>
    refine ⟨fun c hc => ?_, by simp [exponentChars], fun cs => by simp [exponentChars]⟩
    obtain rfl := Option.some.inj hc
    rfl

/-- The digits are read up to the point and from there to the exponent. -/
theorem unsignedReal_chars (negative : Bool) :
    Numeral.unsignedReal negative w.chars = some (.ofDecimal negative w.digits w.power) := by
  obtain ⟨hdigit, hline, hpoint⟩ := noDigit_exponentChars (w := w)
  exact unsignedReal_parts negative hw.whole.isDigits hw.whole.ne_nil hw.fraction hdigit hline hpoint
    (exponent_exponentChars hw)

theorem exists_chars_cons : ∃ c cs, w.chars = c :: cs ∧ c.isDigit := by
  have hdigits := hw.whole.isDigits
  obtain ⟨c, cs, hcs⟩ := List.exists_cons_of_ne_nil hw.whole.ne_nil
  unfold chars
  rw [hcs] at hdigits ⊢
  exact ⟨c, _, rfl, hdigits c List.mem_cons_self⟩

/-- A written real is read as the decimal that its parts tell. -/
theorem real_chars (negative : Bool) :
    Numeral.real (String.ofList (signChars negative ++ w.chars)) =
      .ok (.ofDecimal negative w.digits w.power) := by
  have hread := unsignedReal_chars hw negative
  have hchars := isNumeralChar_chars hw
  obtain ⟨c, cs, hcs, hc⟩ := exists_chars_cons hw
  rw [hcs] at hread hchars ⊢
  exact real_of_unsignedReal negative hc hchars hread

end Written

/-! ## Numbers in a text -/

/-- What follows a number does not go on with it. -/
def EndsNumber (cs : List Char) : Prop := ∀ c ∈ cs.head?, c.isDigit = false ∧ c ∉ ['.', 'e', 'E']

theorem EndsNumber.noDigit {cs : List Char} (h : EndsNumber cs) : NoDigit cs :=
  fun c hc => (h c hc).1

theorem span_isDigit {ds rest : List Char} (hds : IsDigits ds) (hrest : NoDigit rest) :
    (ds ++ rest).span isDigit = (ds, rest) := by
  have hall : ∀ c ∈ ds, isDigit c = true := fun c hc => Text.asciiDigit_isSome.trans (hds c hc)
  have hnone : rest.takeWhile isDigit = [] ∧ rest.dropWhile isDigit = rest := by
    cases rest with
    | nil => exact ⟨rfl, rfl⟩
    | cons c rest =>
      have hc : ¬isDigit c = true := by
        rw [show isDigit c = c.isDigit from Text.asciiDigit_isSome, hrest c rfl]
        decide
      exact ⟨List.takeWhile_cons_of_neg hc, List.dropWhile_cons_of_neg hc⟩
  rw [List.span_eq_takeWhile_dropWhile, List.takeWhile_append_of_pos hall,
    List.dropWhile_append_of_pos hall, hnone.1, hnone.2, List.append_nil]

theorem wholeDigits_append {whole rest : List Char} (h : IsWhole whole) (hrest : NoDigit rest) :
    wholeDigits (whole ++ rest) = (whole, rest) := by
  cases h with
  | nought => rfl
  | @digits c cs hc hdigits =>
    rw [List.cons_append]
    unfold wholeDigits
    split
    · next heq => exact absurd (List.cons.inj heq).1 hc
    · exact span_isDigit hdigits hrest

theorem fraction_append {ds rest : List Char} (hds : IsDigits ds) (hrest : NoDigit rest)
    (hpoint : rest.head? ≠ some '.') :
    fraction (Written.fractionChars ds ++ rest) = (Written.fractionChars ds, rest) := by
  cases ds with
  | nil =>
    show fraction rest = ([], rest)
    unfold fraction
    split
    · exact absurd rfl hpoint
    · rfl
  | cons c cs =>
    show fraction ('.' :: (c :: cs ++ rest)) = _
    unfold fraction
    simp only [span_isDigit hds hrest]
    rfl

theorem exponent_append {x : Option (Bool × List Char)}
    (hx : ∀ y ∈ x, y.2 ≠ [] ∧ IsDigits y.2) {rest : List Char} (hrest : EndsNumber rest) :
    exponent (Written.exponentChars x ++ rest) = (Written.exponentChars x, rest) := by
  cases x with
  | none =>
    show exponent rest = ([], rest)
    unfold exponent
    cases rest with
    | nil => rfl
    | cons c rest =>
      have hc := (hrest c rfl).2
      simp only [List.mem_cons, List.not_mem_nil, or_false, not_or] at hc
      simp [hc]
  | some y =>
    obtain ⟨negative, ds⟩ := y
    obtain ⟨hne, hds⟩ : ds ≠ [] ∧ IsDigits ds := hx _ rfl
    have hspan := span_isDigit hds hrest.noDigit
    have hsome : ds.isEmpty = false := by simpa using hne
    show exponent ('e' :: (if negative then '-' else '+') :: (ds ++ rest)) = _
    unfold exponent Written.exponentChars
    cases negative <;> simp only [beq_self_eq_true, Bool.true_or, if_true, hspan, hsome,
      Bool.false_eq_true, if_false, List.cons_append, List.nil_append]

/-- A number is read as its numeral is. -/
theorem numberAt_eq (negative : Bool) {c : Char} {cs whole frac exp r r' rest : List Char}
    (hc : c.isDigit) (hw : wholeDigits (c :: cs) = (whole, r)) (hne : whole.isEmpty = false)
    (hf : fraction r = (frac, r')) (he : exponent r' = (exp, rest)) :
    numberAt (signChars negative ++ c :: cs) = some (if frac.isEmpty && exp.isEmpty then
        ((Numeral.int 10 (String.ofList (signChars negative ++ whole))).mapError Stop.number).map
          fun i => (.int i, rest)
      else
        ((Numeral.real (String.ofList (signChars negative ++ whole ++ frac ++ exp))).mapError
          Stop.number).map fun x => (.float x, rest)) := by
  have hminus : c ≠ '-' := by
    rintro rfl
    exact absurd hc (by decide)
  unfold numberAt
  split
  next sign cs' hsign =>
  obtain ⟨rfl, rfl⟩ : sign = signChars negative ∧ cs' = c :: cs := by
    cases negative with
    | true =>
      obtain ⟨rfl, rfl⟩ := Prod.mk.inj hsign
      exact ⟨rfl, rfl⟩
    | false =>
      split at hsign
      · next heq => exact absurd (List.cons.inj heq).1 hminus
      · obtain ⟨rfl, rfl⟩ := Prod.mk.inj hsign
        exact ⟨rfl, rfl⟩
  simp only [hw, hne, hf, he, Bool.false_eq_true, if_false]
  split
  · cases Numeral.int 10 (String.ofList (signChars negative ++ whole)) <;> rfl
  · cases Numeral.real (String.ofList (signChars negative ++ whole ++ frac ++ exp)) <;> rfl

theorem noDigit_exponentChars_append (x : Option (Bool × List Char)) {rest : List Char}
    (hrest : EndsNumber rest) : NoDigit (Written.exponentChars x ++ rest) ∧
      (Written.exponentChars x ++ rest).head? ≠ some '.' := by
  cases x with
  | none => exact ⟨hrest.noDigit, fun h => (hrest '.' h).2 (by decide)⟩
  | some x =>
    refine ⟨fun c hc => ?_, by simp [Written.exponentChars]⟩
    obtain rfl := Option.some.inj hc
    rfl

theorem noDigit_fractionChars_append (ds : List Char) {rest : List Char} (hrest : NoDigit rest) :
    NoDigit (Written.fractionChars ds ++ rest) := by
  cases ds with
  | nil => exact hrest
  | cons c cs =>
    intro d hd
    obtain rfl := Option.some.inj hd
    rfl

/-- A written real is read as the decimal that its parts tell. -/
theorem numberAt_real {w : Written} (hw : w.IsReal) (negative : Bool) {rest : List Char}
    (hrest : EndsNumber rest) :
    numberAt (signChars negative ++ w.chars ++ rest) =
      some (.ok (.float (.ofDecimal negative w.digits w.power), rest)) := by
  obtain ⟨hdigit, hpoint⟩ := noDigit_exponentChars_append w.exponent hrest
  have hwhole := wholeDigits_append hw.whole (noDigit_fractionChars_append w.fraction hdigit)
  have hfraction := fraction_append hw.fraction hdigit hpoint
  have hexponent := exponent_append hw.exponent hrest
  have hreal := Written.real_chars hw negative
  have hempty : ((Written.fractionChars w.fraction).isEmpty &&
      (Written.exponentChars w.exponent).isEmpty) = false := by
    have hparts := hw.real
    rw [Bool.and_eq_false_iff]
    cases hf : w.fraction with
    | cons c cs => exact .inl rfl
    | nil =>
      cases hx : w.exponent with
      | some x => exact .inr rfl
      | none => simp [hf, hx] at hparts
  obtain ⟨c, cs, hcs⟩ := List.exists_cons_of_ne_nil hw.whole.ne_nil
  have hc := hw.whole.isDigits c (hcs ▸ List.mem_cons_self)
  unfold Written.chars at hreal ⊢
  rw [← List.append_assoc, ← List.append_assoc] at hreal
  simp only [List.append_assoc]
  rw [hcs, List.cons_append] at hwhole ⊢
  rw [numberAt_eq negative hc hwhole rfl hfraction hexponent, hempty, ← hcs, hreal]
  rfl

/-- Digits that are a whole number are read as an integer, unless there are too many. -/
theorem numberAt_digits (negative : Bool) {ds rest : List Char} (hds : IsWhole ds)
    (hrest : EndsNumber rest) : numberAt (signChars negative ++ ds ++ rest) =
      some (if digitLimit < ds.length then .error (.number (.tooManyDigits ds.length))
        else .ok (.int (if negative then -(Nat.ofDigitChars 10 ds 0 : Int)
          else Nat.ofDigitChars 10 ds 0), rest)) := by
  have hwhole := wholeDigits_append hds hrest.noDigit
  have hfraction : fraction rest = ([], rest) :=
    @fraction_append [] rest nofun hrest.noDigit fun h => (hrest '.' h).2 (by decide)
  have hexponent : exponent rest = ([], rest) := exponent_append (x := none) nofun hrest
  have hint := int_chars negative hds.isDigits hds.ne_nil
  have hdigits := hds.isDigits
  obtain ⟨c, cs, rfl⟩ := List.exists_cons_of_ne_nil hds.ne_nil
  rw [List.cons_append] at hwhole
  rw [List.append_assoc, List.cons_append,
    numberAt_eq _ (hdigits c List.mem_cons_self) hwhole rfl hfraction hexponent]
  simp only [List.isEmpty_nil, Bool.and_self, if_true, hint]
  by_cases hlong : digitLimit < (c :: cs).length
  · simp only [if_pos hlong]
    rfl
  · simp only [if_neg hlong]
    rfl

/-- The numeral of an integer is read as the integer. -/
theorem numberAt_integer {i : Int} (h : (Nat.toDigits 10 i.natAbs).length ≤ digitLimit)
    {rest : List Char} (hrest : EndsNumber rest) :
    numberAt (signChars (decide (i < 0)) ++ Nat.toDigits 10 i.natAbs ++ rest) =
      some (.ok (.int i, rest)) := by
  rw [numberAt_digits _ (isWhole_toDigits i.natAbs) hrest, if_neg (Nat.not_lt.mpr h),
    Nat.ofDigitChars_ten_toDigits]
  congr 4
  split
  · next hi => simp only [decide_eq_true_eq] at hi; omega
  · next hi => simp only [decide_eq_true_eq] at hi; omega

end Json

end GraphPaths
