import GraphPaths.Proofs.Json.Grammar
import GraphPaths.Proofs.Number.Shortest
import GraphPaths.Proofs.Outcome

/-!
# Numbers in JSON

The numeral of an integer is a number of JSON (`isNumber_integer`), and so is the text of a finite
number (`isNumber_number`), which is a sign and a real whose decimal rounds to the number
(`exists_written`). `written` says which digits of a decimal stand before the point, which after it,
and what the exponent is.
-/

namespace GraphPaths

namespace Json

open Binary64 (Proper plainLayout)
open Text (IsDigits isDigits_toDigits isDigits_replicate exists_toDigits_cons isDigits_decimalPadded
  decimalPadded_ne_nil)

/-- Digits of a positive number, and others after them, are a whole number. -/
theorem isWhole_append {n : Nat} (h : n ≠ 0) {ds : List Char} (hds : IsDigits ds) :
    IsWhole (Nat.toDigits 10 n ++ ds) := by
  have hall := (isDigits_toDigits n).append hds
  obtain ⟨c, cs, hc, hcs⟩ := exists_toDigits_cons h
  rw [hcs] at hall ⊢
  exact .digits hc hall

theorem isWhole_toDigits (n : Nat) : IsWhole (Nat.toDigits 10 n) := by
  by_cases hn : n = 0
  · rw [hn]
    exact .nought
  · have hwhole : IsWhole (Nat.toDigits 10 n ++ []) := isWhole_append hn nofun
    rwa [List.append_nil] at hwhole

theorem isWhole_take {n : Nat} (h : n ≠ 0) {k : Nat} (hk : k ≠ 0) :
    IsWhole ((Nat.toDigits 10 n).take k) := by
  have hall := (isDigits_toDigits n).take k
  obtain ⟨c, cs, hc, hcs⟩ := exists_toDigits_cons h
  obtain ⟨k, rfl⟩ := Nat.exists_eq_succ_of_ne_zero hk
  rw [hcs, List.take_succ_cons] at hall ⊢
  exact .digits hc hall

theorem isWhole_singleton {c : Char} (h : c.isDigit) : IsWhole [c] := by
  by_cases hc : c = '0'
  · rw [hc]
    exact .nought
  · exact .digits hc fun d hd => List.mem_singleton.mp hd ▸ h

/-- Characters that fall into the parts of a number. -/
theorem IsUnsigned.of_parts {cs : List Char} (whole fraction exponent : List Char)
    (hw : IsWhole whole) (hf : IsFraction fraction) (he : IsExponent exponent)
    (h : cs = whole ++ fraction ++ exponent) : IsUnsigned cs :=
  h ▸ .parts hw hf he

/-! ## Integers -/

/-- An integer has a numeral if it has not too many digits. -/
theorem integer_eq_ok {i : Int} {text : String} : integer i = .ok text ↔
    (Nat.toDigits 10 i.natAbs).length ≤ digitLimit ∧
      String.ofList (if i < 0 then '-' :: Nat.toDigits 10 i.natAbs else Nat.toDigits 10 i.natAbs) =
        text := by
  unfold integer Numeral.ofInt
  rw [mapError_eq_ok]
  by_cases hlength : digitLimit < (Nat.toDigits 10 i.natAbs).length
  · simp only [if_pos hlength]
    exact ⟨nofun, fun h => absurd h.1 (Nat.not_le.mpr hlength)⟩
  · simp only [if_neg hlength]
    exact ⟨fun h => ⟨Nat.not_lt.mp hlength, Except.ok.inj h⟩, fun h => congrArg Except.ok h.2⟩

theorem isNumber_integer {i : Int} {text : String} (h : integer i = .ok text) :
    IsNumber text.toList := by
  have hdigits : IsUnsigned (Nat.toDigits 10 i.natAbs) :=
    .of_parts _ [] [] (isWhole_toDigits i.natAbs) .none .none (by simp)
  obtain ⟨-, rfl⟩ := integer_eq_ok.mp h
  rw [String.toList_ofList]
  split
  · exact .negative hdigits
  · exact .unsigned hdigits

/-! ## Reals -/

/-- A real without its sign as it is written: the digits before the point, those after it, and the
exponent, if there is one, with its sign. -/
structure Written where
  whole : List Char
  fraction : List Char
  exponent : Option (Bool × List Char)

namespace Written

/-- The point and the digits after it, if there are any. -/
def fractionChars : List Char → List Char
  | [] => []
  | c :: cs => '.' :: c :: cs

/-- The exponent with its mark and its sign. -/
def exponentChars : Option (Bool × List Char) → List Char
  | none => []
  | some x => 'e' :: (if x.1 then '-' else '+') :: x.2

/-- The characters of a real. -/
def chars (w : Written) : List Char :=
  w.whole ++ fractionChars w.fraction ++ exponentChars w.exponent

/-- The number that the exponent tells. -/
def exponentValue : Option (Bool × List Char) → Int
  | none => 0
  | some x => if x.1 then -(Nat.ofDigitChars 10 x.2 0 : Int) else Nat.ofDigitChars 10 x.2 0

/-- The number that the digits before and after the point tell. -/
def digits (w : Written) : Nat := Nat.ofDigitChars 10 (w.whole ++ w.fraction) 0

/-- The power of ten that the last digit stands for. -/
def power (w : Written) : Int := exponentValue w.exponent - w.fraction.length

/-- The decimal that the parts tell. -/
def value (w : Written) : ℚ := w.digits * 10 ^ w.power

/-- The parts are digits as they should be, and there is more than a whole number. -/
structure IsReal (w : Written) : Prop where
  whole : IsWhole w.whole
  fraction : IsDigits w.fraction
  exponent : ∀ x ∈ w.exponent, x.2 ≠ [] ∧ IsDigits x.2
  real : w.fraction ≠ [] ∨ w.exponent ≠ none

theorem isUnsigned_chars {w : Written} (h : w.IsReal) : IsUnsigned w.chars := by
  refine .parts h.whole ?_ ?_
  · have hfraction := h.fraction
    cases hcs : w.fraction with
    | nil => exact .none
    | cons c cs => exact .some nofun (hcs ▸ hfraction)
  · have hexponent := h.exponent
    cases hx : w.exponent with
    | none => exact .none
    | some x =>
      obtain ⟨hne, hdigits⟩ := hexponent x hx
      have hsign : [if x.1 then '-' else '+'] ∈ [[], ['+'], ['-']] := by split <;> decide
      exact .some (by decide) hsign hne hdigits

end Written

/-- The parts of a decimal in the plain layout. -/
def written (digits : Nat) (exponent : Int) : Written :=
  let ds := Nat.toDigits 10 digits
  let point : Int := ds.length + exponent
  if point ≤ -4 ∨ 16 < point then
    ⟨ds.take 1, ds.drop 1, some (decide (point - 1 < 0),
      (Text.decimalPadded 2 (point - 1).natAbs).toList)⟩
  else if point ≤ 0 then ⟨['0'], List.replicate point.natAbs '0' ++ ds, none⟩
  else if exponent < 0 then ⟨ds.take point.natAbs, ds.drop point.natAbs, none⟩
  else ⟨ds ++ List.replicate exponent.natAbs '0', ['0'], none⟩

theorem chars_written (digits : Nat) (exponent : Int) :
    (plainLayout.write digits exponent).toList = (written digits exponent).chars := by
  have hne : Nat.toDigits 10 digits ≠ [] := Nat.toDigits_ne_nil
  have hpoint : ∀ {cs : List Char}, cs ≠ [] → Written.fractionChars cs = '.' :: cs := by
    intro cs hcs
    cases cs with
    | nil => contradiction
    | cons c cs => rfl
  unfold Binary64.Layout.write written plainLayout
  simp only [Bool.or_eq_true, decide_eq_true_eq]
  split
  · -- the first digit, the others as a fraction, and an exponent
    rw [String.toList_append, String.toList_ofList]
    unfold Written.chars Written.exponentChars
    cases (Nat.toDigits 10 digits).drop 1 <;> simp [Written.fractionChars]
  split
  · -- a nought and all digits as its fraction
    rw [String.toList_ofList]
    unfold Written.chars Written.exponentChars
    rw [hpoint fun h => hne (List.append_eq_nil_iff.mp h).2]
    simp
  split
  · -- the point falls between the digits
    next hpoint' hexponent =>
    have hdrop : (Nat.toDigits 10 digits).drop
        ((Nat.toDigits 10 digits).length + exponent).natAbs ≠ [] := by
      rw [Ne, List.drop_eq_nil_iff]
      omega
    rw [String.toList_ofList]
    unfold Written.chars Written.exponentChars
    rw [hpoint hdrop]
    simp
  · -- all digits, noughts after them, and a nought as the fraction
    rw [String.toList_ofList]
    unfold Written.chars Written.exponentChars
    simp [Written.fractionChars]

theorem isReal_written {digits : Nat} {exponent : Int} (h : Proper digits exponent) :
    (written digits exponent).IsReal := by
  have hdigits := isDigits_toDigits digits
  have hpos : 0 < (Nat.toDigits 10 digits).length := Nat.length_toDigits_pos
  have hzero : digits = 0 → (Nat.toDigits 10 digits).length = 1 := by
    rintro rfl
    rfl
  unfold written
  simp only
  split
  · -- an exponent with some digits
    obtain ⟨c, cs, hcs⟩ := List.exists_cons_of_ne_nil (List.ne_nil_of_length_pos hpos)
    rw [hcs] at hdigits ⊢
    refine ⟨isWhole_singleton (hdigits c List.mem_cons_self), hdigits.drop 1, fun x hx => ?_,
      .inr nofun⟩
    obtain rfl := Option.some.inj hx
    exact ⟨decimalPadded_ne_nil 2 _, isDigits_decimalPadded 2 _⟩
  split
  · exact ⟨.nought, (isDigits_replicate _).append hdigits, nofun,
      .inl fun h => List.ne_nil_of_length_pos hpos (List.append_eq_nil_iff.mp h).2⟩
  split
  · next hpoint hexponent =>
    have hne : digits ≠ 0 := fun hdigits => by
      have := hzero hdigits
      omega
    refine ⟨isWhole_take hne (by omega), hdigits.drop _, nofun, .inl ?_⟩
    rw [Ne, List.drop_eq_nil_iff]
    omega
  · next hexponent =>
    exact ⟨isWhole_append (h.resolve_right hexponent) (isDigits_replicate _), isDigits_replicate 1,
      nofun, .inl nofun⟩

theorem exponentValue_padded (width : Nat) (x : Int) : Written.exponentValue
    (some (decide (x < 0), (Text.decimalPadded width x.natAbs).toList)) = x := by
  show (if decide (x < 0) = true then _ else _) = x
  rw [Text.ofDigitChars_decimalPadded]
  split
  · next h =>
    have := of_decide_eq_true h
    omega
  · next h =>
    have : ¬x < 0 := fun hx => h (decide_eq_true hx)
    omega

/-- The parts tell the decimal. -/
theorem value_written (digits : Nat) (exponent : Int) :
    (written digits exponent).value = digits * 10 ^ exponent := by
  unfold Written.value
  have hvalue := Nat.ofDigitChars_ten_toDigits (n := digits)
  have hpos : 0 < (Nat.toDigits 10 digits).length := Nat.length_toDigits_pos
  unfold written
  simp only
  split
  · unfold Written.digits Written.power
    rw [exponentValue_padded, List.take_append_drop, hvalue, List.length_drop]
    congr 2
    omega
  split
  · unfold Written.digits Written.power
    rw [Nat.ofDigitChars_append, Nat.ofDigitChars_append, Nat.ofDigitChars_replicate_zero,
      List.length_append, List.length_replicate]
    show ((Nat.ofDigitChars 10 (Nat.toDigits 10 digits) (10 ^ _ * 0) : Nat) : ℚ) * _ = _
    rw [Nat.mul_zero, hvalue]
    congr 2
    show (0 : Int) - _ = exponent
    omega
  split
  · unfold Written.digits Written.power
    rw [List.take_append_drop, hvalue, List.length_drop]
    congr 2
    show (0 : Int) - _ = exponent
    omega
  · next hexponent =>
    obtain ⟨k, rfl⟩ := Int.eq_ofNat_of_zero_le (not_lt.mp hexponent)
    unfold Written.digits Written.power
    rw [Nat.ofDigitChars_append, Nat.ofDigitChars_append, hvalue, Int.natAbs_natCast,
      ← List.replicate_one, Nat.ofDigitChars_replicate_zero, Nat.ofDigitChars_replicate_zero]
    show _ * (10 : ℚ) ^ (-1 : Int) = _
    push_cast
    rw [zpow_natCast]
    field_simp

/-- The characters of a sign. -/
def signChars (negative : Bool) : List Char := if negative then ['-'] else []

/-- The characters of an integer are a sign and digits. -/
theorem integerChars_eq (i : Int) :
    (if i < 0 then '-' :: Nat.toDigits 10 i.natAbs else Nat.toDigits 10 i.natAbs) =
      signChars (decide (i < 0)) ++ Nat.toDigits 10 i.natAbs := by
  by_cases hi : i < 0 <;> simp [hi, signChars]

/-- The text of a finite number is a sign and a real, and whatever tells the same decimal as the real
rounds to the number. -/
theorem exists_written (s : Bool) (m : Nat) (e : Int) : ∃ w : Written, w.IsReal ∧
    (number (.finite s m e)).toList = signChars s ++ w.chars ∧
    (Binary64.Canonical m e → ∀ (negative : Bool) {digits : Nat} {power : Int},
      digits * 10 ^ power = w.value →
        .ofDecimal negative digits power = Binary64.finite negative m e) := by
  have hsign : ∀ text : String,
      ((if s then "-" else "") ++ text).toList = signChars s ++ text.toList := by
    intro text
    rw [String.toList_append]
    cases s <;> rfl
  by_cases hm : m = 0
  · refine ⟨⟨['0'], ['0'], none⟩, ⟨.nought, isDigits_replicate 1, nofun, .inl nofun⟩, ?_, ?_⟩
    · rw [hm]
      exact hsign "0.0"
    · intro hc negative digits power hvalue
      have hnought : (digits : ℚ) * 10 ^ power = 0 := hvalue.trans (zero_mul _)
      have hdigits : digits = 0 := by
        exact_mod_cast (mul_eq_zero.mp hnought).resolve_right (zpow_ne_zero _ (by norm_num))
      rw [hm, hdigits, hc.full.resolve_left (by omega)]
      rfl
  · have hpos : 0 < m := Nat.pos_of_ne_zero hm
    have hproper := Binary64.trimmed_proper 20 (Binary64.shortest_proper hpos e)
    refine ⟨_, isReal_written hproper, ?_, ?_⟩
    · rw [← chars_written, ← hsign]
      show (Binary64.text (.finite s m e)).toList = _
      unfold Binary64.text
      simp only [beq_iff_eq, if_neg hm]
    · intro hc negative digits power hvalue
      refine Binary64.ofDecimal_of_contains hpos hc negative ?_
      rw [hvalue, value_written, Binary64.trimmed_value]
      exact Binary64.shortest_contains hpos hc

/-- The text of a finite number is a number. -/
theorem isNumber_number {x : Binary64} (h : x.isFinite) : IsNumber (number x).toList := by
  cases x with
  | finite s m e =>
    obtain ⟨w, hw, htext, -⟩ := exists_written s m e
    rw [htext]
    cases s with
    | false => exact .unsigned (Written.isUnsigned_chars hw)
    | true => exact .negative (Written.isUnsigned_chars hw)
  | _ => contradiction

end Json

end GraphPaths
