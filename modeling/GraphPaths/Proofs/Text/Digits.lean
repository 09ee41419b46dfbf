import GraphPaths.Number.Numeral
import Mathlib

/-!
# Digits

Decimal digits as characters (`IsDigits`): those of a natural number (`isDigits_toDigits`), how many
there are (`length_toDigits`), and what the readers of numerals make of them (`digits_of_isDigits`,
`digitsFrom_append`). Hexadecimal digits are read back as the number they were written for
(`foldlM_hexPadded`).
-/

namespace GraphPaths

namespace Text

/-! ## Decimal digits -/

/-- Decimal digits. -/
def IsDigits (cs : List Char) : Prop := ∀ c ∈ cs, c.isDigit

theorem isDigits_toDigits (n : Nat) : IsDigits (Nat.toDigits 10 n) :=
  fun _ hc => Nat.isDigit_of_mem_toDigits (by decide) (by decide) hc

theorem isDigits_replicate (n : Nat) : IsDigits (List.replicate n '0') :=
  fun _ hc => List.eq_of_mem_replicate hc ▸ rfl

theorem IsDigits.append {cs ds : List Char} (h : IsDigits cs) (h' : IsDigits ds) :
    IsDigits (cs ++ ds) := fun c hc => (List.mem_append.mp hc).elim (h c) (h' c)

theorem IsDigits.take {cs : List Char} (h : IsDigits cs) (n : Nat) : IsDigits (cs.take n) :=
  fun c hc => h c (List.mem_of_mem_take hc)

theorem IsDigits.drop {cs : List Char} (h : IsDigits cs) (n : Nat) : IsDigits (cs.drop n) :=
  fun c hc => h c (List.mem_of_mem_drop hc)

theorem isDigits_decimalPadded (width n : Nat) : IsDigits (decimalPadded width n).toList := by
  unfold decimalPadded
  rw [String.toList_ofList]
  exact (isDigits_replicate _).append (isDigits_toDigits n)

theorem decimalPadded_ne_nil (width n : Nat) : (decimalPadded width n).toList ≠ [] := by
  unfold decimalPadded
  rw [String.toList_ofList]
  exact fun h => Nat.toDigits_ne_nil (List.append_eq_nil_iff.mp h).2

theorem ofDigitChars_decimalPadded (width n : Nat) :
    Nat.ofDigitChars 10 (decimalPadded width n).toList 0 = n := by
  unfold decimalPadded
  rw [String.toList_ofList, Nat.ofDigitChars_append, Nat.ofDigitChars_replicate_zero, Nat.mul_zero,
    Nat.ofDigitChars_ten_toDigits]

/-- Different numbers have different numerals. -/
theorem decimalPadded_injective (width : Nat) : Function.Injective (decimalPadded width) := by
  intro m n h
  rw [← ofDigitChars_decimalPadded width m, h, ofDigitChars_decimalPadded]

/-- The digits of a positive number do not start with a nought. -/
theorem exists_toDigits_cons {n : Nat} (h : n ≠ 0) :
    ∃ c cs, c ≠ '0' ∧ Nat.toDigits 10 n = c :: cs := by
  induction n using Nat.strong_induction_on with
  | _ n ih =>
    rw [Nat.toDigits_eq_if (by decide)]
    split
    · next hn =>
      have hall : ∀ d : Fin 10, d.val ≠ 0 → d.val.digitChar ≠ '0' := by decide
      exact ⟨_, [], hall ⟨n, hn⟩ h, rfl⟩
    · obtain ⟨c, cs, hc, hcs⟩ := ih (n / 10) (by omega) (by omega)
      exact ⟨c, _, hc, by rw [hcs, List.cons_append]⟩

/-- A natural number lies between the powers of ten that its digits count. -/
theorem length_toDigits {n : Nat} (h : 0 < n) :
    (10 : ℚ) ^ (((Nat.toDigits 10 n).length : Int) - 1) ≤ n ∧
      (n : ℚ) < 10 ^ ((Nat.toDigits 10 n).length : Int) := by
  have hpos : 0 < (Nat.toDigits 10 n).length := Nat.length_toDigits_pos
  have hiff : ∀ {k : Nat}, 0 < k → ((Nat.toDigits 10 n).length ≤ k ↔ n < 10 ^ k) :=
    Nat.length_toDigits_le_iff (by decide)
  generalize (Nat.toDigits 10 n).length = length at hpos hiff ⊢
  obtain ⟨k, rfl⟩ := Nat.exists_eq_add_one_of_ne_zero hpos.ne'
  constructor
  · rw [Nat.cast_succ, add_sub_cancel_right, zpow_natCast]
    by_cases hk : k = 0
    · rw [hk, pow_zero]
      exact_mod_cast h
    · have hle : 10 ^ k ≤ n := by
        have := hiff (Nat.pos_of_ne_zero hk)
        omega
      exact_mod_cast hle
  · have hlt : n < 10 ^ (k + 1) := (hiff hpos).mp le_rfl
    exact_mod_cast hlt

/-! ## Digits that are read -/

theorem isDigit_iff {c : Char} : c.isDigit ↔ '0' ≤ c ∧ c ≤ '9' := by
  unfold Char.isDigit
  rw [Bool.and_eq_true, decide_eq_true_eq, decide_eq_true_eq]
  exact Iff.rfl

theorem asciiDigit_of_isDigit {c : Char} (h : c.isDigit) :
    asciiDigit c = some (c.toNat - '0'.toNat) := by
  unfold asciiDigit
  rw [if_pos (isDigit_iff.mp h)]

theorem asciiDigit_isSome {c : Char} : (asciiDigit c).isSome = c.isDigit := by
  unfold asciiDigit
  by_cases h : c.isDigit
  · rw [if_pos (isDigit_iff.mp h), h]
    rfl
  · rw [if_neg fun hc => h (isDigit_iff.mpr hc), eq_false_of_ne_true h]
    rfl

/-- The digits at the front of a text are digits. -/
theorem isDigits_takeWhile (cs : List Char) :
    IsDigits (cs.takeWhile fun c => (asciiDigit c).isSome) := by
  intro c hc
  have hsome := List.mem_takeWhile_imp hc
  rwa [asciiDigit_isSome] at hsome

theorem hexDigit_of_isDigit {c : Char} (h : c.isDigit) :
    hexDigit c = some (c.toNat - '0'.toNat) := by
  unfold hexDigit
  rw [if_pos (isDigit_iff.mp h)]

/-- What holds of the ten digits holds of a digit. -/
theorem forall_digit (p : Char → Prop) (h : ∀ n : Fin 10, p (Char.ofNat (48 + n.val))) {c : Char}
    (hc : c.isDigit) : p c := by
  have hle : 48 ≤ c.toNat ∧ c.toNat ≤ 57 := isDigit_iff.mp hc
  have := h ⟨c.toNat - 48, by omega⟩
  rwa [Nat.add_sub_cancel' hle.1, Char.ofNat_toNat] at this

/-- What follows digits does not go on with one. -/
def NoDigit (cs : List Char) : Prop := ∀ c ∈ cs.head?, c.isDigit = false

/-- The values of digits. -/
def digitValues (cs : List Char) : List Nat := cs.map fun c => c.toNat - '0'.toNat

theorem ofDigits_digitValues (cs : List Char) :
    Numeral.ofDigits 10 (digitValues cs) = Nat.ofDigitChars 10 cs 0 := by
  unfold Numeral.ofDigits digitValues Nat.ofDigitChars
  rw [List.foldl_map]
  simp only [Nat.mul_comm]

/-- The digits of an integer are read up to their end. -/
theorem digits_of_isDigits : ∀ {cs : List Char} {after : Bool}, IsDigits cs →
    (cs = [] → after) → Numeral.digits 10 after cs = some (digitValues cs)
  | [], after, _, h => by
    unfold Numeral.digits
    rw [if_pos (h rfl)]
    rfl
  | c :: cs, after, hcs, _ => by
    have hc := hcs c List.mem_cons_self
    have hline : (c == '_') = false := forall_digit (fun c => (c == '_') = false) (by decide) hc
    have hlt : c.toNat - '0'.toNat < 10 := forall_digit (fun c => c.toNat - '0'.toNat < 10)
      (by decide) hc
    unfold Numeral.digits
    simp only [hline, hexDigit_of_isDigit hc, if_pos hlt,
      digits_of_isDigits (fun d hd => hcs d (List.mem_cons_of_mem c hd)) fun _ => rfl]
    rfl

/-- The digits of a real are read as far as they go. -/
theorem digitsFrom_append : ∀ {cs rest : List Char} {after : Bool}, IsDigits cs → NoDigit rest →
    rest.head? ≠ some '_' → Numeral.digitsFrom after (cs ++ rest) = (digitValues cs, rest)
  | [], rest, after, _, hrest, hline => by
    cases rest with
    | nil => rfl
    | cons c rest =>
      have hc : asciiDigit c = none := by
        rw [← Option.isNone_iff_eq_none, ← Option.not_isSome, asciiDigit_isSome, hrest c rfl]
        rfl
      have hne : (c == '_') = false := by simpa using fun h => hline (congrArg some h)
      rw [List.nil_append]
      unfold Numeral.digitsFrom
      simp only [hc, hne, Bool.false_and]
      rfl
  | c :: cs, rest, after, hcs, hrest, hline => by
    have hc := hcs c List.mem_cons_self
    rw [List.cons_append]
    unfold Numeral.digitsFrom
    simp only [asciiDigit_of_isDigit hc,
      digitsFrom_append (fun d hd => hcs d (List.mem_cons_of_mem c hd)) hrest hline]
    rfl

/-- No mark of a base stands in front of the digits of base ten. -/
theorem dropMark_ten (cs : List Char) : Numeral.dropMark 10 cs = cs := by
  unfold Numeral.dropMark
  simp only
  split <;> rfl

/-! ## Hexadecimal digits -/

theorem hexDigit_hexChar (upper : Bool) {n : Nat} (h : n < 16) :
    hexDigit (hexChar upper n) = some n := by
  have hall : ∀ (upper : Bool) (n : Fin 16), hexDigit (hexChar upper n.val) = some n.val := by
    decide
  exact hall upper ⟨n, h⟩

theorem isSome_hexDigit_of_mem {upper : Bool} {c : Char} : ∀ {width n : Nat},
    c ∈ hexPadded upper width n → (hexDigit c).isSome
  | width + 1, n, h => by
    rcases List.mem_append.mp h with h | h
    · exact isSome_hexDigit_of_mem h
    · rw [List.mem_singleton.mp h, hexDigit_hexChar upper (Nat.mod_lt n (by decide))]
      rfl

theorem length_hexPadded (upper : Bool) : ∀ width n : Nat,
    (hexPadded upper width n).length = width
  | 0, _ => rfl
  | width + 1, n => by
    unfold hexPadded
    rw [List.length_append, length_hexPadded upper width, List.length_singleton]

/-- A number that is written with enough digits is read back after any other. -/
theorem foldlM_hexPadded (upper : Bool) : ∀ width n start : Nat,
    (hexPadded upper width n).foldlM (fun m c => (hexDigit c).map (m * 16 + ·)) start =
      some (start * 16 ^ width + n % 16 ^ width)
  | 0, n, start => by simp [hexPadded, Nat.mod_one]
  | width + 1, n, start => by
    have hdigit := hexDigit_hexChar upper (Nat.mod_lt n (by decide : 0 < 16))
    have hmod : n % 16 ^ (width + 1) = n / 16 % 16 ^ width * 16 + n % 16 := by
      rw [Nat.pow_succ', Nat.mod_mul, Nat.mul_comm, Nat.add_comm]
    unfold hexPadded
    rw [List.foldlM_append, foldlM_hexPadded upper width]
    show ((hexDigit (hexChar upper (n % 16))).map _).bind _ = _
    rw [hdigit, hmod]
    show some _ = some _
    congr 1
    ring

theorem isAscii_hexPadded {upper : Bool} {c : Char} : ∀ {width n : Nat},
    c ∈ hexPadded upper width n → 32 ≤ c.toNat ∧ c.toNat ≤ 126
  | width + 1, n, h => by
    have hall : ∀ (upper : Bool) (n : Fin 16), 32 ≤ (hexChar upper n.val).toNat ∧
        (hexChar upper n.val).toNat ≤ 126 := by decide
    rcases List.mem_append.mp h with h | h
    · exact isAscii_hexPadded h
    · exact List.mem_singleton.mp h ▸ hall upper ⟨n % 16, Nat.mod_lt n (by decide)⟩

end Text

end GraphPaths
