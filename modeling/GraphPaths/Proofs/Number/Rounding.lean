import GraphPaths.Number.Shortest
import GraphPaths.Proofs.Text.Digits

/-!
# Rounding to a number

Every quotient between the bounds of a positive number rounds to that number
(`ofRatio_of_contains`), and so does every decimal (`ofDecimal_of_contains`). Whatever is rounded, the
mantissa and the exponent are such as the format has (`isCanonical_ofRatio`). Quotients are compared
as rationals: `quotient` is what a pair of naturals stands for, and the powers of two and ten may
have negative exponents.
-/

namespace GraphPaths

namespace Binary64

open Text (length_toDigits)

/-! ## Quotients -/

/-- The rational that a pair of naturals stands for. -/
def quotient (q : Nat × Nat) : ℚ := q.1 / q.2

theorem quotient_ratio (m : Nat) (e : Int) : quotient (ratio m e) = m * 2 ^ e := by
  unfold quotient ratio
  split
  · next he =>
    obtain ⟨k, rfl⟩ := Int.eq_negSucc_of_lt_zero he
    simp [zpow_negSucc, div_eq_mul_inv, Int.natAbs_negSucc]
  · next he =>
    obtain ⟨k, rfl⟩ := Int.eq_ofNat_of_zero_le (not_lt.mp he)
    simp

theorem quotient_tenfold (digits : Nat) (p : Int) :
    quotient (tenfold digits p) = digits * 10 ^ p := by
  unfold quotient tenfold
  split
  · next hp =>
    obtain ⟨k, rfl⟩ := Int.eq_negSucc_of_lt_zero hp
    simp [zpow_negSucc, div_eq_mul_inv, Int.natAbs_negSucc]
  · next hp =>
    obtain ⟨k, rfl⟩ := Int.eq_ofNat_of_zero_le (not_lt.mp hp)
    simp

theorem quotient_scaled (num den : Nat) (e : Int) :
    quotient (scaled num den e) = num / den / 2 ^ e := by
  unfold quotient scaled
  split
  · next he =>
    obtain ⟨k, rfl⟩ := Int.eq_negSucc_of_lt_zero he
    simp [zpow_negSucc, Int.natAbs_negSucc, div_mul_eq_mul_div]
  · next he =>
    obtain ⟨k, rfl⟩ := Int.eq_ofNat_of_zero_le (not_lt.mp he)
    simp [div_div]

theorem scaled_pos {den : Nat} (hden : 0 < den) (num : Nat) (e : Int) :
    0 < (scaled num den e).2 := by
  unfold scaled
  split
  · exact hden
  · exact Nat.mul_pos hden (Nat.pow_pos (by decide))

theorem ratio_pos {m : Nat} (hm : 0 < m) (e : Int) : 0 < (ratio m e).1 := by
  unfold ratio
  split
  · exact hm
  · exact Nat.mul_pos hm (Nat.pow_pos (by decide))

theorem ratio_snd_pos (m : Nat) (e : Int) : 0 < (ratio m e).2 := by
  unfold ratio
  split
  · exact Nat.pow_pos (by decide)
  · exact Nat.one_pos

theorem tenfold_snd_pos (digits : Nat) (p : Int) : 0 < (tenfold digits p).2 := by
  unfold tenfold
  split
  · exact Nat.pow_pos (by decide)
  · exact Nat.one_pos

/-! ## The numbers between bounds -/

/-- Whether a rational lies in an interval. -/
def Interval.Contains (i : Interval) (x : ℚ) : Prop :=
  if i.closed then i.low * 2 ^ i.unit ≤ x ∧ x ≤ i.high * 2 ^ i.unit
  else i.low * 2 ^ i.unit < x ∧ x < i.high * 2 ^ i.unit

theorem holds_iff (i : Interval) {num den : Nat} (hden : 0 < den) :
    i.holds num den ↔ i.Contains (num / den) := by
  have hlow := quotient_ratio i.low i.unit
  have hhigh := quotient_ratio i.high i.unit
  have hb := ratio_snd_pos i.low i.unit
  have hd := ratio_snd_pos i.high i.unit
  unfold Interval.holds Interval.Contains
  rw [← hlow, ← hhigh]
  generalize ratio i.low i.unit = low at hb
  generalize ratio i.high i.unit = high at hd
  obtain ⟨a, b⟩ := low
  obtain ⟨c, d⟩ := high
  have hb : (0 : ℚ) < b := by exact_mod_cast hb
  have hd : (0 : ℚ) < d := by exact_mod_cast hd
  have hden : (0 : ℚ) < den := by exact_mod_cast hden
  unfold quotient
  simp only
  rw [div_le_div_iff₀ hb hden, div_le_div_iff₀ hden hd, div_lt_div_iff₀ hb hden,
    div_lt_div_iff₀ hden hd]
  norm_cast
  split_ifs <;> simp only [Bool.and_eq_true, decide_eq_true_eq]

/-! ## Rounding -/

/-- A quotient next to a natural rounds to it, one half way between two to the even one. -/
theorem roundDiv_eq {n d m : Nat} (hd : 0 < d) (hlow : (m : ℚ) - 1 / 2 ≤ n / d)
    (hhigh : (n : ℚ) / d ≤ m + 1 / 2)
    (hodd : m % 2 = 1 → (m : ℚ) - 1 / 2 < n / d ∧ (n : ℚ) / d < m + 1 / 2) :
    roundDiv n d = m := by
  have hpos : (0 : ℚ) < d := by exact_mod_cast hd
  rw [le_div_iff₀ hpos] at hlow
  rw [div_le_iff₀ hpos] at hhigh
  rw [lt_div_iff₀ hpos, div_lt_iff₀ hpos] at hodd
  have hlow : 2 * m * d ≤ 2 * n + d := by
    have : (2 : ℚ) * m * d ≤ 2 * n + d := by linarith
    exact_mod_cast this
  have hhigh : 2 * n ≤ 2 * m * d + d := by
    have : (2 : ℚ) * n ≤ 2 * m * d + d := by linarith
    exact_mod_cast this
  have hodd : m % 2 = 1 → 2 * m * d < 2 * n + d ∧ 2 * n < 2 * m * d + d := by
    intro hm
    obtain ⟨hl, hh⟩ := hodd hm
    have hl : (2 : ℚ) * m * d < 2 * n + d := by linarith
    have hh : (2 : ℚ) * n < 2 * m * d + d := by linarith
    exact ⟨by exact_mod_cast hl, by exact_mod_cast hh⟩
  have hn := Nat.div_add_mod n d
  have hr := Nat.mod_lt n hd
  unfold roundDiv
  simp only
  generalize n / d = q at hn ⊢
  generalize n % d = r at hn hr ⊢
  have hq : q = m ∨ q + 1 = m := by
    have hle : q ≤ m := by
      by_contra hlt
      nlinarith [Nat.mul_le_mul_left d (Nat.succ_le_of_lt (Nat.not_le.mp hlt))]
    have hge : m ≤ q + 1 := by
      by_contra hlt
      nlinarith [Nat.mul_le_mul_left d (Nat.succ_le_of_lt (Nat.not_le.mp hlt))]
    omega
  have hcomm : 2 * m * d = 2 * (d * m) := by ring
  rw [hcomm] at hlow hhigh hodd
  simp only [Bool.or_eq_true, Bool.and_eq_true, decide_eq_true_eq, beq_iff_eq]
  rcases hq with rfl | rfl
  · -- the quotient itself: the rest is at most half of the divisor
    exact if_neg (by omega)
  · -- the next one: the rest is at least half of the divisor
    rw [Nat.mul_succ] at hlow hhigh hodd
    exact if_pos (by omega)

theorem roundDiv_mem (n d : Nat) : roundDiv n d = n / d ∨ roundDiv n d = n / d + 1 := by
  unfold roundDiv
  simp only
  split
  · exact .inr rfl
  · exact .inl rfl

/-- The exponent of a number of full width. -/
theorem exponentOf_of_le {num den : Nat} (hnum : 0 < num) (hden : 0 < den) {e : Int}
    (hlow : (2 : ℚ) ^ (52 + e) ≤ num / den) (hhigh : (num : ℚ) / den < 2 ^ (53 + e)) :
    exponentOf num den = max e (-1074) := by
  have hnum_pos : (0 : ℚ) < num := by exact_mod_cast hnum
  have hden_pos : (0 : ℚ) < den := by exact_mod_cast hden
  have hnum_le : (2 : ℚ) ^ (num.log2 : Int) ≤ num := by
    exact_mod_cast Nat.log2_self_le hnum.ne'
  have hnum_lt : (num : ℚ) < 2 ^ ((num.log2 : Int) + 1) := by
    exact_mod_cast Nat.lt_log2_self (n := num)
  have hden_le : (2 : ℚ) ^ (den.log2 : Int) ≤ den := by
    exact_mod_cast Nat.log2_self_le hden.ne'
  have hden_lt : (den : ℚ) < 2 ^ ((den.log2 : Int) + 1) := by
    exact_mod_cast Nat.lt_log2_self (n := den)
  unfold exponentOf
  simp only
  generalize hguess : (num.log2 : Int) - (den.log2 : Int) - 53 = guess
  -- scaled by the guess the quotient lies between two to the 52 and to the 54
  have hover : (2 : ℚ) ^ (guess + 52) < num / den := by
    have hsum : guess + 52 = num.log2 - ((den.log2 : Int) + 1) := by omega
    rw [hsum, zpow_sub₀ two_ne_zero, div_lt_div_iff₀ (by positivity) hden_pos]
    calc (2 : ℚ) ^ (num.log2 : Int) * den < 2 ^ (num.log2 : Int) * 2 ^ ((den.log2 : Int) + 1) := by
          gcongr
      _ ≤ num * 2 ^ ((den.log2 : Int) + 1) := by gcongr
  have hunder : (num : ℚ) / den < 2 ^ (guess + 54) := by
    have hsum : guess + 54 = ((num.log2 : Int) + 1) - den.log2 := by omega
    rw [hsum, zpow_sub₀ two_ne_zero, div_lt_div_iff₀ hden_pos (by positivity)]
    calc (num : ℚ) * 2 ^ (den.log2 : Int) < 2 ^ ((num.log2 : Int) + 1) * 2 ^ (den.log2 : Int) := by
          gcongr
      _ ≤ 2 ^ ((num.log2 : Int) + 1) * den := by gcongr
  have hle := (zpow_lt_zpow_iff_right₀ (one_lt_two (α := ℚ))).mp (hover.trans hhigh)
  have hge := (zpow_lt_zpow_iff_right₀ (one_lt_two (α := ℚ))).mp (hlow.trans_lt hunder)
  have hscaled := quotient_scaled num den guess
  have hpos := scaled_pos hden num guess
  generalize scaled num den guess = q at hscaled hpos
  obtain ⟨n, d⟩ := q
  have hwide : n / d < Nat.pow 2 53 ↔ (num : ℚ) / den < 2 ^ (53 + guess) := by
    rw [Nat.div_lt_iff_lt_mul hpos, zpow_add₀ two_ne_zero, ← div_lt_iff₀ (by positivity), ← hscaled]
    unfold quotient
    rw [div_lt_iff₀ (by exact_mod_cast hpos)]
    norm_cast
  simp only [hwide]
  by_cases he : e = guess
  · rw [he] at hhigh ⊢
    rw [if_pos hhigh]
  · have hnext : e = guess + 1 := by omega
    rw [hnext] at hlow ⊢
    have hsum : 52 + (guess + 1) = 53 + guess := by ring
    rw [hsum] at hlow
    rw [if_neg (not_lt.mpr hlow)]

/-- A mantissa and an exponent that the format has. -/
structure Canonical (m : Nat) (e : Int) : Prop where
  mantissa : m < 2 ^ 53
  least : -1074 ≤ e
  greatest : e ≤ 971
  /-- Only numbers of the least exponent have a mantissa of fewer digits. -/
  full : 2 ^ 52 ≤ m ∨ e = -1074

instance (m : Nat) (e : Int) : Decidable (Canonical m e) :=
  decidable_of_iff (m < 2 ^ 53 ∧ -1074 ≤ e ∧ e ≤ 971 ∧ (2 ^ 52 ≤ m ∨ e = -1074))
    ⟨fun ⟨hm, hleast, hgreatest, hfull⟩ => ⟨hm, hleast, hgreatest, hfull⟩,
      fun h => ⟨h.mantissa, h.least, h.greatest, h.full⟩⟩

/-- Whether a number is one of the format. -/
def isCanonical : Binary64 → Bool
  | .finite _ m e => decide (Canonical m e)
  | _ => true

/-- The lower bound of the quotients that round to a number, in units of its last digit. -/
def lowerBound (m : Nat) (e : Int) : ℚ := if m = 2 ^ 52 ∧ -1074 < e then m - 1 / 4 else m - 1 / 2

/-- A rational lies in the interval of a number if it lies between the bounds, which count for even
mantissas. -/
theorem contains_iff {m : Nat} (hm : 0 < m) {e : Int} {x : ℚ} :
    (interval m e).Contains x ↔
      if m % 2 = 0 then lowerBound m e ≤ x / 2 ^ e ∧ x / 2 ^ e ≤ m + 1 / 2
      else lowerBound m e < x / 2 ^ e ∧ x / 2 ^ e < m + 1 / 2 := by
  have hpow : (0 : ℚ) < 2 ^ e := by positivity
  have hunit : (2 : ℚ) ^ (e - 2) = 2 ^ e / 4 := by
    rw [zpow_sub₀ two_ne_zero]
    norm_num
  have hlow : ((interval m e).low : ℚ) * 2 ^ (e - 2) = lowerBound m e * 2 ^ e := by
    rw [hunit]
    unfold interval lowerBound
    simp only [Bool.and_eq_true, beq_iff_eq, decide_eq_true_eq, Nat.pow_eq]
    split
    · rw [Nat.cast_sub (by omega)]
      push_cast
      ring
    · rw [Nat.cast_sub (by omega)]
      push_cast
      ring
  have hhigh : ((interval m e).high : ℚ) * 2 ^ (e - 2) = (m + 1 / 2) * 2 ^ e := by
    rw [hunit]
    unfold interval
    push_cast
    ring
  have hclosed : (interval m e).closed = true ↔ m % 2 = 0 := beq_iff_eq
  unfold Interval.Contains
  rw [show (interval m e).unit = e - 2 from rfl, hlow, hhigh, le_div_iff₀ hpow, div_le_iff₀ hpow,
    lt_div_iff₀ hpow, div_lt_iff₀ hpow]
  simp only [hclosed]

theorem bounds_of_contains {m : Nat} (hm : 0 < m) {e : Int} {x : ℚ}
    (h : (interval m e).Contains x) :
    lowerBound m e ≤ x / 2 ^ e ∧ x / 2 ^ e ≤ m + 1 / 2 ∧
      (m % 2 = 1 → lowerBound m e < x / 2 ^ e ∧ x / 2 ^ e < m + 1 / 2) := by
  have h := (contains_iff hm).mp h
  split at h
  · next heven => exact ⟨h.1, h.2, fun hodd => by omega⟩
  · exact ⟨h.1.le, h.2.le, fun _ => h⟩

theorem contains_of_between {m : Nat} (hm : 0 < m) {e : Int} {x : ℚ}
    (hlow : lowerBound m e < x / 2 ^ e) (hhigh : x / 2 ^ e < m + 1 / 2) :
    (interval m e).Contains x := by
  rw [contains_iff hm]
  split
  · exact ⟨hlow.le, hhigh.le⟩
  · exact ⟨hlow, hhigh⟩

theorem half_le_lowerBound (m : Nat) (e : Int) : (m : ℚ) - 1 / 2 ≤ lowerBound m e := by
  unfold lowerBound
  split <;> linarith

theorem pos_of_contains {m : Nat} (hm : 0 < m) {e : Int} {x : ℚ}
    (h : (interval m e).Contains x) : 0 < x := by
  have hone : (1 : ℚ) ≤ m := by exact_mod_cast hm
  have hpow : (0 : ℚ) < 2 ^ e := by positivity
  rw [← div_pos_iff_of_pos_right hpow]
  linarith [half_le_lowerBound m e, (bounds_of_contains hm h).1]

/-- A quotient lies below the power of two for its exponent, and fills the mantissa unless the
exponent is the least. -/
theorem exponentOf_bounds {num den : Nat} (hnum : 0 < num) (hden : 0 < den) :
    -1074 ≤ exponentOf num den ∧ (num : ℚ) / den < 2 ^ (53 + exponentOf num den) ∧
      ((2 : ℚ) ^ (52 + exponentOf num den) ≤ num / den ∨ exponentOf num den = -1074) := by
  have hx : (0 : ℚ) < num / den := by positivity
  obtain ⟨k, hk, hk'⟩ := exists_mem_Ico_zpow hx (one_lt_two (α := ℚ))
  have hexponent : exponentOf num den = max (k - 52) (-1074) := by
    refine exponentOf_of_le hnum hden ?_ ?_
    · rwa [add_sub_cancel]
    · rwa [show (53 : Int) + (k - 52) = k + 1 by ring]
  rw [hexponent]
  refine ⟨by omega, hk'.trans_le (zpow_le_zpow_right₀ one_le_two (by omega)), ?_⟩
  by_cases hle : -1074 ≤ k - 52
  · rw [max_eq_left hle, add_sub_cancel]
    exact .inl hk
  · exact .inr (max_eq_right (by omega))

/-- The exponent of a number below the next power of two. -/
theorem exponentOf_of_lt {num den : Nat} (hnum : 0 < num) (hden : 0 < den) {e : Int}
    (he : -1074 ≤ e) (hhigh : (num : ℚ) / den < 2 ^ (53 + e))
    (hlow : (2 : ℚ) ^ (52 + e) ≤ num / den ∨ e = -1074) : exponentOf num den = e := by
  obtain ⟨hleast, hbelow, hfull⟩ := exponentOf_bounds hnum hden
  have hlt : ∀ {i j : Int}, (2 : ℚ) ^ (52 + i) ≤ num / den → (num : ℚ) / den < 2 ^ (53 + j) →
      i ≤ j := fun h h' => by
    have := (zpow_lt_zpow_iff_right₀ (one_lt_two (α := ℚ))).mp (h.trans_lt h')
    omega
  have hle : exponentOf num den ≤ e := hfull.elim (fun h => hlt h hhigh) fun h => h ▸ he
  have hge : e ≤ exponentOf num den := hlow.elim (fun h => hlt h hbelow) fun h => h ▸ hleast
  exact le_antisymm hle hge

/-- Rounding, by the exponent and the mantissa before a carry. -/
theorem ofRatio_eq (s : Bool) {num den m : Nat} {e : Int} (hnum : num ≠ 0)
    (he : exponentOf num den = e)
    (hm : roundDiv (scaled num den e).1 (scaled num den e).2 = m) :
    ofRatio s num den = if m < 2 ^ 53 then if 971 < e then .infinite s else .finite s m e
      else if 971 < e + 1 then .infinite s else .finite s (2 ^ 52) (e + 1) := by
  subst he hm
  unfold ofRatio
  rw [if_neg (by simpa using hnum)]
  simp only [Nat.pow_eq]
  split_ifs <;> simp_all

/-- A quotient rounds to a number of the format. -/
theorem isCanonical_ofRatio (s : Bool) (num : Nat) {den : Nat} (hden : 0 < den) :
    (ofRatio s num den).isCanonical := by
  by_cases hnum : num = 0
  · rw [hnum]
    rfl
  obtain ⟨hleast, hbelow, hfull⟩ := exponentOf_bounds (Nat.pos_of_ne_zero hnum) hden
  rw [ofRatio_eq s hnum rfl rfl]
  generalize exponentOf num den = e at hleast hbelow hfull
  have hscaled : ((scaled num den e).1 : ℚ) / (scaled num den e).2 = num / den / 2 ^ e :=
    quotient_scaled num den e
  have hpow : (0 : ℚ) < 2 ^ e := by positivity
  have hround := roundDiv_mem (scaled num den e).1 (scaled num den e).2
  have hfloor : (scaled num den e).1 / (scaled num den e).2 = ⌊(num : ℚ) / den / 2 ^ e⌋₊ := by
    rw [← hscaled]
    exact (Nat.floor_div_eq_div _ _).symm
  have hwidth : (scaled num den e).1 / (scaled num den e).2 < 2 ^ 53 := by
    rw [hfloor, Nat.floor_lt (by positivity), div_lt_iff₀ hpow]
    rw [zpow_add₀ two_ne_zero] at hbelow
    exact_mod_cast hbelow
  have hfill : 2 ^ 52 ≤ (scaled num den e).1 / (scaled num den e).2 ∨ e = -1074 := by
    refine hfull.imp_left fun hle => ?_
    rw [hfloor, Nat.le_floor_iff (by positivity), le_div_iff₀ hpow]
    rw [zpow_add₀ two_ne_zero] at hle
    exact_mod_cast hle
  generalize roundDiv (scaled num den e).1 (scaled num den e).2 = m at hround
  have hcanonical : ∀ {m : Nat} {e : Int}, Canonical m e → (finite s m e).isCanonical :=
    fun h => decide_eq_true h
  split
  · next hm =>
    split
    · rfl
    · next he => exact hcanonical ⟨hm, hleast, not_lt.mp he, hfill.imp_left fun h => by omega⟩
  · next hm =>
    split
    · rfl
    · next he => exact hcanonical ⟨by decide, by omega, not_lt.mp he, .inl le_rfl⟩

section

variable (s : Bool) {num den : Nat} (hnum : 0 < num) (hden : 0 < den)
include hnum hden

/-- A quotient next to a mantissa, with the exponent of the number, rounds to the number. -/
theorem ofRatio_of_near {m : Nat} {e : Int} (hc : Canonical m e)
    (hfull : (2 : ℚ) ^ (52 + e) ≤ num / den ∨ e = -1074)
    (hlow : (m : ℚ) - 1 / 2 ≤ num / den / 2 ^ e) (hhigh : (num : ℚ) / den / 2 ^ e ≤ m + 1 / 2)
    (hodd : m % 2 = 1 →
      (m : ℚ) - 1 / 2 < num / den / 2 ^ e ∧ (num : ℚ) / den / 2 ^ e < m + 1 / 2) :
    ofRatio s num den = .finite s m e := by
  have hbelow : (num : ℚ) / den < 2 ^ (53 + e) := by
    have hm : (m : ℚ) + 1 ≤ 2 ^ 53 := by exact_mod_cast hc.mantissa
    rw [zpow_add₀ two_ne_zero, ← div_lt_iff₀ (by positivity)]
    norm_num at hm ⊢
    linarith
  have hround : roundDiv (scaled num den e).1 (scaled num den e).2 = m := by
    have hscaled : ((scaled num den e).1 : ℚ) / (scaled num den e).2 = num / den / 2 ^ e :=
      quotient_scaled num den e
    refine roundDiv_eq (scaled_pos hden num e) ?_ ?_ ?_ <;> rw [hscaled]
    exacts [hlow, hhigh, hodd]
  rw [ofRatio_eq s hnum.ne' (exponentOf_of_lt hnum hden hc.least hbelow hfull) hround,
    if_pos hc.mantissa, if_neg (not_lt.mpr hc.greatest)]

/-- A quotient just below a power of two is carried over to it. -/
theorem ofRatio_of_carry {e : Int} (he : -1074 < e) (he' : e ≤ 971)
    (hlow : (2 : ℚ) ^ 52 - 1 / 4 ≤ num / den / 2 ^ e) (hhigh : (num : ℚ) / den < 2 ^ (52 + e)) :
    ofRatio s num den = .finite s (2 ^ 52) e := by
  have hbelow : (num : ℚ) / den / 2 ^ e < 2 ^ 52 := by
    rw [zpow_add₀ two_ne_zero] at hhigh
    rw [div_lt_iff₀ (by positivity)]
    exact_mod_cast hhigh
  have hprevious : (num : ℚ) / den / 2 ^ (e - 1) = 2 * (num / den / 2 ^ e) := by
    rw [zpow_sub_one₀ two_ne_zero]
    field_simp
  have hexponent : exponentOf num den = e - 1 := by
    refine exponentOf_of_lt hnum hden (by omega) ?_ (.inl ?_)
    · rwa [show 53 + (e - 1) = 52 + e by ring]
    · rw [zpow_add₀ two_ne_zero, ← le_div_iff₀ (by positivity), hprevious]
      norm_num at hlow ⊢
      linarith
  have hround : roundDiv (scaled num den (e - 1)).1 (scaled num den (e - 1)).2 = 2 ^ 53 := by
    have hscaled : ((scaled num den (e - 1)).1 : ℚ) / (scaled num den (e - 1)).2 =
        2 * (num / den / 2 ^ e) := (quotient_scaled num den (e - 1)).trans hprevious
    refine roundDiv_eq (scaled_pos hden num (e - 1)) ?_ ?_ fun hodd => by omega
    all_goals rw [hscaled]; norm_num at hlow hbelow ⊢; linarith
  rw [ofRatio_eq s hnum.ne' hexponent hround, if_neg (lt_irrefl _), sub_add_cancel,
    if_neg (not_lt.mpr he')]

end

/-! ## Decimals -/

/-- The largest number is below the decimals that are read as infinite. -/
theorem largest_lt : (2 : ℚ) ^ 53 * 2 ^ (971 : Int) < 10 ^ (320 : Int) := by
  have hnat : 2 ^ 53 * 2 ^ 971 < 10 ^ 320 := by decide +kernel
  have hcast := Nat.cast_lt (α := ℚ) |>.mpr hnat
  rw [Nat.cast_mul, Nat.cast_pow, Nat.cast_pow, Nat.cast_pow, Nat.cast_ofNat, Nat.cast_ofNat]
    at hcast
  rwa [zpow_ofNat, zpow_ofNat]

/-- Half of the least positive number is above the decimals that are read as nought. -/
theorem lt_least : (10 : ℚ) ^ (-340 : Int) < 1 / 2 * 2 ^ (-1074 : Int) := by
  have hnat : 2 * 2 ^ 1074 < 10 ^ 340 := by decide +kernel
  have hcast := Nat.cast_lt (α := ℚ) |>.mpr hnat
  rw [Nat.cast_mul, Nat.cast_pow, Nat.cast_pow, Nat.cast_ofNat, Nat.cast_ofNat] at hcast
  rw [zpow_neg, zpow_neg, zpow_ofNat, zpow_ofNat, one_div, ← mul_inv]
  exact inv_strictAnti₀ (by positivity) hcast

section

variable {m : Nat} (hm : 0 < m) {e : Int} (hc : Canonical m e) (s : Bool)
include hm hc

/-- The quotients between the bounds of a number round to it. -/
theorem ofRatio_of_contains {num den : Nat} (hden : 0 < den)
    (h : (interval m e).Contains (num / den)) : ofRatio s num den = .finite s m e := by
  obtain ⟨hlow, hhigh, hodd⟩ := bounds_of_contains hm h
  have hhalf := half_le_lowerBound m e
  have hnum : 0 < num := by
    have hpos := pos_of_contains hm h
    rw [div_pos_iff_of_pos_right (by exact_mod_cast hden)] at hpos
    exact_mod_cast hpos
  by_cases hfull : (2 : ℚ) ^ (52 + e) ≤ num / den ∨ e = -1074
  · exact ofRatio_of_near s hnum hden hc hfull (hhalf.trans hlow) hhigh
      fun hm => ⟨hhalf.trans_lt (hodd hm).1, (hodd hm).2⟩
  · push Not at hfull
    obtain ⟨hbelow, hleast⟩ := hfull
    have hgreater : -1074 < e := lt_of_le_of_ne hc.least (Ne.symm hleast)
    -- all larger mantissas have their lower bound above the power of two
    have hpower : m = 2 ^ 52 := by
      have hlt : (num : ℚ) / den / 2 ^ e < 2 ^ 52 := by
        rw [zpow_add₀ two_ne_zero] at hbelow
        rw [div_lt_iff₀ (by positivity)]
        exact_mod_cast hbelow
      have hlt : (m : ℚ) < 2 ^ 52 + 1 := by linarith
      have hlt : m < 2 ^ 52 + 1 := by exact_mod_cast hlt
      have hle := hc.full.resolve_right hleast
      omega
    have hbound : lowerBound m e = 2 ^ 52 - 1 / 4 := by
      unfold lowerBound
      rw [if_pos ⟨hpower, hgreater⟩, hpower]
      norm_num
    rw [hbound] at hlow
    rw [hpower]
    exact ofRatio_of_carry s hnum hden hgreater hc.greatest hlow hbelow

/-- The decimals between the bounds of a number are read as it. -/
theorem ofDecimal_of_contains {digits : Nat} {exponent : Int}
    (h : (interval m e).Contains (digits * 10 ^ exponent)) :
    ofDecimal s digits exponent = .finite s m e := by
  have hpos := pos_of_contains hm h
  have hten : (0 : ℚ) < 10 ^ exponent := by positivity
  have hdigits : 0 < digits := by
    rw [mul_pos_iff_of_pos_right hten] at hpos
    exact_mod_cast hpos
  obtain ⟨hlow, hhigh, -⟩ := bounds_of_contains hm h
  obtain ⟨hleast, hgreatest⟩ := length_toDigits hdigits
  have hpow : (0 : ℚ) < 2 ^ e := by positivity
  rw [le_div_iff₀ hpow] at hlow
  rw [div_le_iff₀ hpow] at hhigh
  have horder : (10 : ℚ) ^ (((Nat.toDigits 10 digits).length : Int) + exponent - 1) ≤
      digits * 10 ^ exponent := by
    rw [add_sub_right_comm, zpow_add₀ (by norm_num)]
    gcongr
  have horder' : digits * 10 ^ exponent <
      (10 : ℚ) ^ (((Nat.toDigits 10 digits).length : Int) + exponent) := by
    rw [zpow_add₀ (by norm_num)]
    gcongr
  have hnotLarge : ¬320 < ((Nat.toDigits 10 digits).length : Int) + exponent := by
    intro hlarge
    have hm53 : (m : ℚ) + 1 ≤ 2 ^ 53 := by exact_mod_cast hc.mantissa
    refine absurd largest_lt (not_lt.mpr ?_)
    calc (10 : ℚ) ^ (320 : Int)
        ≤ 10 ^ (((Nat.toDigits 10 digits).length : Int) + exponent - 1) :=
          zpow_le_zpow_right₀ (by norm_num) (by omega)
      _ ≤ digits * 10 ^ exponent := horder
      _ ≤ (m + 1 / 2) * 2 ^ e := hhigh
      _ ≤ 2 ^ 53 * 2 ^ (971 : Int) := mul_le_mul (by linarith)
          (zpow_le_zpow_right₀ one_le_two hc.greatest) (by positivity) (by positivity)
  have hnotSmall : ¬((Nat.toDigits 10 digits).length : Int) + exponent < -340 := by
    intro hsmall
    have hone : (1 : ℚ) ≤ m := by exact_mod_cast hm
    refine absurd lt_least (not_lt.mpr ?_)
    calc (1 / 2 : ℚ) * 2 ^ (-1074 : Int)
        ≤ lowerBound m e * 2 ^ e := mul_le_mul (by linarith [half_le_lowerBound m e])
          (zpow_le_zpow_right₀ one_le_two hc.least) (by positivity)
          (by linarith [half_le_lowerBound m e])
      _ ≤ digits * 10 ^ exponent := hlow
      _ ≤ 10 ^ (((Nat.toDigits 10 digits).length : Int) + exponent) := horder'.le
      _ ≤ 10 ^ (-340 : Int) := zpow_le_zpow_right₀ (by norm_num) hsmall.le
  have hratio : ofRatio s (tenfold digits exponent).1 (tenfold digits exponent).2 =
      .finite s m e := by
    refine ofRatio_of_contains hm hc s (tenfold_snd_pos digits exponent) ?_
    rwa [show ((tenfold digits exponent).1 : ℚ) / (tenfold digits exponent).2 =
      digits * 10 ^ exponent from quotient_tenfold digits exponent]
  unfold tenfold at hratio
  unfold ofDecimal
  rw [if_neg (by simpa using hdigits.ne')]
  simp only [if_neg hnotLarge, if_neg hnotSmall]
  split at hratio
  · next hneg => rwa [if_pos hneg]
  · next hneg => rwa [if_neg hneg]

end

/-- A decimal is read as a number of the format. -/
theorem isCanonical_ofDecimal (s : Bool) (digits : Nat) (exponent : Int) :
    (ofDecimal s digits exponent).isCanonical := by
  unfold ofDecimal
  simp only
  split
  · rfl
  split
  · rfl
  split
  · rfl
  split
  · exact isCanonical_ofRatio s digits (Nat.pow_pos (by decide))
  · exact isCanonical_ofRatio s _ Nat.one_pos

end Binary64

end GraphPaths
