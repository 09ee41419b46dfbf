import GraphPaths.Proofs.Number.Rounding
import GraphPaths.Proofs.Text.Digits

/-!
# The shortest decimal of a number

What is found on a grid lies between the bounds of the number (`holds_of_onGrid`), and on the grid
of twenty digits something is found at the latest, so that the shortest decimal of a number is one
that rounds to it (`shortest_contains`). Noughts at its end may be left out (`trimmed_value`).
-/

namespace GraphPaths

namespace Binary64

open Text (length_toDigits)

/-! ## One grid -/

/-- What is found on a grid lies in the interval. -/
theorem holds_of_onGrid {i : Interval} {num den digits : Nat} {p : Int}
    (h : onGrid i num den p = some digits) :
    i.holds (tenfold digits p).1 (tenfold digits p).2 := by
  unfold onGrid at h
  generalize (if p < 0 then (num * Nat.pow 10 p.natAbs, den)
    else (num, den * Nat.pow 10 p.natAbs)) = quotient at h
  obtain ⟨n, d⟩ := quotient
  simp only at h
  split at h
  · next hbelow habove =>
    obtain rfl := Option.some.inj h
    split
    · exact hbelow
    · exact habove
  · next hbelow _ => exact Option.some.inj h ▸ hbelow
  · next _ habove => exact Option.some.inj h ▸ habove
  · contradiction

/-- Something is found on a grid if the neighbour below lies in the interval. -/
theorem onGrid_ne_none {i : Interval} {num den : Nat} {p : Int} (hden : 0 < den)
    (h : ∀ k : Nat, (k : ℚ) * 10 ^ p ≤ num / den → (num : ℚ) / den < (k + 1) * 10 ^ p →
      i.Contains (k * 10 ^ p)) : onGrid i num den p ≠ none := by
  have hquotient : quotient (if p < 0 then (num * Nat.pow 10 p.natAbs, den)
      else (num, den * Nat.pow 10 p.natAbs)) = num / den / 10 ^ p := by
    unfold quotient
    split
    · next hp =>
      obtain ⟨k, rfl⟩ := Int.eq_negSucc_of_lt_zero hp
      simp [zpow_negSucc, Int.natAbs_negSucc, div_mul_eq_mul_div]
    · next hp =>
      obtain ⟨k, rfl⟩ := Int.eq_ofNat_of_zero_le (not_lt.mp hp)
      simp [div_div]
  unfold onGrid
  generalize (if p < 0 then (num * Nat.pow 10 p.natAbs, den)
    else (num, den * Nat.pow 10 p.natAbs)) = q at hquotient
  obtain ⟨n, d⟩ := q
  have hten : (0 : ℚ) < 10 ^ p := by positivity
  have hfloor : n / d = ⌊(num : ℚ) / den / 10 ^ p⌋₊ := by
    rw [← hquotient]
    exact (Nat.floor_div_eq_div n d).symm
  have hbelow : i.holds (tenfold (n / d) p).1 (tenfold (n / d) p).2 := by
    rw [holds_iff i (tenfold_snd_pos _ p), show ((tenfold (n / d) p).1 : ℚ) /
      (tenfold (n / d) p).2 = (n / d : Nat) * 10 ^ p from quotient_tenfold _ p]
    refine h _ ?_ ?_
    · rw [← le_div_iff₀ hten, hfloor]
      exact Nat.floor_le (by positivity)
    · rw [← div_lt_iff₀ hten, hfloor]
      exact Nat.lt_floor_add_one _
  simp only [hbelow]
  split <;> simp_all

/-! ## All grids -/

/-- A quotient is at least the power of ten below its order of magnitude. -/
theorem zpow_order_le {num den : Nat} (hnum : 0 < num) (hden : 0 < den) :
    (10 : ℚ) ^ (order num den - 1) ≤ num / den := by
  have hden_pos : (0 : ℚ) < den := by exact_mod_cast hden
  unfold order
  generalize hguess : ((Nat.toDigits 10 num).length : Int) - ((Nat.toDigits 10 den).length : Int) =
    guess
  have hten : (10 : ℚ) ^ guess = (tenfold 1 guess).1 / (tenfold 1 guess).2 := by
    rw [← one_mul ((10 : ℚ) ^ guess), ← Nat.cast_one]
    exact (quotient_tenfold 1 guess).symm
  have hpos : (0 : ℚ) < (tenfold 1 guess).2 := by exact_mod_cast tenfold_snd_pos 1 guess
  simp only
  split
  · next hle =>
    rw [add_sub_cancel_right, hten, div_le_div_iff₀ hpos hden_pos]
    exact_mod_cast hle
  · have hsum : guess - 1 =
        (((Nat.toDigits 10 num).length : Int) - 1) - (Nat.toDigits 10 den).length := by omega
    rw [hsum, zpow_sub₀ (by norm_num), div_le_div_iff₀ (by positivity) hden_pos]
    have hnum_le := (length_toDigits hnum).1
    have hden_le := (length_toDigits hden).2.le
    gcongr

/-- What is found on the first grids lies in the interval if any of them has something. -/
theorem holds_of_firstGrid {i : Interval} {num den : Nat} {k : Int} : ∀ fuel {width w : Nat},
    width ≤ w → w < width + fuel → onGrid i num den (k - w) ≠ none →
      i.holds (tenfold (firstGrid i num den k fuel width).1
          (firstGrid i num den k fuel width).2).1
        (tenfold (firstGrid i num den k fuel width).1 (firstGrid i num den k fuel width).2).2
  | 0, _, _, hle, hlt, _ => absurd hlt (Nat.not_lt.mpr hle)
  | fuel + 1, width, w, hle, hlt, hw => by
    unfold firstGrid
    cases hgrid : onGrid i num den (k - width) with
    | some digits => exact holds_of_onGrid hgrid
    | none =>
      have hne : w ≠ width := by
        rintro rfl
        exact hw hgrid
      exact holds_of_firstGrid fuel (by omega) (by omega) hw

theorem lowerBound_le (m : Nat) (e : Int) : lowerBound m e ≤ m - 1 / 4 := by
  unfold lowerBound
  split <;> linarith

/-- The shortest decimal of a number lies between the bounds of the number. -/
theorem shortest_contains {m : Nat} (hm : 0 < m) {e : Int} (hc : Canonical m e) :
    (interval m e).Contains ((shortest m e).1 * 10 ^ (shortest m e).2) := by
  have hquotient := quotient_ratio m e
  have hden := ratio_snd_pos m e
  have hnum := ratio_pos hm e
  unfold shortest
  generalize ratio m e = q at hquotient hden hnum
  obtain ⟨num, den⟩ := q
  simp only at hden hnum ⊢
  have hvalue : (num : ℚ) / den = m * 2 ^ e := hquotient
  have horder := zpow_order_le hnum hden
  have hpow : (0 : ℚ) < 2 ^ e := by positivity
  rw [hvalue] at horder
  -- a step on the grid of twenty digits is less than a quarter of the last digit of the mantissa
  have hstep : (10 : ℚ) ^ (order num den - (20 : Nat)) < 2 ^ e / 4 := by
    have hm53 : (m : ℚ) * 2 ^ e < 2 ^ 53 * 2 ^ e := by
      have hlt : (m : ℚ) < 2 ^ 53 := by exact_mod_cast hc.mantissa
      gcongr
    have hsum : order num den - (20 : Nat) = (order num den - 1) + (-19) := by
      push_cast
      ring
    rw [hsum, zpow_add₀ (by norm_num)]
    norm_num at hm53 ⊢
    linarith
  have hgrid : onGrid (interval m e) num den (order num den - (20 : Nat)) ≠ none := by
    refine onGrid_ne_none hden fun k hle hlt => contains_of_between hm ?_ ?_
    · rw [hvalue] at hlt
      have hbound : lowerBound m e * 2 ^ e ≤ (m - 1 / 4) * 2 ^ e := by
        have hle := lowerBound_le m e
        gcongr
      rw [lt_div_iff₀ hpow]
      generalize (10 : ℚ) ^ (order num den - (20 : Nat)) = step, (2 : ℚ) ^ e = unit at *
      linarith
    · rw [hvalue] at hle
      rw [div_lt_iff₀ hpow]
      generalize (10 : ℚ) ^ (order num den - (20 : Nat)) = step, (2 : ℚ) ^ e = unit at *
      linarith
  have hholds := holds_of_firstGrid (k := order num den) 20 (by omega : 1 ≤ 20) (by omega) hgrid
  rw [holds_iff _ (tenfold_snd_pos _ _)] at hholds
  have hten := quotient_tenfold (firstGrid (interval m e) num den (order num den) 20 1).1
    (firstGrid (interval m e) num den (order num den) 20 1).2
  unfold quotient at hten
  rwa [hten] at hholds

/-! ## Noughts -/

/-- The decimal without noughts at its end is the same number. -/
theorem trimmed_value : ∀ fuel (digits : Nat) (e : Int),
    ((trimmed fuel digits e).1 : ℚ) * 10 ^ (trimmed fuel digits e).2 = digits * 10 ^ e
  | 0, _, _ => rfl
  | fuel + 1, digits, e => by
    unfold trimmed
    split
    · next hnought =>
      simp only [Bool.and_eq_true, beq_iff_eq] at hnought
      have hdigits : digits = digits / 10 * 10 := by omega
      rw [trimmed_value fuel (digits / 10) (e + 1), zpow_add_one₀ (by norm_num),
        mul_comm _ (10 : ℚ), ← mul_assoc]
      congr 1
      exact_mod_cast hdigits.symm
    · rfl

/-- Nought does not round to a positive number. -/
theorem holds_zero {i : Interval} (hi : 0 < i.low) (p : Int) :
    i.holds (tenfold 0 p).1 (tenfold 0 p).2 = false := by
  have hlow : (0 : ℚ) < i.low * 2 ^ i.unit := by positivity
  rw [← Bool.not_eq_true, holds_iff i (tenfold_snd_pos 0 p),
    show ((tenfold 0 p).1 : ℚ) / (tenfold 0 p).2 = (0 : Nat) * 10 ^ p from quotient_tenfold 0 p]
  unfold Interval.Contains
  rw [Nat.cast_zero, zero_mul]
  split
  · exact fun h => absurd h.1 (not_le.mpr hlow)
  · exact fun h => absurd h.1 hlow.le.not_gt

/-- What is found on a grid for a positive number is not nought. -/
theorem onGrid_nonzero {i : Interval} (hi : 0 < i.low) {num den digits : Nat} {p : Int}
    (h : onGrid i num den p = some digits) : digits ≠ 0 := by
  rintro rfl
  have hholds := holds_of_onGrid h
  rw [holds_zero hi] at hholds
  contradiction

theorem order_le (num den : Nat) : order num den ≤
    (Nat.toDigits 10 num).length - (Nat.toDigits 10 den).length + 1 := by
  unfold order
  simp only
  split <;> omega

/-- A number with fewer digits than another is the smaller one. -/
theorem length_toDigits_le {num den : Nat} (hnum : 0 < num) {width : Nat} (hwidth : 0 < width)
    (h : num * 10 ^ width < den) :
    (Nat.toDigits 10 num).length + width ≤ (Nat.toDigits 10 den).length := by
  have hpos : 0 < (Nat.toDigits 10 num).length := Nat.length_toDigits_pos
  generalize hlength : (Nat.toDigits 10 num).length = length at hpos ⊢
  have hnum : 10 ^ (length - 1) ≤ num := by
    by_cases hone : length - 1 = 0
    · rw [hone]
      exact hnum
    · have := Nat.length_toDigits_le_iff (b := 10) (n := num) (by decide) (Nat.pos_of_ne_zero hone)
      omega
  by_contra hlt
  have hden : den < 10 ^ (length - 1 + width) :=
    (Nat.length_toDigits_le_iff (by decide) (by omega)).mp (by omega)
  rw [Nat.pow_add] at hden
  have := Nat.mul_le_mul_right (10 ^ width) hnum
  omega

/-- Digits that stand for a number are not a nought, or the number is below one. -/
def Proper (digits : Nat) (exponent : Int) : Prop := digits ≠ 0 ∨ exponent < 0

theorem firstGrid_proper {i : Interval} (hi : 0 < i.low) {num den : Nat} (hnum : 0 < num)
    (hden : 0 < den) : ∀ fuel {width : Nat}, 0 < width →
      Proper (firstGrid i num den (order num den) fuel width).1
        (firstGrid i num den (order num den) fuel width).2
  | 0, width, hwidth => by
    by_cases hzero : num * 10 ^ width / den = 0
    · have hlength := length_toDigits_le hnum hwidth ((Nat.div_eq_zero_iff_lt hden).mp hzero)
      have horder := order_le num den
      refine .inr ?_
      show order num den - width < 0
      omega
    · exact .inl hzero
  | fuel + 1, width, hwidth => by
    unfold firstGrid
    cases hgrid : onGrid i num den (order num den - width) with
    | some digits => exact .inl (onGrid_nonzero hi hgrid)
    | none => exact firstGrid_proper hi hnum hden fuel (Nat.succ_pos width)

theorem shortest_proper {m : Nat} (hm : 0 < m) (e : Int) :
    Proper (shortest m e).1 (shortest m e).2 := by
  have hlow : 0 < (interval m e).low := by
    unfold interval
    simp only
    split <;> omega
  have hden : 0 < (ratio m e).2 := by
    unfold ratio
    split
    · exact Nat.pow_pos (by decide)
    · exact Nat.one_pos
  exact firstGrid_proper hlow (ratio_pos hm e) hden 20 Nat.one_pos

theorem trimmed_proper : ∀ fuel {digits : Nat} {e : Int}, Proper digits e →
    Proper (trimmed fuel digits e).1 (trimmed fuel digits e).2
  | 0, _, _, h => h
  | fuel + 1, digits, e, h => by
    unfold trimmed
    split
    · next hnought =>
      simp only [Bool.and_eq_true, beq_iff_eq, bne_iff_ne] at hnought
      exact trimmed_proper fuel (.inl (by omega))
    · exact h

end Binary64

end GraphPaths
