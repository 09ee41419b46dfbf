import GraphPaths.Proofs.Json.Grammar

/-!
# Texts that are read from JSON

What is written between quotes is read back (`string_quote`): each character stands for itself, or
is written as an escape of one letter, of one code unit or of two (`chars_escapeChar`).
-/

namespace GraphPaths

namespace Json

/-! ## Code units -/

/-- A code unit is read back. -/
theorem unit4_hexPadded {n : Nat} (h : n < 0x10000) {cs : List Char} (hcs : cs ≠ []) :
    unit4 (Text.hexPadded false 4 n ++ cs) = some (n, cs) := by
  obtain ⟨c, cs, rfl⟩ := List.exists_cons_of_ne_nil hcs
  have hchar : ∀ m, Text.hexDigit (Text.hexChar false (m % 16)) = some (m % 16) :=
    fun m => Text.hexDigit_hexChar false (Nat.mod_lt m (by decide))
  have hpadded : Text.hexPadded false 4 n = [Text.hexChar false (n / 16 / 16 / 16 % 16),
      Text.hexChar false (n / 16 / 16 % 16), Text.hexChar false (n / 16 % 16),
      Text.hexChar false (n % 16)] := rfl
  rw [hpadded]
  show unit4 (_ :: _ :: _ :: _ :: c :: cs) = _
  unfold unit4
  simp only [hchar, Option.bind_eq_bind, Option.bind_some]
  have hsum : ((n / 16 / 16 / 16 % 16 * 16 + n / 16 / 16 % 16) * 16 + n / 16 % 16) * 16 + n % 16 =
      n := by omega
  rw [hsum]
  rfl

/-- No character is a half of a pair of code units. -/
theorem toNat_valid (c : Char) : c.toNat < 0xD800 ∨ 0xDFFF < c.toNat ∧ c.toNat < 0x110000 :=
  c.valid

/-- The escape of a character of one code unit is read back. -/
theorem codePoint_unit {c : Char} (h : c.toNat < 0x10000) {cs : List Char} (hcs : cs ≠ []) :
    codePoint (Text.hexPadded false 4 c.toNat ++ cs) = some (c, cs) := by
  have hvalid := toNat_valid c
  have hhigh : (decide (0xD800 ≤ c.toNat) && decide (c.toNat < 0xDC00)) = false := by
    simp
    omega
  have hcode : ofCode c.toNat = c := by
    unfold ofCode
    rw [if_neg (by simp; omega), Char.ofNat_toNat]
  unfold codePoint
  rw [unit4_hexPadded h hcs]
  simp only [Option.bind_eq_bind, Option.bind_some, hhigh, Bool.false_eq_true, if_false, hcode]
  rfl

/-- Two code units are read as the character that they are the halves of. -/
theorem codePoint_pair {high low : Nat} (hhigh : 0xD800 ≤ high ∧ high < 0xDC00)
    (hlow : 0xDC00 ≤ low ∧ low < 0xE000) {cs : List Char} (hcs : cs ≠ []) :
    codePoint (Text.hexPadded false 4 high ++ (unitEscape low ++ cs)) =
      some (Char.ofNat (0x10000 + (high - 0xD800) * 0x400 + (low - 0xDC00)), cs) := by
  have hlow' := unit4_hexPadded (n := low) (by omega) hcs
  unfold codePoint
  rw [unit4_hexPadded (by omega) (by unfold unitEscape; exact List.cons_ne_nil _ _)]
  unfold unitEscape
  simp only [Option.bind_eq_bind, Option.bind_some, hhigh, hlow, decide_true, Bool.and_self,
    if_true, List.cons_append, hlow']
  rfl

/-! ## Characters -/

section

variable (start : List Char) (fuel : Nat) (acc : List Char)

/-- An escape of one letter stands for a character. -/
theorem chars_escaped {l c : Char} (h : escaped l = some c) (cs : List Char) :
    chars start (fuel + 1) acc ('\\' :: l :: cs) = chars start fuel (c :: acc) cs := by
  have hl : l ≠ 'u' := by
    rintro rfl
    contradiction
  rw [chars]
  · simp only [h]
  · exact hl

/-- An escape of code units stands for the character that they are read as. -/
theorem chars_codePoint {cs rest : List Char} {c : Char} (h : codePoint cs = some (c, rest)) :
    chars start (fuel + 1) acc ('\\' :: 'u' :: cs) = chars start fuel (c :: acc) rest := by
  rw [chars]
  simp only [h]

/-- A character that is no control, no quote and no backslash stands for itself. -/
theorem chars_plain {c : Char} (hcontrol : ¬c.toNat < 32) (hquote : c ≠ '"') (hbackslash : c ≠ '\\')
    (cs : List Char) : chars start (fuel + 1) acc (c :: cs) = chars start fuel (c :: acc) cs := by
  rw [chars]
  · rw [if_neg hcontrol]
  · exact hquote
  · exact fun h _ => hbackslash h
  · exact fun _ h _ => hbackslash h
  · exact fun _ _ h _ => hbackslash h

/-- A character that is written between quotes is read back. -/
theorem chars_escapeChar (c : Char) {cs : List Char} (hcs : cs ≠ []) :
    chars start (fuel + 1) acc (escapeChar c ++ cs) = chars start fuel (c :: acc) cs := by
  obtain ⟨l, -, hl, hc⟩ | ⟨⟨hcontrol, hquote, hbackslash⟩, hc⟩ | ⟨hunit, hc⟩ | ⟨hunit, hc⟩ :=
    escapeChar_cases c <;> rw [hc]
  · exact chars_escaped start fuel acc hl cs
  · exact chars_plain start fuel acc (Nat.not_lt.mpr hcontrol) hquote hbackslash cs
  · exact chars_codePoint start fuel acc (codePoint_unit hunit hcs)
  · have hvalid := toNat_valid c
    have hpair := @codePoint_pair (0xD800 + (c.toNat - 0x10000) / 0x400)
      (0xDC00 + (c.toNat - 0x10000) % 0x400) (by omega) (by omega) cs hcs
    have hsum : 0x10000 + (0xD800 + (c.toNat - 0x10000) / 0x400 - 0xD800) * 0x400 +
      (0xDC00 + (c.toNat - 0x10000) % 0x400 - 0xDC00) = c.toNat := by omega
    rw [hsum, Char.ofNat_toNat, ← List.append_assoc] at hpair
    exact chars_codePoint start fuel acc hpair

end

/-! ## Texts -/

theorem length_le_flatMap (cs : List Char) : cs.length ≤ (cs.flatMap escapeChar).length := by
  have hone : ∀ c, 1 ≤ (escapeChar c).length := by
    intro c
    obtain ⟨l, -, -, hc⟩ | ⟨-, hc⟩ | ⟨-, hc⟩ | ⟨-, hc⟩ := escapeChar_cases c <;>
      simp [hc, unitEscape]
  induction cs with
  | nil => rfl
  | cons c cs ih =>
    have := hone c
    rw [List.flatMap_cons, List.length_append, List.length_cons]
    omega

/-- The characters up to the closing quote are read back. -/
theorem chars_flatMap (start rest : List Char) : ∀ {fuel : Nat} (acc cs : List Char),
    cs.length < fuel → chars start fuel acc (cs.flatMap escapeChar ++ '"' :: rest) =
      .ok (String.ofList (acc.reverse ++ cs), rest)
  | fuel + 1, acc, [], _ => by
    rw [List.append_nil]
    rfl
  | fuel + 1, acc, c :: cs, h => by
    have hrest : cs.flatMap escapeChar ++ '"' :: rest ≠ [] :=
      List.append_ne_nil_of_right_ne_nil _ (List.cons_ne_nil _ _)
    rw [List.flatMap_cons, List.append_assoc, chars_escapeChar start fuel acc c hrest,
      chars_flatMap start rest (c :: acc) cs (Nat.lt_of_succ_lt_succ h), List.reverse_cons,
      List.append_assoc]
    rfl

/-- A text that is written in quotes is read back. -/
theorem string_quote (s : String) (rest : List Char) :
    string (s.toList.flatMap escapeChar ++ '"' :: rest) = .ok (s, rest) := by
  have hlength := length_le_flatMap s.toList
  unfold string
  rw [chars_flatMap _ _ _ _ (by rw [List.length_append]; omega), List.reverse_nil,
    List.nil_append, String.ofList_toList]

end Json

end GraphPaths
