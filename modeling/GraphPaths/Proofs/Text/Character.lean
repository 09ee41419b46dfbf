import GraphPaths.Text.Blank
import GraphPaths.Text.Case
import Mathlib

/-!
# Characters by their numbers

Classes of characters are given by comparisons of characters. `charLe_iff` and `charEq_iff` turn
these into comparisons of numbers; what is to be known of ASCII characters alone can be checked for
each of them (`forall_ascii`). The characters of white space are those with certain numbers
(`isBlank_iff`). A text is what is left of it between characters of a class (`exists_stripBy`), and
what has none of them is left as it is (`stripBy_padded`).
-/

namespace GraphPaths.Text

theorem charLe_iff {c d : Char} : c ≤ d ↔ c.toNat ≤ d.toNat :=
  Iff.rfl

theorem charEq_iff {c d : Char} : c = d ↔ c.toNat = d.toNat :=
  Char.toNat_inj.symm

/-- What holds of the 128 first characters holds of ASCII characters. -/
theorem forall_ascii (p : Char → Prop) (h : ∀ n : Fin 128, p (Char.ofNat n.val)) {c : Char}
    (hc : c.toNat < 128) : p c := by
  have := h ⟨c.toNat, hc⟩
  rwa [Char.ofNat_toNat] at this

/-- Whether a character is an ASCII letter. -/
def isLetter (c : Char) : Bool :=
  ('A' ≤ c && c ≤ 'Z') || ('a' ≤ c && c ≤ 'z')

theorem toNat_lt_of_isLetter {c : Char} (h : isLetter c) : c.toNat < 128 := by
  simp only [isLetter, Bool.or_eq_true, Bool.and_eq_true, decide_eq_true_eq, charLe_iff,
    Char.reduceToNat] at h
  omega

/-- Letters are no white space. -/
theorem isBlank_of_isLetter {c : Char} (h : isLetter c) : isBlank c = false := by
  refine forall_ascii (fun c => isLetter c → isBlank c = false) ?_ (toNat_lt_of_isLetter h) h
  decide +kernel

/-- A character whose lower case is a letter is one. -/
theorem isLetter_of_lowerChar {c : Char} (h : isLetter (lowerChar c)) : isLetter c := by
  unfold lowerChar at h
  split at h
  · next hc => simp [isLetter, hc]
  · exact h

/-! ## White space -/

/-- The numbers of the characters of white space: those of Unicode and the information separators. -/
def blankNumbers : List Nat :=
  [0x9, 0xA, 0xB, 0xC, 0xD, 0x1C, 0x1D, 0x1E, 0x1F, 0x20, 0x85, 0xA0, 0x1680, 0x2000, 0x2001, 0x2002,
   0x2003, 0x2004, 0x2005, 0x2006, 0x2007, 0x2008, 0x2009, 0x200A, 0x2028, 0x2029, 0x202F, 0x205F,
   0x3000]

theorem isBlank_iff {c : Char} : isBlank c ↔ c.toNat ∈ blankNumbers := by
  simp only [isBlank, isAsciiBlank, blankNumbers, Bool.or_eq_true, Bool.and_eq_true, beq_iff_eq,
    decide_eq_true_eq, charLe_iff, charEq_iff, Char.reduceToNat, List.mem_cons, List.not_mem_nil,
    or_false]
  omega

/-! ## Padded words -/

theorem dropWhile_of_none {α : Type} {p : α → Bool} {xs : List α} (h : ∀ x ∈ xs, p x = false) :
    xs.dropWhile p = xs := by
  cases xs with
  | nil => rfl
  | cons x xs => rw [List.dropWhile_cons_of_neg (by simp [h x List.mem_cons_self])]

/-- A word is what is left of it with characters of a class around it that it has none of. -/
theorem stripBy_padded {p : Char → Bool} {before word after : List Char} (hb : ∀ c ∈ before, p c)
    (ha : ∀ c ∈ after, p c) (hw : ∀ c ∈ word, p c = false) :
    stripBy p (before ++ word ++ after) = word := by
  unfold stripBy
  rw [List.append_assoc, List.dropWhile_append_of_pos hb]
  cases word with
  | nil =>
    have hall : (after ++ []).dropWhile p = [] := List.dropWhile_append_of_pos ha
    rw [List.nil_append, ← List.append_nil after, hall]
    rfl
  | cons c word =>
    have hreverse : ∀ c ∈ after.reverse, p c := fun c hc => ha c (List.mem_reverse.mp hc)
    rw [List.cons_append, List.dropWhile_cons_of_neg (by simp [hw c List.mem_cons_self]),
      ← List.cons_append, List.reverse_append, List.dropWhile_append_of_pos hreverse,
      dropWhile_of_none fun c hc => hw c (List.mem_reverse.mp hc), List.reverse_reverse]

theorem stripBy_of_none {p : Char → Bool} {cs : List Char} (h : ∀ c ∈ cs, p c = false) :
    stripBy p cs = cs := by
  have hpadded := @stripBy_padded p [] cs [] (List.forall_mem_nil _) (List.forall_mem_nil _) h
  rwa [List.nil_append, List.append_nil] at hpadded

/-- A text is what is left of it with characters of the class around it. -/
theorem exists_stripBy (p : Char → Bool) (cs : List Char) : ∃ before after,
    cs = before ++ stripBy p cs ++ after ∧ (∀ c ∈ before, p c) ∧ ∀ c ∈ after, p c := by
  refine ⟨cs.takeWhile p, ((cs.dropWhile p).reverse.takeWhile p).reverse, ?_,
    fun c hc => List.mem_takeWhile_imp hc,
    fun c hc => List.mem_takeWhile_imp (List.mem_reverse.mp hc)⟩
  unfold stripBy
  rw [List.append_assoc, ← List.reverse_append, List.takeWhile_append_dropWhile,
    List.reverse_reverse, List.takeWhile_append_dropWhile]

/-! ## Capitals -/

/-- Lowering changes ASCII characters one by one. -/
theorem lowerFrom_of_ascii : ∀ {cs : List Char} (before : List Char), (∀ c ∈ cs, c.toNat < 128) →
    lowerFrom before cs = cs.map lowerChar
  | [], _, _ => rfl
  | c :: cs, before, h => by
    have hc : lowerIn before c cs = [lowerChar c] := if_pos (h c List.mem_cons_self)
    unfold lowerFrom
    rw [hc, lowerFrom_of_ascii (c :: before) fun d hd => h d (List.mem_cons_of_mem c hd)]
    rfl

end GraphPaths.Text
