import GraphPaths.Proofs.Json.Numeral
import GraphPaths.Proofs.Json.Quoted
import GraphPaths.Proofs.Json.Writing

/-!
# Values without parts that are read from JSON

Words, texts and numbers are read back from their texts (`readsAs_word`, `readsAs_quote`,
`readsAs_integer`, `readsAs_number`). What is read as a value starts with a character that is neither
white space nor a closing bracket (`exists_of_value`), so that it is clear where one starts.
-/

namespace GraphPaths

namespace Json

/-! ## Starts of values -/

/-- Whether a value without parts may start with a character. -/
def startsAtom (c : Char) : Bool := c.isDigit || ['"', 'n', 't', 'f', 'N', 'I', '-'].contains c

/-- The words that are values, letter by letter. -/
theorem wordValues_eq : wordValues =
    [(['n', 'u', 'l', 'l'], .null), (['t', 'r', 'u', 'e'], .bool true),
    (['f', 'a', 'l', 's', 'e'], .bool false), (['N', 'a', 'N'], .float .nan),
    (['I', 'n', 'f', 'i', 'n', 'i', 't', 'y'], .float (.infinite false)),
    (['-', 'I', 'n', 'f', 'i', 'n', 'i', 't', 'y'], .float (.infinite true))] := rfl

theorem wordAt_eq_none {c : Char} (h : c ∉ ['n', 't', 'f', 'N', 'I', '-']) (cs : List Char) :
    wordAt (c :: cs) = none := by
  simp only [List.mem_cons, List.not_mem_nil, or_false, not_or] at h
  simp [wordAt, wordValues_eq, h, Ne.symm]

theorem numberAt_eq_none {c : Char} (hdigit : c.isDigit = false) (hminus : c ≠ '-')
    (cs : List Char) : numberAt (c :: cs) = none := by
  have hnought : c ≠ '0' := by
    rintro rfl
    contradiction
  have hdigit : ¬isDigit c = true := by
    unfold isDigit
    rw [Text.asciiDigit_isSome, hdigit]
    decide
  have hwhole : wholeDigits (c :: cs) = ([], c :: cs) := by
    unfold wholeDigits
    split
    · next heq => exact absurd (List.cons.inj heq).1 hnought
    · rw [List.span_eq_takeWhile_dropWhile, List.takeWhile_cons_of_neg hdigit,
        List.dropWhile_cons_of_neg hdigit]
  unfold numberAt
  split
  next sign r hsign =>
  split at hsign
  · next heq => exact absurd (List.cons.inj heq).1 hminus
  · obtain ⟨rfl, rfl⟩ := Prod.mk.inj hsign
    rw [hwhole]
    rfl

/-- What is read as a value without parts starts as one. -/
theorem exists_of_atom {cs rest : List Char} {v : Value} (h : atom cs = .ok (v, rest)) :
    ∃ c cs', cs = c :: cs' ∧ startsAtom c := by
  cases cs with
  | nil => contradiction
  | cons c cs =>
    refine ⟨c, cs, rfl, ?_⟩
    by_contra hc
    simp only [startsAtom, Bool.or_eq_true, List.contains_iff_mem, List.mem_cons, List.not_mem_nil,
      or_false, not_or, Bool.not_eq_true] at hc
    obtain ⟨hdigit, hquote, hletters⟩ := hc
    have hword : wordAt (c :: cs) = none := wordAt_eq_none (by simpa using hletters) cs
    have hnumber := numberAt_eq_none hdigit hletters.2.2.2.2.2 cs
    unfold atom at h
    split at h
    · next heq => exact hquote (List.cons.inj heq).1
    · rw [hword, hnumber] at h
      contradiction

/-- A value starts with what is no space and closes nothing. -/
theorem not_mem_of_startsAtom {c : Char} (h : startsAtom c) :
    c ∉ [' ', '\t', '\n', '\r', '[', ']', '\x7b', '\x7d', '\ufeff'] := by
  simp only [startsAtom, Bool.or_eq_true, List.contains_iff_mem] at h
  rcases h with h | h
  · exact Text.forall_digit
      (fun c => c ∉ [' ', '\t', '\n', '\r', '[', ']', '\x7b', '\x7d', '\ufeff']) (by decide) h
  · simp only [List.mem_cons, List.not_mem_nil, or_false] at h
    rcases h with rfl | rfl | rfl | rfl | rfl | rfl | rfl <;> decide

theorem value_eq_atom (fuel : Nat) {c : Char} (h : c ≠ '[' ∧ c ≠ '\x7b') (cs : List Char) :
    value (fuel + 1) (c :: cs) = atom (c :: cs) := by
  unfold value
  split
  · contradiction
  · next heq => exact absurd (List.cons.inj heq).1 h.1
  · next heq => exact absurd (List.cons.inj heq).1 h.2
  · rfl

/-- What is read as a value does not start with white space, a closing bracket or a mark of the
order of bytes. -/
theorem exists_of_value {fuel : Nat} {cs rest : List Char} {v : Value}
    (h : value fuel cs = .ok (v, rest)) :
    ∃ c cs', cs = c :: cs' ∧ c ∉ [' ', '\t', '\n', '\r', ']', '\x7d', '\ufeff'] := by
  cases fuel with
  | zero => contradiction
  | succ fuel =>
    cases cs with
    | nil => contradiction
    | cons c cs =>
      refine ⟨c, cs, rfl, ?_⟩
      by_cases hc : c ≠ '[' ∧ c ≠ '\x7b'
      · rw [value_eq_atom fuel hc] at h
        obtain ⟨_, _, heq, hstarts⟩ := exists_of_atom h
        obtain rfl := (List.cons.inj heq).1
        have := not_mem_of_startsAtom hstarts
        simp_all
      · rw [not_and_or, not_not, not_not] at hc
        rcases hc with rfl | rfl <;> decide

/-! ## Values without parts -/

/-- A text is read as a value, whatever follows that does not go on with a number. -/
def ReadsAs (text : String) (v : Value) : Prop :=
  ∀ (fuel : Nat) (rest : List Char), 2 * text.toList.length ≤ fuel → EndsNumber rest →
    value fuel (text.toList ++ rest) = .ok (v, rest)

/-- What is read starts with what is neither white space nor a closing bracket. -/
theorem ReadsAs.exists_cons {text : String} {v : Value} (h : ReadsAs text v) :
    ∃ c cs, text.toList = c :: cs ∧ c ∉ [' ', '\t', '\n', '\r', ']', '\x7d', '\ufeff'] := by
  have hread := h _ [] le_rfl nofun
  rw [List.append_nil] at hread
  exact exists_of_value hread

theorem readsAs_of_atom {text : String} {v : Value}
    (h : ∀ {rest : List Char}, EndsNumber rest → atom (text.toList ++ rest) = .ok (v, rest)) :
    ReadsAs text v := by
  intro fuel rest hfuel hrest
  have hempty := @h [] nofun
  rw [List.append_nil] at hempty
  obtain ⟨c, cs, htext, hc⟩ := exists_of_atom hempty
  have hatom := h hrest
  rw [htext] at hfuel hatom ⊢
  rw [List.length_cons] at hfuel
  obtain ⟨fuel, rfl⟩ := Nat.exists_eq_succ_of_ne_zero (n := fuel) (by omega)
  have hbrackets : c ≠ '[' ∧ c ≠ '\x7b' := by
    have := not_mem_of_startsAtom hc
    simp_all
  rw [List.cons_append] at hatom ⊢
  rw [value_eq_atom fuel hbrackets, hatom]

/-- A word is read as the value that it stands for. -/
theorem atom_of_word {word : List Char} {v : Value} (h : (word, v) ∈ wordValues)
    (rest : List Char) : atom (word ++ rest) = .ok (v, rest) := by
  rw [wordValues_eq] at h
  simp only [List.mem_cons, Prod.mk.injEq, List.not_mem_nil, or_false] at h
  obtain ⟨rfl, rfl⟩ | ⟨rfl, rfl⟩ | ⟨rfl, rfl⟩ | ⟨rfl, rfl⟩ | ⟨rfl, rfl⟩ | ⟨rfl, rfl⟩ := h <;>
    simp [atom, wordAt, wordValues_eq]

theorem atom_of_number {cs : List Char} {result : Except Stop (Value × List Char)} (negative : Bool)
    {c : Char} (hc : c.isDigit) (h : numberAt (signChars negative ++ c :: cs) = some result) :
    atom (signChars negative ++ c :: cs) = result := by
  have hletters : c ∉ ['n', 't', 'f', 'N', 'I', '-'] :=
    Text.forall_digit (fun c => c ∉ ['n', 't', 'f', 'N', 'I', '-']) (by decide) hc
  have hquote : c ≠ '"' := Text.forall_digit (fun c => c ≠ '"') (by decide) hc
  have hword : wordAt (signChars negative ++ c :: cs) = none := by
    cases negative with
    | false => exact wordAt_eq_none hletters cs
    | true =>
      have hI : c ≠ 'I' := fun h => hletters (by simp [h])
      simp [signChars, wordAt, wordValues_eq, hI.symm]
  unfold atom
  split
  · next heq =>
    cases negative with
    | false => exact absurd (List.cons.inj heq).1 hquote
    | true => exact absurd (List.cons.inj heq).1 (by decide : '-' ≠ '"')
  · rw [hword, h]

/-- Whether a value without parts is read back as it was. -/
def hasReading : Value → Bool
  | .float x => x.isCanonical
  | v => hasForm v

theorem readsAs_word (word : List Char) {v : Value} (h : (word, v) ∈ wordValues) :
    ReadsAs (String.ofList word) v := by
  refine readsAs_of_atom fun {rest} _ => ?_
  rw [String.toList_ofList]
  exact atom_of_word h rest

theorem readsAs_quote (s : String) : ReadsAs (quote s) (.text s) := by
  refine readsAs_of_atom fun {rest} _ => ?_
  have htext : (quote s).toList ++ rest = '"' :: (s.toList.flatMap escapeChar ++ '"' :: rest) := by
    unfold quote
    simp
  rw [htext]
  unfold atom
  simp only [string_quote]
  rfl

theorem readsAs_integer {i : Int} {text : String} (h : integer i = .ok text) :
    ReadsAs text (.int i) := by
  obtain ⟨hlength, rfl⟩ := integer_eq_ok.mp h
  refine readsAs_of_atom fun {rest} hrest => ?_
  have hnumber := numberAt_integer hlength hrest
  have hdigits := Text.isDigits_toDigits i.natAbs
  rw [String.toList_ofList, integerChars_eq]
  obtain ⟨c, cs, hcs⟩ := List.exists_cons_of_ne_nil (Nat.toDigits_ne_nil (b := 10) (n := i.natAbs))
  rw [hcs, List.append_assoc] at hnumber ⊢
  exact atom_of_number _ (hdigits c (hcs ▸ List.mem_cons_self)) hnumber

theorem readsAs_number {x : Binary64} (h : x.isCanonical) : ReadsAs (number x) (.float x) := by
  cases x with
  | nan => exact readsAs_word ['N', 'a', 'N'] (by simp [wordValues_eq])
  | infinite negative =>
    cases negative with
    | false =>
      exact readsAs_word ['I', 'n', 'f', 'i', 'n', 'i', 't', 'y'] (by simp [wordValues_eq])
    | true =>
      exact readsAs_word ['-', 'I', 'n', 'f', 'i', 'n', 'i', 't', 'y']
        (by simp [wordValues_eq])
  | finite s m e =>
    obtain ⟨w, hw, htext, hround⟩ := exists_written s m e
    refine readsAs_of_atom fun {rest} hrest => ?_
    have hnumber := numberAt_real hw s hrest
    rw [hround (of_decide_eq_true h) s rfl, List.append_assoc] at hnumber
    obtain ⟨c, cs, hcs, hc⟩ := Written.exists_chars_cons hw
    rw [htext, List.append_assoc, hcs, List.cons_append]
    rw [hcs, List.cons_append] at hnumber
    exact atom_of_number s hc hnumber

end Json

end GraphPaths
