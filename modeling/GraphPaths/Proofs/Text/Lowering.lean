import GraphPaths.Proofs.Text.Character

/-!
# Lower case

What a text in lower case tells about the text. Of the characters beyond ASCII only the Kelvin sign
becomes an ASCII character, the letter k, and the capital I with a dot becomes two characters of which
one is beyond ASCII (`exists_mem_lowerIn`). So a text that is lowered to ASCII letters other than k is
written in ASCII letters, and only their case was changed (`lowerFrom_eq_iff`).
-/

namespace GraphPaths.Text

/-- The small letter of a capital beyond ASCII is beyond ASCII or the letter k. -/
theorem smallLetter_foreign {c d : Char} (h : smallLetter? c = some d) :
    128 ≤ d.toNat ∨ d = 'k' := by
  -- every run is gone through from its first capital to its last
  have hruns : ∀ run ∈ capitalRuns, ∀ k < run.2.1 - run.1 + 1,
      128 ≤ (Char.ofNat (run.2.2.2 + k)).toNat ∨ Char.ofNat (run.2.2.2 + k) = 'k' := by
    decide +kernel
  obtain ⟨⟨first, last, step, small⟩, hrun, rfl⟩ := Option.map_eq_some_iff.mp h
  have hfound := List.find?_some hrun
  simp only [Bool.and_eq_true, decide_eq_true_eq] at hfound
  refine hruns _ (List.mem_of_find?_eq_some hrun) (c.toNat - first) ?_
  show c.toNat - first < last - first + 1
  omega

/-- A character beyond ASCII leaves one in lower case, or the letter k. -/
theorem exists_mem_lowerIn {c : Char} (hc : 128 ≤ c.toNat) (before after : List Char) :
    ∃ d ∈ lowerIn before c after, 128 ≤ d.toNat ∨ d = 'k' := by
  unfold lowerIn
  rw [if_neg (by omega)]
  split
  · exact ⟨'\u0307', by simp, .inl (by decide)⟩
  · split
    · exact ⟨'\u03c2', List.mem_singleton_self _, .inl (by decide)⟩
    · refine ⟨_, List.mem_singleton_self _, ?_⟩
      cases hsmall : smallLetter? c with
      | none => exact .inl hc
      | some d => exact smallLetter_foreign hsmall

/-- A text whose lower case is in ASCII and without the letter k is in ASCII. -/
theorem ascii_of_lowerFrom : ∀ {cs before : List Char},
    (∀ d ∈ lowerFrom before cs, d.toNat < 128 ∧ d ≠ 'k') → ∀ c ∈ cs, c.toNat < 128
  | [], _, _ => List.forall_mem_nil _
  | c :: cs, before, h => by
    have hparts := List.forall_mem_append.mp h
    refine List.forall_mem_cons.mpr ⟨?_, ascii_of_lowerFrom hparts.2⟩
    by_contra hc
    obtain ⟨d, hd, hforeign⟩ := exists_mem_lowerIn (Nat.not_lt.mp hc) before cs
    obtain ⟨hlt, hne⟩ := hparts.1 d hd
    exact hforeign.elim (fun h => by omega) hne

/-- A text is lowered to a word of ASCII letters other than k if it is the word but for the case of
ASCII letters. -/
theorem lowerFrom_eq_iff {cs word : List Char} (hword : ∀ d ∈ word, isLetter d ∧ d ≠ 'k')
    (before : List Char) : lowerFrom before cs = word ↔ cs.map lowerChar = word := by
  constructor
  · rintro rfl
    have hascii := ascii_of_lowerFrom fun d hd =>
      ⟨toNat_lt_of_isLetter (hword d hd).1, (hword d hd).2⟩
    exact (lowerFrom_of_ascii before hascii).symm
  · rintro rfl
    refine lowerFrom_of_ascii before fun c hc => ?_
    exact toNat_lt_of_isLetter (isLetter_of_lowerChar (hword _ (List.mem_map_of_mem hc)).1)

end GraphPaths.Text
