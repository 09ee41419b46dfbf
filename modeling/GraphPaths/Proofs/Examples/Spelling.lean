import GraphPaths.Proofs.Examples.Faults

/-!
# How kinds are spelled

The texts that name a kind are its keyword in ASCII letters of either case, with nothing but white
space around it. All other texts are refused, with a message that has them as they were given
(`kinds_spelled`).
-/

namespace GraphPaths

/-- A text names a kind in one way only.

It is the keyword but for the case of ASCII letters, between white space of any kind; the characters
of white space are those with certain numbers, and a zero-width space and a byte order mark are none
of them. So there are only ASCII letters inside the white space. Any other text is refused as unknown,
with a message that has the whole text as it was given. -/
theorem kinds_spelled (s : String) :
    (∀ kind, OperationKind.ofValue (.text s) = .ok kind ↔
      ∃ before word after, s.toList = before ++ word ++ after ∧
        (∀ c ∈ before, c.toNat ∈ Text.blankNumbers) ∧
        (∀ c ∈ after, c.toNat ∈ Text.blankNumbers) ∧
        word.map Text.lowerChar = kind.keyword.toList) ∧
    (∀ kind, OperationKind.ofValue (.text s) = .ok kind →
      ∀ c ∈ s.toList, c.toNat ∈ Text.blankNumbers ∨ Text.isLetter c) ∧
    ((∀ kind, OperationKind.ofValue (.text s) ≠ .ok kind) →
      OperationKind.ofValue (.text s) = .error (.unknownKind s) ∧
      (ExampleError.unknownKind s).message =
        "Unknown operation kind '" ++ s ++ "', expected one of: query, mutation") := by
  have hspelled : ∀ kind, OperationKind.ofValue (.text s) = .ok kind ↔
      ∃ before word after, s.toList = before ++ word ++ after ∧
        (∀ c ∈ before, c.toNat ∈ Text.blankNumbers) ∧
        (∀ c ∈ after, c.toNat ∈ Text.blankNumbers) ∧
        word.map Text.lowerChar = kind.keyword.toList := by
    intro kind
    constructor
    · intro h
      obtain ⟨before, after, htext, hb, ha⟩ := Text.exists_stripBy Text.isBlank s.toList
      exact ⟨before, Text.strip s.toList, after, htext,
        fun c hc => Text.isBlank_iff.mp (hb c hc), fun c hc => Text.isBlank_iff.mp (ha c hc),
        ofValue_text_eq_ok.mp h⟩
    · rintro ⟨before, word, after, htext, hb, ha, hword⟩
      rw [← String.ofList_toList (s := s), htext]
      exact ofValue_padded kind (fun c hc => Text.isBlank_iff.mpr (hb c hc))
        (fun c hc => Text.isBlank_iff.mpr (ha c hc)) hword
  refine ⟨hspelled, fun kind h => ?_, fun h => ⟨?_, rfl⟩⟩
  · obtain ⟨before, word, after, htext, hb, ha, hword⟩ := (hspelled kind).mp h
    rw [htext, List.forall_mem_append, List.forall_mem_append]
    exact ⟨⟨fun c hc => .inl (hb c hc), fun c hc => .inr (isLetter_of_map_lowerChar hword c hc)⟩,
      fun c hc => .inl (ha c hc)⟩
  · have hnone : (OperationKind.ofText? (Value.text s).shown).isNone := by
      rw [Option.isNone_iff_eq_none, Option.eq_none_iff_forall_ne_some]
      exact fun kind hkind => h kind (OperationKind.ofValue_eq_ok.mpr hkind)
    exact OperationKind.ofValue_eq_error hnone

/-- Capitals between a new line and an ideographic space name a kind, while a dot above a letter, which
is left over when the capital is lowered, or a byte order mark in front makes a text unknown. -/
theorem dotted_unknown :
    OperationKind.ofValue (.text "\x85MutatioN\u3000") = .ok .mutation ∧
    (∀ kind, OperationKind.ofValue (.text "mutat\u0130on") ≠ .ok kind) ∧
    OperationKind.ofValue (.text "mutat\u0130on") = .error (.unknownKind "mutat\u0130on") ∧
    (∀ kind, OperationKind.ofValue (.text "\ufeffquery") ≠ .ok kind) ∧
    OperationKind.ofValue (.text "\ufeffquery") = .error (.unknownKind "\ufeffquery") := by
  have hforeign : ∀ {s : String} {c : Char}, c ∈ s.toList → ¬Text.isBlank c → ¬Text.isLetter c →
      ∀ kind, OperationKind.ofValue (.text s) ≠ .ok kind := by
    intro s c hc hblank hletter kind h
    rcases (kinds_spelled s).2.1 kind h c hc with hc | hc
    · exact hblank (Text.isBlank_iff.mpr hc)
    · exact hletter hc
  have hdotted := @hforeign "mutat\u0130on" '\u0130' (by decide +kernel) (by decide) (by decide)
  have hmarked := @hforeign "\ufeffquery" '\ufeff' (by decide +kernel) (by decide) (by decide)
  refine ⟨((kinds_spelled "\x85MutatioN\u3000").1 .mutation).mpr ?_, hdotted,
    ((kinds_spelled "mutat\u0130on").2.2 hdotted).1, hmarked,
    ((kinds_spelled "\ufeffquery").2.2 hmarked).1⟩
  refine ⟨['\x85'], "MutatioN".toList, ['\u3000'], by decide +kernel, fun c hc => ?_, fun c hc => ?_,
    by decide +kernel⟩
  · exact List.mem_singleton.mp hc ▸ Text.isBlank_iff.mp rfl
  · exact List.mem_singleton.mp hc ▸ Text.isBlank_iff.mp rfl

end GraphPaths
