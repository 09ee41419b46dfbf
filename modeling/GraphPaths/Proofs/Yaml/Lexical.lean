import GraphPaths.Proofs.Json.Numeral
import GraphPaths.Proofs.Outcome
import GraphPaths.Yaml.Property

/-!
# How reading a token fails

The readers of scalars, properties and directives fail only where the rules of the notation are broken,
at an escape that names no character, and at a version with too many digits (`IsLexical`). There is one
lemma for each reader, and `Lexical.bind` for one reader after another.
-/

namespace GraphPaths

namespace Yaml

/-- Errors of the notation: broken rules, an escape that names no character, a version with too many
digits. -/
def IsLexical : LoadError → Prop
  | .malformed => True
  | .codePoint code => 0x10FFFF < code
  | .number e => ∃ n, digitLimit < n ∧ e = .tooManyDigits n
  | _ => False

/-- What a reader gives, unless it fails with an error of the notation. -/
def Lexical {α : Type} (x : Except LoadError α) : Prop := Meets x (fun _ => True) IsLexical

section

variable {α β : Type} {x : Except LoadError α}

theorem lexical_pure (a : α) : Lexical (pure a) := meets_pure trivial

theorem lexical_malformed : Lexical (throw .malformed : Except LoadError α) :=
  meets_throw trivial

theorem Lexical.bind {f : α → Except LoadError β} (h : Lexical x) (hf : ∀ a, Lexical (f a)) :
    Lexical (x >>= f) := Meets.bind h fun a _ => hf a

theorem Lexical.map {f : α → β} (h : Lexical x) : Lexical (x.map f) := Meets.map h fun _ h => h

end

/-! ## Scalars -/

theorem lexical_quotedBreaks : ∀ (fuel : Nat) (c : Cursor), Lexical (quotedBreaks fuel c)
  | 0, _ => lexical_malformed
  | fuel + 1, c => by
    unfold quotedBreaks
    split
    · exact lexical_malformed
    simp only
    split
    · exact lexical_pure _
    · exact (lexical_quotedBreaks fuel _).bind fun _ => lexical_pure _

theorem lexical_quotedSpaces (fuel : Nat) (c : Cursor) : Lexical (quotedSpaces fuel c) := by
  unfold quotedSpaces
  simp only
  split
  · exact lexical_malformed
  split
  · exact lexical_pure _
  · exact (lexical_quotedBreaks fuel _).bind fun _ => lexical_pure _

theorem lexical_charOf (code : Nat) : Lexical (charOf code) := by
  unfold charOf
  split
  · next hcode => exact meets_throw hcode
  split
  · exact lexical_pure _
  · exact lexical_pure _

theorem lexical_escaped (fuel : Nat) (c : Cursor) : Lexical (escaped fuel c) := by
  unfold escaped
  split
  · split
    · exact lexical_malformed
    · exact lexical_pure _
  split
  · simp only
    split
    · exact lexical_malformed
    split
    · exact lexical_malformed
    split
    · split
      · exact (lexical_charOf _).map
      · exact (lexical_charOf _).map
    · exact (lexical_charOf _).map
  · split
    · exact lexical_quotedBreaks fuel _
    · exact lexical_malformed

theorem lexical_quotedChars (double : Bool) :
    ∀ (fuel : Nat) (c : Cursor), Lexical (quotedChars double fuel c)
  | 0, _ => lexical_malformed
  | fuel + 1, c => by
    have hrest : ∀ (text : List Char) (c : Cursor), Lexical (do
        let rest ← quotedChars double fuel c
        return (text ++ rest.1, rest.2)) := fun _ c =>
      (lexical_quotedChars double fuel c).bind fun _ => lexical_pure _
    unfold quotedChars
    simp only
    split
    · exact lexical_malformed
    split
    · exact (lexical_quotedSpaces _ c).bind fun _ => hrest _ _
    split
    · split
      · exact lexical_pure _
      split
      · exact (lexical_escaped _ _).bind fun _ => hrest _ _
      · exact hrest [_] _
    split
    · split
      · exact hrest ['\''] _
      · exact lexical_pure _
    · exact hrest [_] _

theorem lexical_quotedScalar (c : Cursor) : Lexical (quotedScalar c) :=
  (lexical_quotedChars _ _ _).bind fun _ => lexical_pure _

theorem lexical_indentMark (c : Cursor) : Lexical (indentMark c) := by
  unfold indentMark
  split
  · exact lexical_malformed
  · exact lexical_pure _
  · exact lexical_pure _

theorem lexical_blockMarks (c : Cursor) : Lexical (blockMarks c) := by
  unfold blockMarks
  split
  · exact (lexical_indentMark _).map
  · refine (lexical_indentMark c).bind fun ⟨n, c⟩ => ?_
    simp only
    split
    · exact lexical_pure _
    · exact lexical_pure _

theorem lexical_restOfLine (c : Cursor) : Lexical (restOfLine c) := by
  unfold restOfLine
  simp only
  split
  · exact lexical_pure _
  · exact lexical_malformed

theorem lexical_blockScalar (indent : Int) (c : Cursor) : Lexical (blockScalar indent c) := by
  unfold blockScalar
  refine (lexical_blockMarks _).bind fun marks => ?_
  simp only
  split
  · exact lexical_malformed
  · exact (lexical_restOfLine _).bind fun _ => lexical_pure _

/-! ## Properties and directives -/

theorem lexical_name (c : Cursor) : Lexical (name c) := by
  unfold name
  simp only
  split
  · exact lexical_malformed
  · exact lexical_pure _

theorem lexical_uriChars : ∀ (fuel : Nat) (c : Cursor), Lexical (uriChars fuel c)
  | 0, c => lexical_pure _
  | fuel + 1, c => by
    unfold uriChars
    split
    · split
      · exact lexical_malformed
      split
      · exact lexical_malformed
      · exact (lexical_uriChars fuel _).map
    split
    · exact (lexical_uriChars fuel _).map
    · exact lexical_pure _

theorem lexical_uri (c : Cursor) : Lexical (uri c) := by
  refine (lexical_uriChars _ c).bind fun chars => ?_
  simp only
  split
  · exact lexical_malformed
  · exact lexical_pure _

theorem lexical_tagHandle (c : Cursor) : Lexical (tagHandle c) := by
  unfold tagHandle
  split
  · exact lexical_malformed
  split
  · exact lexical_pure _
  simp only
  split
  · exact lexical_pure _
  · exact lexical_malformed

theorem lexical_markedName (c : Cursor) : Lexical (markedName c) := by
  refine (lexical_name _).bind fun found => ?_
  simp only
  split
  · exact lexical_malformed
  · exact lexical_pure _

/-- A tag is read as a tag. -/
theorem meets_tag (c : Cursor) :
    Meets (tag c) (fun found => ∃ handle suffix, found.1 = .tag handle suffix) IsLexical := by
  have hend : ∀ (handle : Option String) (suffix : String) (c : Cursor), Meets (do
      if !endsWord c.peek then throw LoadError.malformed
      return (Token.tag handle suffix, c))
      (fun found => ∃ handle suffix, found.1 = .tag handle suffix) IsLexical := by
    intro handle suffix c
    simp only
    split
    · exact meets_throw trivial
    · exact meets_pure ⟨handle, suffix, rfl⟩
  have hnamed : ∀ found : String × Cursor, Meets (do
      let suffix ← uri found.2
      if !endsWord suffix.2.peek then throw LoadError.malformed
      return (Token.tag (some found.1) suffix.1, suffix.2))
      (fun found => ∃ handle suffix, found.1 = .tag handle suffix) IsLexical := fun found =>
    Meets.bind (lexical_uri _) fun _ _ => hend _ _ _
  unfold tag
  simp only
  split
  · refine Meets.bind (lexical_uri _) fun suffix _ => ?_
    split
    · exact meets_throw trivial
    · exact hend _ _ _
  split
  · exact hend _ _ _
  split
  · exact Meets.bind (lexical_tagHandle c) fun found _ => hnamed found
  · exact hnamed ("!", c.next)

/-- The numeral of a version is refused for its length only. -/
theorem lexical_versionNumber (c : Cursor) : Lexical (versionNumber c) := by
  unfold versionNumber Cursor.takeWhile
  simp only
  split
  · exact lexical_malformed
  · next hne =>
    have hint := Json.int_chars false (Text.isDigits_takeWhile c.rest) (mt List.isEmpty_iff.mpr hne)
    rw [show Json.signChars false = [] from rfl, List.nil_append] at hint
    rw [hint]
    split
    · next hlong => exact meets_throw ⟨_, hlong, rfl⟩
    · exact lexical_pure _

theorem lexical_versionDirective (c : Cursor) : Lexical (versionDirective c) := by
  refine (lexical_versionNumber _).bind fun major => ?_
  simp only
  split
  · exact lexical_malformed
  refine (lexical_versionNumber _).bind fun minor => ?_
  split
  · exact lexical_malformed
  · exact lexical_pure _

theorem lexical_handleDirective (c : Cursor) : Lexical (handleDirective c) := by
  refine (lexical_tagHandle _).bind fun handle => ?_
  simp only
  split
  · exact lexical_malformed
  refine (lexical_uri _).bind fun expansion => ?_
  split
  · exact lexical_malformed
  · exact lexical_pure _

theorem lexical_directive (c : Cursor) : Lexical (directive c) := by
  have hend : ∀ found : Directive × Cursor, Lexical (do
      let c ← restOfLine found.2
      return (found.1, c)) := fun _ => (lexical_restOfLine _).bind fun _ => lexical_pure _
  refine (lexical_name _).bind fun word => ?_
  simp only
  split
  · exact lexical_malformed
  split
  · exact (lexical_versionDirective _).bind hend
  split
  · exact (lexical_handleDirective _).bind hend
  · exact hend _

end Yaml

end GraphPaths
