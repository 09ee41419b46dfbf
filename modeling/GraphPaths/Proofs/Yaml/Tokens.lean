import GraphPaths.Proofs.Yaml.Lexical
import GraphPaths.Yaml.Lexer

/-!
# The tokens of a text

A text is broken only by an error of the notation, and a plain scalar does not end a line
(`isProper_of_mem_tokens`): every step of the lexer keeps the tokens so far and adds such tokens only.
-/

namespace GraphPaths

namespace Yaml

/-! ## Plain scalars -/

/-- The words of a plain scalar have no gaps. -/
theorem isGap_of_mem_plainWord (inFlow : Bool) :
    ∀ {cs : List Char}, ∀ x ∈ plainWord inFlow cs, isGap x = false
  | [], _, hx => nomatch hx
  | c :: r, x, hx => by
    unfold plainWord at hx
    simp only at hx
    split at hx
    · exact nomatch hx
    · next hc =>
      rcases List.mem_cons.mp hx with rfl | hx
      · simp only [Bool.or_eq_true, not_or, Bool.not_eq_true] at hc
        exact hc.1.1
      · exact isGap_of_mem_plainWord inFlow x hx

/-- A plain scalar ends with the last of its words. -/
theorem getLast?_plainChars (inFlow : Bool) (indent : Int) :
    ∀ (fuel : Nat) (before : List Char) (ended : Bool) (c : Cursor),
      (plainChars inFlow indent fuel before ended c).1.getLast? ≠ some '\n'
  | 0, _, _, _ => nofun
  | fuel + 1, before, ended, c => by
    unfold plainChars
    split
    · exact nofun
    simp only
    split
    · exact nofun
    next hword =>
    have hlast : (before ++ plainWord inFlow c.rest).getLast? ≠ some '\n' := by
      intro h
      have hne : plainWord inFlow c.rest ≠ [] := mt List.isEmpty_iff.mpr hword
      rw [List.getLast?_append_of_ne_nil _ hne] at h
      have hgap := isGap_of_mem_plainWord inFlow '\n' (List.mem_of_getLast? h)
      exact absurd hgap (by decide)
    split
    · exact hlast
    · have hrest := getLast?_plainChars inFlow indent fuel
        (plainSpaces (fuel + 1) (c.forward (plainWord inFlow c.rest).length)).1
        (plainSpaces (fuel + 1) (c.forward (plainWord inFlow c.rest).length)).2.1
        (plainSpaces (fuel + 1) (c.forward (plainWord inFlow c.rest).length)).2.2
      generalize (plainChars inFlow indent fuel _ _ _).1 = rest at hrest ⊢
      cases rest with
      | nil => rwa [List.append_nil]
      | cons d ds => rwa [List.getLast?_append_of_ne_nil _ (List.cons_ne_nil d ds)]

theorem getLast?_plainScalar (inFlow : Bool) (indent : Int) (c : Cursor) :
    (plainScalar inFlow indent c).1.toList.getLast? ≠ some '\n' := by
  unfold plainScalar
  simp only [String.toList_ofList]
  exact getLast?_plainChars inFlow indent _ _ _ c

/-! ## Tokens -/

/-- A plain scalar does not end a line, and a broken place has an error of the notation. -/
def Token.IsProper : Token → Prop
  | .scalar text true => text.toList.getLast? ≠ some '\n'
  | .broken e => IsLexical e
  | _ => True

namespace Lexer

/-- The tokens so far are proper. -/
def IsProper (x : Lexer) : Prop := ∀ t ∈ x.reversed, t.IsProper

/-- A step comes to a lexer with proper tokens, or fails with an error of the notation. -/
def Steps (x : Except LoadError Lexer) : Prop := Meets x IsProper IsLexical

variable {x : Lexer} {t : Token}

theorem isProper_push (hx : x.IsProper) (ht : t.IsProper) : (x.push t).IsProper :=
  List.forall_mem_cons.mpr ⟨ht, hx⟩

theorem isProper_insertAt (hx : x.IsProper) (number : Nat) (ht : t.IsProper) :
    (x.insertAt number t).IsProper := fun u hu =>
  (List.eq_or_mem_of_mem_insertIdx hu).elim (fun h => h ▸ ht) (hx u)

theorem steps_pure (hx : x.IsProper) : Steps (pure x) := meets_pure hx

theorem steps_malformed : Steps (throw .malformed) := meets_throw trivial

/-- One step after another. -/
theorem Steps.bind {r : Except LoadError Lexer} {f : Lexer → Except LoadError Lexer} (h : Steps r)
    (hf : ∀ x, x.IsProper → Steps (f x)) : Steps (r >>= f) := Meets.bind h hf

/-- A step that reads something first. -/
theorem steps_bind_lexical {α : Type} {r : Except LoadError α} {f : α → Except LoadError Lexer}
    (h : Lexical r) (hf : ∀ a, Steps (f a)) : Steps (r >>= f) := Meets.bind h fun a _ => hf a

/-! ## Keys and blocks -/

theorem lexical_fresh (c : Cursor) (k : Option PossibleKey) : Lexical (fresh c k) := by
  unfold fresh
  split
  · exact lexical_pure _
  split
  · exact lexical_pure _
  split
  · exact lexical_malformed
  · exact lexical_pure _

theorem steps_dropStale (hx : x.IsProper) : Steps x.dropStale :=
  Meets.bind (meets_mapM fun k _ => lexical_fresh x.cursor k) fun _ _ =>
    steps_bind_lexical (lexical_fresh _ _) fun _ => steps_pure hx

theorem steps_dropKey (hx : x.IsProper) : Steps x.dropKey := by
  unfold dropKey
  split
  · exact steps_malformed
  · exact steps_pure hx

theorem steps_saveKey (hx : x.IsProper) : Steps x.saveKey := by
  unfold saveKey
  split
  · exact (steps_dropKey hx).bind fun _ hy => steps_pure hy
  · exact steps_pure hx

theorem isProper_unwind (column : Int) :
    ∀ (outer : List Int) {x : Lexer}, x.IsProper → (unwind column outer x).IsProper
  | [], _, hx => hx
  | _ :: outer, x, hx => by
    unfold unwind
    split
    · exact isProper_unwind column outer (isProper_push (x := x) hx trivial)
    · exact hx

theorem isProper_endBlocks (hx : x.IsProper) (column : Int) : (x.endBlocks column).IsProper := by
  unfold endBlocks
  split
  · exact hx
  · exact isProper_unwind column _ hx

theorem steps_openBlock (hx : x.IsProper) (ht : t.IsProper) : Steps (x.openBlock t) := by
  unfold openBlock
  split
  · exact steps_pure hx
  split
  · exact steps_malformed
  split
  · exact steps_pure (isProper_push (x := x.indentTo _) hx ht)
  · exact steps_pure hx

/-! ## Steps -/

theorem steps_advance (hx : x.IsProper) : Steps x.advance := by
  unfold advance
  refine Steps.bind (steps_dropStale ?_) fun y hy => steps_pure (isProper_endBlocks hy _)
  exact hx

theorem steps_documentMark (hx : x.IsProper) (ht : t.IsProper) (n : Nat) :
    Steps (x.documentMark t n) :=
  (steps_dropKey (isProper_endBlocks hx _)).bind fun _ hy => steps_pure (isProper_push hy ht)

theorem steps_directive (hx : x.IsProper) : Steps x.directive :=
  (steps_dropKey (isProper_endBlocks hx _)).bind fun _ hy =>
    steps_bind_lexical (lexical_directive _) fun _ => steps_pure (isProper_push hy trivial)

theorem steps_openBracket (hx : x.IsProper) (ht : t.IsProper) : Steps (x.openBracket t) :=
  (steps_saveKey hx).bind fun _ hy => steps_pure (isProper_push hy ht)

theorem steps_closeBracket (hx : x.IsProper) (ht : t.IsProper) : Steps (x.closeBracket t) := by
  refine (steps_dropKey hx).bind fun y hy => ?_
  split
  · exact steps_malformed
  · exact steps_pure (isProper_push hy ht)

theorem steps_flowEntry (hx : x.IsProper) : Steps x.flowEntry :=
  (steps_dropKey hx).bind fun _ hy => steps_pure (isProper_push hy trivial)

theorem steps_blockEntry (hx : x.IsProper) : Steps x.blockEntry :=
  (steps_openBlock (t := .blockSequenceStart) hx trivial).bind fun _ hy =>
    (steps_dropKey hy).bind fun _ hz => steps_pure (isProper_push hz trivial)

theorem steps_explicitKey (hx : x.IsProper) : Steps x.explicitKey :=
  (steps_openBlock (t := .blockMappingStart) hx trivial).bind fun _ hy =>
    (steps_dropKey hy).bind fun _ hz => steps_pure (isProper_push hz trivial)

theorem steps_value (hx : x.IsProper) : Steps x.value := by
  unfold value
  split
  · next k _ =>
    have hkey : (x.insertAt k.number .key).IsProper := isProper_insertAt hx _ trivial
    refine steps_pure (isProper_push ?_ trivial)
    split
    · refine isProper_insertAt ?_ _ trivial
      exact hkey
    · exact hkey
  · exact (steps_openBlock (t := .blockMappingStart) hx trivial).bind fun _ hy =>
      steps_pure (isProper_push hy trivial)

theorem steps_keyToken (hx : x.IsProper) {read : Cursor → Except LoadError (Token × Cursor)}
    (hread : ∀ c, Meets (read c) (fun found => found.1.IsProper) IsLexical) :
    Steps (x.keyToken read) :=
  (steps_saveKey hx).bind fun _ hy => Meets.bind (hread _) fun _ ht =>
    steps_pure (isProper_push hy ht)

theorem steps_plain (hx : x.IsProper) : Steps x.plain :=
  (steps_saveKey hx).bind fun _ hy => steps_pure (isProper_push hy (getLast?_plainScalar _ _ _))

theorem steps_block (hx : x.IsProper) : Steps x.block :=
  (steps_dropKey hx).bind fun _ hy => steps_bind_lexical (lexical_blockScalar _ _) fun _ =>
    steps_pure (isProper_push hy trivial)

theorem steps_token (hx : x.IsProper) : Steps x.token := by
  unfold token
  simp only
  split
  · exact steps_openBracket hx trivial
  · exact steps_openBracket hx trivial
  · exact steps_closeBracket hx trivial
  · exact steps_closeBracket hx trivial
  · exact steps_flowEntry hx
  · exact steps_keyToken hx fun c => Meets.map (lexical_markedName c) fun _ _ => trivial
  · exact steps_keyToken hx fun c => Meets.map (lexical_markedName c) fun _ _ => trivial
  · refine steps_keyToken hx fun c => (meets_tag c).mono ?_ fun _ he => he
    rintro ⟨_, _⟩ ⟨handle, suffix, rfl⟩
    trivial
  · exact steps_keyToken hx fun c => Meets.map (lexical_quotedScalar c) fun _ _ => trivial
  · exact steps_keyToken hx fun c => Meets.map (lexical_quotedScalar c) fun _ _ => trivial
  · repeat' split
    · exact steps_directive hx
    · exact steps_documentMark (t := .documentStart) hx trivial 3
    · exact steps_documentMark (t := .documentEnd) hx trivial 3
    · exact steps_blockEntry hx
    · exact steps_explicitKey hx
    · exact steps_value hx
    · exact steps_block hx
    · exact steps_plain hx
    · exact steps_malformed

theorem isProper_broken (hx : x.IsProper) (number : Nat) {e : LoadError} (he : IsLexical e) :
    ∀ t ∈ x.broken number e, t.IsProper := by
  intro t ht
  rcases List.mem_append.mp ht with ht | ht
  · exact hx t (List.mem_of_mem_drop (List.mem_reverse.mp ht))
  · exact List.mem_singleton.mp ht ▸ he

theorem isProper_finish : ∀ (fuel : Nat) {x : Lexer}, x.IsProper → ∀ t ∈ finish fuel x, t.IsProper
  | 0, _, hx => isProper_broken hx _ trivial
  | fuel + 1, x, hx => by
    have hstale := steps_dropStale hx
    unfold finish
    split
    · next e he => exact isProper_broken hx _ (hstale.of_error he)
    · next y hy =>
      have hy := hstale.of_ok hy
      have hstep : Meets (do
          let z ← y.advance
          if z.cursor.rest.isEmpty then
            let z ← (z.endBlocks (-1)).dropKey
            return (true, z.push .streamEnd)
          else
            let z ← z.token
            return (false, z)) (fun found => found.2.IsProper) IsLexical := by
        refine Meets.bind (steps_advance hy) fun z hz => ?_
        split
        · exact Meets.bind (steps_dropKey (isProper_endBlocks hz _)) fun _ hw =>
            meets_pure (isProper_push hw trivial)
        · exact Meets.bind (steps_token hz) fun _ hw => meets_pure hw
      simp only
      split
      · next e he => exact isProper_broken hy _ (hstep.of_error he)
      · next z hz => exact fun t ht => hstep.of_ok hz t (List.mem_reverse.mp ht)
      · next z hz => exact isProper_finish fuel (hstep.of_ok hz)

end Lexer

/-- The tokens of a text are proper. -/
theorem isProper_of_mem_tokens {text : String} {t : Token} (h : t ∈ tokens text) : t.IsProper := by
  unfold tokens at h
  simp only at h
  split at h
  · have hstart : (Lexer.start text.toList).IsProper := List.forall_mem_nil _
    exact Lexer.isProper_finish _ hstart t h
  · exact List.mem_singleton.mp h ▸ trivial

end Yaml

end GraphPaths
