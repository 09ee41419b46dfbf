import GraphPaths.Proofs.Json.Scalar

/-!
# What stops the reading of JSON

Every reader takes its value off the front of a text (`TakesFrom`), and only one thing stops it that
is no fault of the notation: an integer with more digits than the limit allows, which stands in the
text (`number_of_read`). Any text of so many digits is an example (`read_digits`).
-/

namespace GraphPaths

namespace Json

open Text (IsDigits NoDigit)

/-- The error is about digits that stand in the text, more of them than the limit allows. -/
def TooManyDigits (cs : List Char) (e : NumeralError) : Prop :=
  ∃ ds, IsDigits ds ∧ ds <:+: cs ∧ digitLimit < ds.length ∧ e = .tooManyDigits ds.length

theorem TooManyDigits.mono {cs cs' : List Char} {e : NumeralError} (h : cs <:+: cs') :
    TooManyDigits cs e → TooManyDigits cs' e := by
  rintro ⟨ds, hds, hcs, hrest⟩
  exact ⟨ds, hds, hcs.trans h, hrest⟩

/-- A reader leaves an end of its text, and no number stops it but one with too many digits. -/
def TakesFrom {α : Type} (cs : List Char) (result : Except Stop (α × List Char)) : Prop :=
  Meets result (fun xr => xr.2 <:+ cs) fun stop => ∀ e, stop = .number e → TooManyDigits cs e

section

variable {α β : Type} {cs cs' r : List Char} {result : Except Stop (α × List Char)}

theorem takesFrom_ok {x : α} (h : r <:+ cs) : TakesFrom cs (.ok (x, r)) := meets_pure h

theorem takesFrom_stopAt {f : Fault} : TakesFrom cs (stopAt f r : Except Stop (α × List Char)) :=
  meets_throw nofun

/-- What is taken off an end of a text is taken off the text. -/
theorem TakesFrom.of_suffix (h : TakesFrom cs result) (hcs : cs <:+ cs') : TakesFrom cs' result :=
  Meets.mono h (fun _ hr => hr.trans hcs) fun _ he e heq => (he e heq).mono hcs.isInfix

/-- Two readers one after the other. -/
theorem TakesFrom.bind (h : TakesFrom cs result) {next : α × List Char → Except Stop (β × List Char)}
    (hn : ∀ x r, r <:+ cs → TakesFrom cs (next (x, r))) : TakesFrom cs (result >>= next) :=
  Meets.bind h fun xr hr => hn xr.1 xr.2 hr

/-- A reader whose value is made into another. -/
theorem TakesFrom.map (h : TakesFrom cs result) (f : α → β) :
    TakesFrom cs (result.map fun xr => (f xr.1, xr.2)) := Meets.map h fun _ hr => hr

end

theorem skipSpace_suffix (cs : List Char) : skipSpace cs <:+ cs := List.dropWhile_suffix _

/-! ## Texts -/

theorem unit4_suffix {cs r : List Char} {n : Nat} (h : unit4 cs = some (n, r)) : r <:+ cs := by
  unfold unit4 at h
  split at h
  · simp only [Option.bind_eq_bind, Option.bind_eq_some_iff, Option.pure_def, Option.some.injEq,
      Prod.mk.injEq] at h
    obtain ⟨-, -, -, -, -, -, -, -, -, rfl⟩ := h
    exact List.suffix_append [_, _, _, _] _
  · contradiction

/-- The two halves of a character stand one after the other. -/
theorem codePoint_suffix {cs r : List Char} {c : Char} (h : codePoint cs = some (c, r)) :
    r <:+ cs := by
  obtain ⟨⟨high, r1⟩, hhigh, h⟩ := Option.bind_eq_some_iff.mp h
  have hr1 := unit4_suffix hhigh
  simp only at h
  split at h
  · split at h
    · split at h
      · next low r2 hlow =>
        have hr2 : r2 <:+ cs :=
          (unit4_suffix hlow).trans ((List.suffix_append ['\\', 'u'] _).trans hr1)
        split at h
        · obtain ⟨-, rfl⟩ := Prod.mk.inj (Option.some.inj h)
          exact hr2
        · obtain ⟨-, rfl⟩ := Prod.mk.inj (Option.some.inj h)
          exact hr1
      · obtain ⟨-, rfl⟩ := Prod.mk.inj (Option.some.inj h)
        exact hr1
    · obtain ⟨-, rfl⟩ := Prod.mk.inj (Option.some.inj h)
      exact hr1
  · obtain ⟨-, rfl⟩ := Prod.mk.inj (Option.some.inj h)
    exact hr1

theorem takesFrom_chars (start : List Char) :
    ∀ (fuel : Nat) (acc cs : List Char), TakesFrom cs (chars start fuel acc cs) := by
  intro fuel acc cs
  fun_induction chars start fuel acc cs with
  | case1 | case2 | case4 => exact takesFrom_stopAt
  | case3 => exact takesFrom_ok (List.suffix_cons _ _)
  | case5 fuel acc r c r' hcode ih =>
    exact ih.of_suffix ((codePoint_suffix hcode).trans (List.suffix_append ['\\', 'u'] r))
  | case6 | case8 | case9 => exact takesFrom_stopAt
  | case7 fuel acc c r _ e he ih => exact ih.of_suffix (List.suffix_append ['\\', c] r)
  | case10 fuel acc c r _ _ _ _ _ ih => exact ih.of_suffix (List.suffix_cons _ _)

theorem takesFrom_string (cs : List Char) : TakesFrom cs (string cs) :=
  takesFrom_chars _ _ _ _

/-! ## Numbers -/

/-- The digits at the front of a text. -/
theorem span_isDigit_parts (cs : List Char) :
    IsDigits (cs.span isDigit).1 ∧ (cs.span isDigit).1 ++ (cs.span isDigit).2 = cs := by
  rw [List.span_eq_takeWhile_dropWhile]
  exact ⟨Text.isDigits_takeWhile cs, List.takeWhile_append_dropWhile⟩

theorem wholeDigits_parts (cs : List Char) :
    IsDigits (wholeDigits cs).1 ∧ (wholeDigits cs).1 ++ (wholeDigits cs).2 = cs := by
  unfold wholeDigits
  split
  · exact ⟨Text.isDigits_replicate 1, rfl⟩
  · exact span_isDigit_parts cs

theorem fraction_parts (cs : List Char) : ∃ ds, IsDigits ds ∧
    (fraction cs).1 = Written.fractionChars ds ∧ (fraction cs).1 ++ (fraction cs).2 = cs := by
  unfold fraction
  split
  · next r =>
    obtain ⟨hds, hr⟩ := span_isDigit_parts r
    simp only
    split
    · exact ⟨[], nofun, rfl, rfl⟩
    · next hne =>
      obtain ⟨c, ds, hcs⟩ := List.exists_cons_of_ne_nil (mt List.isEmpty_iff.mpr hne)
      refine ⟨_, hds, ?_, congrArg ('.' :: ·) hr⟩
      rw [hcs]
      rfl
  · exact ⟨[], nofun, rfl, rfl⟩

/-- An exponent is empty, or a letter and what is read as a number. -/
theorem exponent_parts (cs : List Char) : (exponent cs).1 ++ (exponent cs).2 = cs ∧
    ((exponent cs).1 = [] ∨ ∃ e sign ds, (exponent cs).1 = e :: (sign ++ ds) ∧ e ∈ ['e', 'E'] ∧
      sign ∈ [[], ['-'], ['+']] ∧ IsDigits ds ∧ ds ≠ []) := by
  unfold exponent
  split
  · next e r =>
    split
    · next he =>
      have hmem : e ∈ ['e', 'E'] := by simpa using he
      split
      next sign r' hsign =>
      obtain ⟨hr, hmark⟩ : sign ++ r' = r ∧ sign ∈ [[], ['-'], ['+']] := by
        split at hsign
        all_goals
          obtain ⟨rfl, rfl⟩ := Prod.mk.inj hsign
          exact ⟨rfl, by decide⟩
      obtain ⟨hds, hrest⟩ := span_isDigit_parts r'
      simp only
      split
      · exact ⟨rfl, .inl rfl⟩
      · next hne =>
        refine ⟨?_, .inr ⟨e, sign, _, rfl, hmem, hmark, hds, mt List.isEmpty_iff.mpr hne⟩⟩
        rw [List.cons_append, List.cons_append, List.append_assoc, hrest, hr]
    · exact ⟨rfl, .inl rfl⟩
  · exact ⟨rfl, .inl rfl⟩

/-- What is read as an exponent has a number and ends the digits before it. -/
theorem exponent_facts (cs : List Char) : (∃ e, Numeral.exponent (exponent cs).1 = some e) ∧
    NoDigit (exponent cs).1 ∧ (exponent cs).1.head? ≠ some '_' ∧
      (∀ r, (exponent cs).1 ≠ '.' :: r) ∧ ∀ c ∈ (exponent cs).1, isNumeralChar c := by
  obtain ⟨-, hempty | ⟨e, sign, ds, heq, he, hsign, hds, hne⟩⟩ := exponent_parts cs
  · rw [hempty]
    exact ⟨⟨0, rfl⟩, nofun, nofun, nofun, nofun⟩
  rw [heq]
  have hletter : (e == 'e' || e == 'E') = true ∧ e.isDigit = false ∧ e ≠ '_' ∧ e ≠ '.' ∧
      isNumeralChar e := by
    simp only [List.mem_cons, List.not_mem_nil, or_false] at he
    rcases he with rfl | rfl <;> decide
  obtain ⟨hmark, negative, hread⟩ : (∀ c ∈ sign, isNumeralChar c) ∧
      ∃ negative, Numeral.sign (sign ++ ds) = (negative, ds) := by
    obtain ⟨d, ds, rfl⟩ := List.exists_cons_of_ne_nil hne
    simp only [List.mem_cons, List.not_mem_nil, or_false] at hsign
    rcases hsign with rfl | rfl | rfl
    · exact ⟨nofun, false, sign_append false (hds d List.mem_cons_self) ds⟩
    · exact ⟨isNumeralChar_signChars true, true, rfl⟩
    · exact ⟨fun c hc => List.mem_singleton.mp hc ▸ rfl, false, rfl⟩
  refine ⟨⟨_, exponent_digits hletter.1 hread hds hne⟩, fun c hc => ?_, fun h => ?_, fun r h => ?_, ?_⟩
  · exact Option.some.inj hc ▸ hletter.2.1
  · exact hletter.2.2.1 (Option.some.inj h)
  · exact hletter.2.2.2.1 (List.cons.inj h).1
  · exact List.forall_mem_cons.mpr ⟨hletter.2.2.2.2, fun c hc =>
      (List.mem_append.mp hc).elim (hmark c) (isNumeralChar_of_isDigits hds c)⟩

/-- A number that has a fraction or an exponent can always be read. -/
theorem exists_real (negative : Bool) {whole : List Char} (hwhole : IsDigits whole) (hne : whole ≠ [])
    (cs : List Char) : ∃ x, Numeral.real (String.ofList (signChars negative ++ whole ++
      (fraction cs).1 ++ (exponent (fraction cs).2).1)) = .ok x := by
  obtain ⟨ds, hds, hfraction, -⟩ := fraction_parts cs
  obtain ⟨⟨e, he⟩, hdigit, hline, hpoint, hchars⟩ := exponent_facts (fraction cs).2
  have hread := unsignedReal_parts negative hwhole hne hds hdigit hline hpoint he
  rw [hfraction]
  have hpoints : ∀ c ∈ Written.fractionChars ds, isNumeralChar c := by
    cases ds with
    | nil => exact nofun
    | cons d ds => exact List.forall_mem_cons.mpr ⟨rfl, isNumeralChar_of_isDigits hds⟩
  have hall := List.forall_mem_append.mpr ⟨List.forall_mem_append.mpr
    ⟨isNumeralChar_of_isDigits hwhole, hpoints⟩, hchars⟩
  obtain ⟨c, whole, rfl⟩ := List.exists_cons_of_ne_nil hne
  have hreal := real_of_unsignedReal negative (hwhole c List.mem_cons_self) hall hread
  exact ⟨_, by simpa only [List.append_eq, List.append_assoc, List.cons_append] using hreal⟩

theorem takesFrom_numberAt {cs : List Char} {result : Except Stop (Value × List Char)}
    (h : numberAt cs = some result) : TakesFrom cs result := by
  unfold numberAt at h
  split at h
  next sign r hsign =>
  obtain ⟨negative, rfl, rfl⟩ : ∃ negative, sign = signChars negative ∧ cs = sign ++ r := by
    split at hsign
    · obtain ⟨rfl, rfl⟩ := Prod.mk.inj hsign
      exact ⟨true, rfl, rfl⟩
    · obtain ⟨rfl, rfl⟩ := Prod.mk.inj hsign
      exact ⟨false, rfl, rfl⟩
  obtain ⟨hwhole, hr⟩ := wholeDigits_parts r
  obtain ⟨ds, hds, hfraction, hr'⟩ := fraction_parts (wholeDigits r).2
  have hrest := (exponent_parts (fraction (wholeDigits r).2).2).1
  have hsuffix : (exponent (fraction (wholeDigits r).2).2).2 <:+ signChars negative ++ r :=
    calc (exponent (fraction (wholeDigits r).2).2).2
      _ <:+ (fraction (wholeDigits r).2).2 := ⟨_, hrest⟩
      _ <:+ (wholeDigits r).2 := ⟨_, hr'⟩
      _ <:+ r := ⟨_, hr⟩
      _ <:+ signChars negative ++ r := List.suffix_append _ _
  simp only [Option.ite_none_left_eq_some, Option.some.injEq] at h
  obtain ⟨hempty, h⟩ := h
  have hne : (wholeDigits r).1 ≠ [] := mt List.isEmpty_iff.mpr hempty
  split at h
  · rw [int_chars negative hwhole hne] at h
    by_cases hlong : digitLimit < (wholeDigits r).1.length
    · rw [if_pos hlong] at h
      subst h
      refine meets_throw fun e heq => ⟨_, hwhole, ?_, hlong, (Stop.number.inj heq).symm⟩
      have hfront : (wholeDigits r).1 <+: r := ⟨_, hr⟩
      exact hfront.isInfix.trans (List.suffix_append _ r).isInfix
    · rw [if_neg hlong] at h
      exact h ▸ takesFrom_ok hsuffix
  · obtain ⟨x, hx⟩ := exists_real negative hwhole hne (wholeDigits r).2
    rw [hx] at h
    exact h ▸ takesFrom_ok hsuffix

/-! ## Values -/

theorem takesFrom_atom (cs : List Char) : TakesFrom cs (atom cs) := by
  unfold atom
  split
  · next r => exact ((takesFrom_string r).of_suffix (List.suffix_cons _ _)).map Value.text
  split
  · next found hword =>
    obtain ⟨w, -, rfl⟩ := Option.map_eq_some_iff.mp hword
    exact takesFrom_ok (List.drop_suffix _ _)
  split
  · next result hnumber => exact takesFrom_numberAt hnumber
  · exact takesFrom_stopAt

mutual

theorem takesFrom_value : ∀ (fuel : Nat) (cs : List Char), TakesFrom cs (value fuel cs)
  | 0, cs => takesFrom_stopAt
  | fuel + 1, cs => by
    unfold value
    split
    · contradiction
    · next r _ =>
      have hr : skipSpace r <:+ '[' :: r := (skipSpace_suffix r).trans (List.suffix_cons _ _)
      split
      · next heq => exact takesFrom_ok (((List.suffix_cons _ _).trans (heq ▸ hr)))
      · exact ((takesFrom_items _ [] _).of_suffix hr).map Value.list
    · next r _ =>
      have hr : skipSpace r <:+ '\x7b' :: r := (skipSpace_suffix r).trans (List.suffix_cons _ _)
      split
      · next heq => exact takesFrom_ok (((List.suffix_cons _ _).trans (heq ▸ hr)))
      · exact ((takesFrom_entries _ [] _).of_suffix hr).map fun es => Value.map (Value.ofEntries es)
    · exact takesFrom_atom _

theorem takesFrom_items : ∀ (fuel : Nat) (acc : List Value) (cs : List Char),
    TakesFrom cs (items fuel acc cs)
  | 0, acc, cs => takesFrom_stopAt
  | fuel + 1, acc, cs => by
    unfold items
    refine (takesFrom_value fuel cs).bind fun v r hr => ?_
    have hr := (skipSpace_suffix r).trans hr
    simp only
    split
    · next heq => exact takesFrom_ok ((List.suffix_cons _ _).trans (heq ▸ hr))
    · next r' heq =>
      exact (takesFrom_items fuel _ _).of_suffix
        ((skipSpace_suffix r').trans ((List.suffix_cons _ _).trans (heq ▸ hr)))
    · exact takesFrom_stopAt

theorem takesFrom_entries : ∀ (fuel : Nat) (acc : List (Value × Value)) (cs : List Char),
    TakesFrom cs (entries fuel acc cs)
  | 0, acc, cs => takesFrom_stopAt
  | fuel + 1, acc, cs => by
    unfold entries
    split
    · next r =>
      refine ((takesFrom_string r).of_suffix (List.suffix_cons _ _)).bind fun key rk hrk => ?_
      have hrk := (skipSpace_suffix rk).trans hrk
      simp only
      split
      · next r' heq =>
        have hr' : skipSpace r' <:+ '"' :: r :=
          (skipSpace_suffix r').trans ((List.suffix_cons _ _).trans (heq ▸ hrk))
        refine ((takesFrom_value fuel (skipSpace r')).of_suffix hr').bind fun v rv hrv => ?_
        have hrv := (skipSpace_suffix rv).trans hrv
        simp only
        split
        · next heq => exact takesFrom_ok ((List.suffix_cons _ _).trans (heq ▸ hrv))
        · next r' heq =>
          exact (takesFrom_entries fuel _ _).of_suffix
            ((skipSpace_suffix r').trans ((List.suffix_cons _ _).trans (heq ▸ hrv)))
        · exact takesFrom_stopAt
      · exact takesFrom_stopAt
    · exact takesFrom_stopAt

end

/-- No number of a text stops the reading of it but one with too many digits. -/
theorem number_of_document {cs : List Char} {e : NumeralError}
    (h : document cs = .error (.number e)) : TooManyDigits cs e := by
  unfold document at h
  simp only at h
  split at h
  · exact nomatch h
  rcases bind_eq_error.mp h with h | ⟨⟨v, r⟩, -, h⟩
  · exact ((takesFrom_value _ _).of_suffix (skipSpace_suffix cs)).of_error h e rfl
  · simp only at h
    split at h <;> exact nomatch h

theorem number_of_read {text : String} {e : NumeralError} (h : read text = .error (.number e)) :
    TooManyDigits text.toList e := by
  unfold read at h
  simp only at h
  split at h
  · contradiction
  · next e' hdocument =>
    obtain rfl := ReadError.number.inj (Except.error.inj h)
    exact number_of_document hdocument
  · exact nomatch h

/-- An integer with too many digits is refused. -/
theorem read_digits {ds : List Char} (hds : IsWhole ds) (hlong : digitLimit < ds.length) :
    read (String.ofList ds) = .error (.number (.tooManyDigits ds.length)) := by
  have hnumber := @numberAt_digits false ds [] hds nofun
  rw [List.append_nil, if_pos hlong] at hnumber
  have hdigits := hds.isDigits
  obtain ⟨c, cs, rfl⟩ := List.exists_cons_of_ne_nil hds.ne_nil
  have hc := hdigits c List.mem_cons_self
  obtain ⟨hspace, hbracket, hmark⟩ : isSpace c = false ∧ (c ≠ '[' ∧ c ≠ '\x7b') ∧ c ≠ '\ufeff' :=
    Text.forall_digit (fun c => isSpace c = false ∧ (c ≠ '[' ∧ c ≠ '\x7b') ∧ c ≠ '\ufeff')
      (by decide) hc
  have hskip : skipSpace (c :: cs) = c :: cs := List.dropWhile_cons_of_neg (by simp [hspace])
  have hhead : ((c :: cs).head? == some '\ufeff') = false := by simpa using hmark
  have hatom : atom (c :: cs) = .error (.number (.tooManyDigits (c :: cs).length)) :=
    atom_of_number false hc hnumber
  have hdocument : document (c :: cs) = .error (.number (.tooManyDigits (c :: cs).length)) := by
    unfold document
    rw [hskip, value_eq_atom _ hbracket, hatom]
    simp only [hhead, Bool.false_eq_true, if_false]
    rfl
  unfold read
  simp only [String.toList_ofList, hdocument]

end Json

end GraphPaths
