import GraphPaths.Proofs.Graphql.Tokens
import GraphPaths.Proofs.Outcome

/-!
# Scanners in front of a line feed

What a scanner finds at the start of a text does not change when a line feed and more follow: digits
and names end there, and a text between quotes or a block that is closed before it is closed. Each
scanner has a lemma `…_settles`, which says this and that the scanner leaves an end of its text.
-/

namespace GraphPaths

namespace Graphql

variable {cs rest : List Char} {t : Token}

/-! ## Numbers -/

/-- No characters of a kind reach over a line feed, which is not of the kind. -/
theorem span_append {p : Char → Bool} (hp : p '\n' = false) (cs more : List Char) :
    (cs ++ '\n' :: more).span p = (cs.takeWhile p, cs.dropWhile p ++ '\n' :: more) := by
  rw [List.span_eq_takeWhile_dropWhile]
  induction cs with
  | nil => simp [hp]
  | cons c cs ih =>
    obtain ⟨htake, hdrop⟩ := Prod.mk.inj ih
    by_cases hc : p c
    · simp [hc, htake, hdrop]
    · simp [hc]

theorem digits_settles {ds : List Char} (h : digits cs = .ok (ds, rest)) :
    rest <:+ cs.tail ∧ ∀ more, digits (cs ++ '\n' :: more) = .ok (ds, rest ++ '\n' :: more) := by
  cases cs with
  | nil => exact nomatch h
  | cons c r =>
    unfold digits at h ⊢
    dsimp only [List.cons_append] at h ⊢
    split at h
    · next hc =>
      rw [List.span_eq_takeWhile_dropWhile] at h
      obtain ⟨rfl, rfl⟩ := Prod.mk.inj (Except.ok.inj h)
      refine ⟨?_, fun more => ?_⟩
      · rw [List.dropWhile_cons_of_pos hc]
        exact List.dropWhile_suffix _
      · rw [if_pos hc, ← List.cons_append, span_append (by decide)]
    · exact nomatch h

/-- A text goes on as it starts. -/
theorem head?_append_line (h : cs ≠ []) (more : List Char) :
    (cs ++ '\n' :: more).head? = cs.head? := by
  obtain ⟨c, r, rfl⟩ := List.exists_cons_of_ne_nil h
  rfl

theorem wholePart_of_ne (h : cs.head? ≠ some '0') : wholePart cs = digits cs := by
  unfold wholePart
  split
  · exact absurd rfl h
  · rfl

theorem wholePart_zero (d : Char) (r : List Char) : wholePart ('0' :: d :: r) =
    if isDigit d then stopAt (.digitAfterZero d) (d :: r) else .ok (['0'], d :: r) :=
  rfl

theorem wholePart_settles {ds : List Char} (h : wholePart cs = .ok (ds, rest)) :
    rest <:+ cs.tail ∧ ∀ more, wholePart (cs ++ '\n' :: more) = .ok (ds, rest ++ '\n' :: more) := by
  by_cases hzero : cs.head? = some '0'
  · obtain ⟨r, rfl⟩ := List.head?_eq_some_iff.mp hzero
    cases r with
    | nil =>
      obtain ⟨rfl, rfl⟩ := Prod.mk.inj (Except.ok.inj h)
      exact ⟨List.suffix_refl _, fun more => rfl⟩
    | cons d r =>
      rw [wholePart_zero] at h
      split at h
      · exact nomatch h
      · next hd =>
        obtain ⟨rfl, rfl⟩ := Prod.mk.inj (Except.ok.inj h)
        exact ⟨List.suffix_refl _, fun more => if_neg hd⟩
  · rw [wholePart_of_ne hzero] at h
    obtain ⟨hsuffix, happend⟩ := digits_settles h
    have hne : cs ≠ [] := fun hnil => by
      rw [hnil] at h
      exact nomatch h
    refine ⟨hsuffix, fun more => ?_⟩
    rw [wholePart_of_ne (by rwa [head?_append_line hne]), happend]

theorem fractionPart_of_ne (h : cs.head? ≠ some '.') : fractionPart cs = .ok ([], cs) := by
  unfold fractionPart
  split
  · exact absurd rfl h
  · rfl

theorem fractionPart_settles {ds : List Char} (h : fractionPart cs = .ok (ds, rest)) :
    rest <:+ cs ∧ ∀ more, fractionPart (cs ++ '\n' :: more) = .ok (ds, rest ++ '\n' :: more) := by
  by_cases hpoint : cs.head? = some '.'
  · obtain ⟨r, rfl⟩ := List.head?_eq_some_iff.mp hpoint
    obtain ⟨⟨found, left⟩, hdigits, h⟩ := bind_eq_ok.mp h
    obtain ⟨rfl, rfl⟩ := Prod.mk.inj (Except.ok.inj h)
    obtain ⟨hsuffix, happend⟩ := digits_settles hdigits
    refine ⟨hsuffix.trans ((List.tail_suffix r).trans (List.suffix_cons ..)), fun more => ?_⟩
    exact bind_eq_ok.mpr ⟨_, happend more, rfl⟩
  · rw [fractionPart_of_ne hpoint] at h
    obtain ⟨rfl, rfl⟩ := Prod.mk.inj (Except.ok.inj h)
    refine ⟨List.suffix_refl _, fun more => fractionPart_of_ne ?_⟩
    cases cs with
    | nil => simp
    | cons c cs => exact hpoint

/-- The sign of an exponent and what follows it. -/
def exponentSign (cs : List Char) : List Char × List Char :=
  match cs with
  | s :: r => if s == '+' || s == '-' then ([s], r) else ([], cs)
  | [] => ([], cs)

theorem exponentSign_append (cs more : List Char) :
    exponentSign (cs ++ '\n' :: more) =
      ((exponentSign cs).1, (exponentSign cs).2 ++ '\n' :: more) := by
  cases cs with
  | nil => rfl
  | cons s r =>
    unfold exponentSign
    dsimp only [List.cons_append]
    split <;> rfl

theorem exponentSign_suffix (cs : List Char) : (exponentSign cs).2 <:+ cs := by
  unfold exponentSign
  split
  · split
    · exact List.suffix_cons ..
    · exact List.suffix_refl _
  · exact List.suffix_refl _

theorem exponentPart_letter {e : Char} (he : e == 'e' || e == 'E') (r : List Char) :
    exponentPart (e :: r) = (digits (exponentSign r).2).map fun (ds, rest) =>
      (e :: (exponentSign r).1 ++ ds, rest) := by
  unfold exponentPart
  exact if_pos he

theorem exponentPart_settles {ds : List Char} (h : exponentPart cs = .ok (ds, rest)) :
    rest <:+ cs ∧ ∀ more, exponentPart (cs ++ '\n' :: more) = .ok (ds, rest ++ '\n' :: more) := by
  cases cs with
  | nil =>
    obtain ⟨rfl, rfl⟩ := Prod.mk.inj (Except.ok.inj h)
    exact ⟨List.suffix_refl _, fun more => rfl⟩
  | cons e r =>
    by_cases he : e == 'e' || e == 'E'
    · rw [exponentPart_letter he] at h
      obtain ⟨⟨found, left⟩, hdigits, hparts⟩ := map_eq_ok.mp h
      obtain ⟨rfl, rfl⟩ := Prod.mk.inj hparts
      obtain ⟨hsuffix, happend⟩ := digits_settles hdigits
      refine ⟨hsuffix.trans ((List.tail_suffix _).trans ((exponentSign_suffix r).trans
        (List.suffix_cons ..))), fun more => ?_⟩
      rw [List.cons_append, exponentPart_letter he, exponentSign_append]
      exact map_eq_ok.mpr ⟨_, happend more, rfl⟩
    · unfold exponentPart at h ⊢
      dsimp only [List.cons_append] at h ⊢
      rw [if_neg he] at h
      obtain ⟨rfl, rfl⟩ := Prod.mk.inj (Except.ok.inj h)
      exact ⟨List.suffix_refl _, fun more => if_neg he⟩

/-- The sign of a number and what follows it. -/
def signPart (cs : List Char) : List Char × List Char :=
  match cs with
  | '-' :: r => (['-'], r)
  | _ => ([], cs)

theorem signPart_cons {c : Char} {r : List Char} (hc : c ≠ '-') :
    signPart (c :: r) = ([], c :: r) := by
  unfold signPart
  split
  · next heq => exact absurd (List.cons.inj heq).1 hc
  · rfl

/-- The token of the parts of a number. -/
def numberToken (sign whole fraction exponent : List Char) : Token :=
  let text := String.ofList (sign ++ whole ++ fraction ++ exponent)
  if fraction.isEmpty && exponent.isEmpty then .int text else .float text

/-- Whether a number may end in front of a text. -/
def endsNumber : List Char → Bool
  | [] => true
  | c :: _ => !(c == '.' || isNameStart c)

/-- A number has its parts one after the other. -/
theorem number_eq_ok : number cs = .ok (t, rest) ↔ ∃ whole fraction exponent r₁ r₂,
    wholePart (signPart cs).2 = .ok (whole, r₁) ∧ fractionPart r₁ = .ok (fraction, r₂) ∧
    exponentPart r₂ = .ok (exponent, rest) ∧ endsNumber rest ∧
    numberToken (signPart cs).1 whole fraction exponent = t := by
  have hparts : number cs = (wholePart (signPart cs).2 >>= fun (whole, r) => fractionPart r >>=
      fun (fraction, r) => exponentPart r >>= fun (exponent, r) => do
        match r with
        | c :: _ => if c == '.' || isNameStart c then stopAt (.notDigit (some c)) r
        | [] => pure ()
        return (numberToken (signPart cs).1 whole fraction exponent, r)) := rfl
  have hend : ∀ (u : Token) (r : List Char), (do
      match r with
      | c :: _ => if c == '.' || isNameStart c then stopAt (.notDigit (some c)) r
      | [] => pure ()
      return (u, r) : Except LexicalStop (Token × List Char)) = .ok (t, rest) ↔
        r = rest ∧ endsNumber rest ∧ u = t := by
    intro u r
    have hpair : (Except.ok (u, r) : Except LexicalStop _) = .ok (t, rest) ↔ r = rest ∧ u = t := by
      simp [and_comm]
    cases r with
    | nil => exact hpair.trans (and_congr_right fun h => by simp [← h, endsNumber])
    | cons c r =>
      dsimp only
      by_cases hc : c == '.' || isNameStart c
      · rw [if_pos hc]
        refine iff_of_false nofun ?_
        rintro ⟨rfl, hends, -⟩
        simp [endsNumber, hc] at hends
      · rw [if_neg hc]
        exact hpair.trans (and_congr_right fun h => by simp [← h, endsNumber, hc])
  simp only [hparts, bind_eq_ok, Prod.exists, hend]
  constructor
  · rintro ⟨whole, r₁, hwhole, fraction, r₂, hfraction, exponent, _, hexponent, rfl, h⟩
    exact ⟨whole, fraction, exponent, r₁, r₂, hwhole, hfraction, hexponent, h⟩
  · rintro ⟨whole, fraction, exponent, r₁, r₂, hwhole, hfraction, hexponent, h⟩
    exact ⟨whole, r₁, hwhole, fraction, r₂, hfraction, exponent, rest, hexponent, rfl, h⟩

theorem number_settles {c : Char} (h : number (c :: cs) = .ok (t, rest)) : rest <:+ cs ∧
    ∀ more, number (c :: (cs ++ '\n' :: more)) = .ok (t, rest ++ '\n' :: more) := by
  obtain ⟨whole, fraction, exponent, r₁, r₂, hwhole, hfraction, hexponent, hend, rfl⟩ :=
    number_eq_ok.mp h
  obtain ⟨hsuffix, hwhole⟩ := wholePart_settles hwhole
  obtain ⟨hsuffix₁, hfraction⟩ := fractionPart_settles hfraction
  obtain ⟨hsuffix₂, hexponent⟩ := exponentPart_settles hexponent
  have hsign : (signPart (c :: cs)).2.tail <:+ cs ∧ ∀ more, signPart (c :: (cs ++ '\n' :: more)) =
      ((signPart (c :: cs)).1, (signPart (c :: cs)).2 ++ '\n' :: more) := by
    by_cases hc : c = '-'
    · subst hc
      exact ⟨List.tail_suffix cs, fun more => rfl⟩
    · rw [signPart_cons hc]
      exact ⟨List.suffix_refl cs, fun more => signPart_cons hc⟩
  refine ⟨hsuffix₂.trans (hsuffix₁.trans (hsuffix.trans hsign.1)), fun more => ?_⟩
  rw [number_eq_ok, hsign.2]
  refine ⟨whole, fraction, exponent, _, _, hwhole more, hfraction more, hexponent more, ?_, rfl⟩
  cases rest with
  | nil => rfl
  | cons d rest => exact hend

/-! ## Texts between quotes -/

variable {e : Char} (more : List Char)

theorem bracedEscape_settles : ∀ {budget size point : Nat} {cs : List Char},
    bracedEscape budget size point cs = .ok (e, rest) →
      rest <:+ cs ∧ bracedEscape budget size point (cs ++ more) = .ok (e, rest ++ more)
  | 0, _, _, _, h => nomatch h
  | _ + 1, _, _, [], h => nomatch h
  | budget + 1, size, point, c :: r, h => by
    simp only [bracedEscape, List.cons_append] at h ⊢
    split at h
    · next hc =>
      rw [if_pos hc]
      split at h
      · exact nomatch h
      · next hpoint =>
        obtain ⟨rfl, rfl⟩ := Prod.mk.inj (Except.ok.inj h)
        exact ⟨List.suffix_cons .., if_neg hpoint⟩
    · next hc =>
      rw [if_neg hc]
      cases hd : Text.hexDigit c with
      | none =>
        rw [hd] at h
        exact nomatch h
      | some d =>
        rw [hd] at h
        obtain ⟨hsuffix, happend⟩ := bracedEscape_settles h
        exact ⟨hsuffix.trans (List.suffix_cons ..), happend⟩

theorem unit4_settles {n : Nat} (h : unit4 cs = some (n, rest)) :
    rest <:+ cs ∧ unit4 (cs ++ more) = some (n, rest ++ more) := by
  unfold unit4 at h
  split at h
  · next a b c d r =>
    simp only [Option.bind_eq_bind, Option.bind_eq_some_iff] at h
    obtain ⟨a', ha, b', hb, c', hc, d', hd, h⟩ := h
    obtain ⟨rfl, rfl⟩ := Prod.mk.inj (Option.some.inj h)
    refine ⟨⟨[a, b, c, d], rfl⟩, ?_⟩
    simp [unit4, ha, hb, hc, hd]
  · exact nomatch h

theorem lowHalf_settles {high : Nat} (h : lowHalf high cs = some (e, rest)) :
    rest <:+ cs ∧ lowHalf high (cs ++ more) = some (e, rest ++ more) := by
  unfold lowHalf at h
  split at h
  · next r =>
    obtain ⟨⟨low, left⟩, hlow, h⟩ := Option.bind_eq_some_iff.mp h
    obtain ⟨hsuffix, happend⟩ := unit4_settles more hlow
    dsimp only at h
    split at h
    · next hrange =>
      obtain ⟨rfl, rfl⟩ := Prod.mk.inj (Option.some.inj h)
      refine ⟨hsuffix.trans ⟨['\\', 'u'], rfl⟩, ?_⟩
      exact Option.bind_eq_some_iff.mpr ⟨_, happend, if_pos hrange⟩
    · exact nomatch h
  · exact nomatch h

theorem codedChar_settles (h : codedChar cs = some (e, rest)) :
    rest <:+ cs ∧ codedChar (cs ++ more) = some (e, rest ++ more) := by
  obtain ⟨⟨n, left⟩, hn, h⟩ := Option.bind_eq_some_iff.mp h
  obtain ⟨hsuffix, happend⟩ := unit4_settles more hn
  dsimp only at h
  split at h
  · next hscalar =>
    obtain ⟨rfl, rfl⟩ := Prod.mk.inj (Option.some.inj h)
    exact ⟨hsuffix, Option.bind_eq_some_iff.mpr ⟨_, happend, if_pos hscalar⟩⟩
  · next hscalar =>
    split at h
    · next hhigh =>
      obtain ⟨hlow, hlowAppend⟩ := lowHalf_settles more h
      refine ⟨hlow.trans hsuffix, Option.bind_eq_some_iff.mpr ⟨_, happend, ?_⟩⟩
      dsimp only
      rw [if_neg hscalar, if_pos hhigh, hlowAppend]
    · exact nomatch h

theorem unicodeEscape_brace (cs : List Char) : unicodeEscape ('\\' :: 'u' :: '\x7b' :: cs) =
    match bracedEscape 9 3 0 cs with
      | .ok found => .ok found
      | .error size =>
        stopAt (.unicodeEscape (String.ofList (('\\' :: 'u' :: '\x7b' :: cs).take size)))
          ('\\' :: 'u' :: '\x7b' :: cs) :=
  rfl

theorem unicodeEscape_of_ne (h : cs.head? ≠ some '\x7b') :
    unicodeEscape ('\\' :: 'u' :: cs) = match codedChar cs with
      | some found => .ok found
      | none => stopAt (.unicodeEscape (String.ofList (('\\' :: 'u' :: cs).take 6)))
          ('\\' :: 'u' :: cs) := by
  unfold unicodeEscape
  split
  · next r heq =>
    obtain ⟨-, heq⟩ := List.cons.inj heq
    obtain ⟨-, rfl⟩ := List.cons.inj heq
    exact absurd rfl h
  · rfl

theorem unicodeEscape_settles (h : unicodeEscape ('\\' :: 'u' :: cs) = .ok (e, rest)) :
    rest <:+ cs ∧ unicodeEscape ('\\' :: 'u' :: (cs ++ more)) = .ok (e, rest ++ more) := by
  by_cases hbrace : cs.head? = some '\x7b'
  · obtain ⟨r, rfl⟩ := List.head?_eq_some_iff.mp hbrace
    rw [unicodeEscape_brace] at h
    split at h
    · next found hfound =>
      obtain rfl := Except.ok.inj h
      obtain ⟨hsuffix, happend⟩ := bracedEscape_settles more hfound
      refine ⟨hsuffix.trans (List.suffix_cons ..), ?_⟩
      rw [List.cons_append, unicodeEscape_brace, happend]
    · exact nomatch h
  · rw [unicodeEscape_of_ne hbrace] at h
    split at h
    · next found hfound =>
      obtain rfl := Except.ok.inj h
      obtain ⟨hsuffix, happend⟩ := codedChar_settles more hfound
      refine ⟨hsuffix, ?_⟩
      have hbrace' : (cs ++ more).head? ≠ some '\x7b' := by
        cases cs with
        | nil => exact nomatch hfound
        | cons c cs => exact hbrace
      rw [unicodeEscape_of_ne hbrace', happend]
    · exact nomatch h

section Steps

variable (fuel : Nat) (acc r : List Char)

theorem stringChars_code : stringChars (fuel + 1) acc ('\\' :: 'u' :: r) =
    match unicodeEscape ('\\' :: 'u' :: r) with
      | .ok (e, rest) => stringChars fuel (e :: acc) rest
      | .error stop => .error stop :=
  rfl

theorem stringChars_escaped (he : e ≠ 'u') :
    stringChars (fuel + 1) acc ('\\' :: e :: r) = match escapedChar e with
      | some e => stringChars fuel (e :: acc) r
      | none => stopAt (.characterEscape (String.ofList ['\\', e])) ('\\' :: e :: r) := by
  conv_lhs => unfold stringChars
  rw [if_neg (by decide), if_pos (by decide)]
  split
  · contradiction
  · next heq => exact absurd (List.cons.inj heq).1 he
  · next heq =>
    obtain ⟨rfl, rfl⟩ := List.cons.inj heq
    rfl

theorem stringChars_plain {c : Char} (hquote : c ≠ '"') (hback : c ≠ '\\') :
    stringChars (fuel + 1) acc (c :: r) =
      if isLineEnd c then stopAt .unterminated (c :: r) else stringChars fuel (c :: acc) r := by
  conv_lhs => unfold stringChars
  rw [if_neg (by simpa using hquote), if_neg (by simpa using hback)]

end Steps

theorem stringChars_settles : ∀ {fuel : Nat} {acc cs : List Char},
    stringChars fuel acc cs = .ok (t, rest) → rest <:+ cs ∧
      ∀ {fuel' : Nat}, fuel ≤ fuel' → stringChars fuel' acc (cs ++ more) = .ok (t, rest ++ more)
  | 0, _, _, h => nomatch h
  | _ + 1, _, [], h => nomatch h
  | fuel + 1, acc, c :: r, h => by
    suffices hgoal : rest <:+ c :: r ∧ ∀ {fuel'}, fuel ≤ fuel' →
        stringChars (fuel' + 1) acc (c :: (r ++ more)) = .ok (t, rest ++ more) by
      refine ⟨hgoal.1, fun {fuel'} hfuel => ?_⟩
      obtain ⟨n, rfl⟩ : ∃ n, fuel' = n + 1 := ⟨fuel' - 1, by omega⟩
      exact hgoal.2 (by omega)
    by_cases hquote : c = '"'
    · subst hquote
      obtain ⟨rfl, rfl⟩ := Prod.mk.inj (Except.ok.inj h)
      exact ⟨List.suffix_cons .., fun _ => rfl⟩
    · by_cases hback : c = '\\'
      · subst hback
        cases r with
        | nil => exact nomatch h
        | cons e r =>
          by_cases he : e = 'u'
          · subst he
            rw [stringChars_code] at h
            split at h
            · next e' left hescape =>
              obtain ⟨hleft, hmore⟩ := unicodeEscape_settles more hescape
              obtain ⟨hsuffix, happend⟩ := stringChars_settles h
              refine ⟨hsuffix.trans (hleft.trans ⟨['\\', 'u'], rfl⟩), fun hfuel => ?_⟩
              rw [List.cons_append, stringChars_code, hmore]
              exact happend hfuel
            · exact nomatch h
          · rw [stringChars_escaped fuel acc r he] at h
            cases hescaped : escapedChar e with
            | none =>
              rw [hescaped] at h
              exact nomatch h
            | some e' =>
              rw [hescaped] at h
              obtain ⟨hsuffix, happend⟩ := stringChars_settles h
              refine ⟨hsuffix.trans ⟨['\\', e], rfl⟩, fun {fuel'} hfuel => ?_⟩
              rw [List.cons_append, stringChars_escaped fuel' acc _ he, hescaped]
              exact happend hfuel
      · rw [stringChars_plain fuel acc r hquote hback] at h
        split at h
        · exact nomatch h
        · next hline =>
          obtain ⟨hsuffix, happend⟩ := stringChars_settles h
          refine ⟨hsuffix.trans (List.suffix_cons ..), fun {fuel'} hfuel => ?_⟩
          rw [stringChars_plain fuel' acc _ hquote hback, if_neg hline]
          exact happend hfuel

/-! ## Block texts -/

variable {more} in
/-- What has no line feed in it is in front of the line feed or not at all. -/
theorem prefix_of_append_line {p : List Char} (hp : '\n' ∉ p) (h : p <+: cs ++ '\n' :: more) :
    p <+: cs := by
  rcases List.prefix_or_prefix_of_prefix h (List.prefix_append cs ('\n' :: more)) with h' | ⟨q, rfl⟩
  · exact h'
  · cases q with
    | nil => simp
    | cons d q =>
      obtain ⟨rfl, -⟩ := List.cons_prefix_cons.mp ((List.prefix_append_right_inj cs).mp h)
      simp at hp

theorem blockChars_plain {acc r : List Char} {c : Char} (hclose : ¬['"', '"', '"'] <+: c :: r)
    (hquotes : ¬['\\', '"', '"', '"'] <+: c :: r) (hline : ¬['\r', '\n'] <+: c :: r) :
    blockChars acc (c :: r) = blockChars ((if c == '\r' then '\n' else c) :: acc) r := by
  conv_lhs => unfold blockChars
  split
  · next heq => exact nomatch heq
  · next heq => exact absurd ⟨_, heq.symm⟩ hclose
  · next heq => exact absurd ⟨_, heq.symm⟩ hquotes
  · next heq => exact absurd ⟨_, heq.symm⟩ hline
  · next heq =>
    obtain ⟨rfl, rfl⟩ := List.cons.inj heq
    rfl

theorem blockChars_settles {acc : List Char} (h : blockChars acc cs = .ok (t, rest)) :
    rest <:+ cs ∧ blockChars acc (cs ++ '\n' :: more) = .ok (t, rest ++ '\n' :: more) := by
  induction acc, cs using blockChars.induct with
  | case1 acc => exact nomatch h
  | case2 acc r =>
    obtain ⟨rfl, rfl⟩ := Prod.mk.inj (Except.ok.inj h)
    exact ⟨⟨['"', '"', '"'], rfl⟩, rfl⟩
  | case3 acc r ih =>
    obtain ⟨hsuffix, happend⟩ := ih h
    exact ⟨hsuffix.trans ⟨['\\', '"', '"', '"'], rfl⟩, happend⟩
  | case4 acc r ih =>
    obtain ⟨hsuffix, happend⟩ := ih h
    exact ⟨hsuffix.trans ⟨['\r', '\n'], rfl⟩, happend⟩
  | case5 acc c r hclose hquotes hline ih =>
    have hclose' : ¬['"', '"', '"'] <+: c :: r := by
      rintro ⟨r', hr⟩
      obtain ⟨rfl, rfl⟩ := List.cons.inj hr
      exact hclose _ rfl rfl
    have hquotes' : ¬['\\', '"', '"', '"'] <+: c :: r := by
      rintro ⟨r', hr⟩
      obtain ⟨rfl, rfl⟩ := List.cons.inj hr
      exact hquotes _ rfl rfl
    have hline' : ¬['\r', '\n'] <+: c :: r := by
      rintro ⟨r', hr⟩
      obtain ⟨rfl, rfl⟩ := List.cons.inj hr
      exact hline _ rfl rfl
    rw [blockChars_plain hclose' hquotes' hline'] at h
    obtain ⟨hsuffix, happend⟩ := ih h
    refine ⟨hsuffix.trans (List.suffix_cons ..), ?_⟩
    rw [List.cons_append, blockChars_plain, happend]
    · exact fun hp => hclose' (prefix_of_append_line (by decide) hp)
    · exact fun hp => hquotes' (prefix_of_append_line (by decide) hp)
    · -- A carriage return in front of the line feed would be the last character, and the block open.
      rintro ⟨r', hr⟩
      obtain ⟨rfl, hrest⟩ := List.cons.inj hr
      cases r with
      | nil => exact nomatch h
      | cons d r =>
        obtain ⟨hd, -⟩ := List.cons.inj hrest
        exact hline r rfl (by rw [hd])

/-! ## Points -/

theorem dots_settles (h : dots cs = .ok (t, rest)) :
    rest <:+ cs.tail ∧ dots (cs ++ more) = .ok (t, rest ++ more) := by
  unfold dots at h
  split at h
  · obtain ⟨rfl, rfl⟩ := Prod.mk.inj (Except.ok.inj h)
    exact ⟨⟨['.', '.'], rfl⟩, rfl⟩
  · exact nomatch h
  · dsimp only at h
    split at h <;> exact nomatch h
  · exact nomatch h

end Graphql

end GraphPaths
