import GraphPaths.Proofs.Graphql.Scanning

/-!
# Texts on lines of their own

A line feed keeps two texts apart: what the first is read into does not change when a line feed and
more follow, and the rest is read as a text of its own (`lexes_append`). It is the end of a comment,
and whatever token was there before it ends before it (`token_settles`).
-/

namespace GraphPaths

namespace Graphql

variable {cs rest : List Char} {t : Token}

/-! ## Tokens -/

theorem token_quote (h : ¬['"', '"'] <+: cs) :
    token ('"' :: cs) = stringChars (cs.length + 1) [] cs := by
  unfold token
  split
  · next heq => exact nomatch heq
  · next heq => exact absurd ⟨_, (List.cons.inj heq).2.symm⟩ h
  · next heq =>
    obtain ⟨-, rfl⟩ := List.cons.inj heq
    rfl
  · next hne heq => exact absurd (List.cons.inj heq).1.symm hne

/-- The first token of a text is its first token too when a line feed and more follow. -/
theorem token_settles {c : Char} (more : List Char) (h : token (c :: cs) = .ok (t, rest)) :
    rest <:+ cs ∧ token (c :: (cs ++ '\n' :: more)) = .ok (t, rest ++ '\n' :: more) := by
  by_cases hquote : c = '"'
  · subst hquote
    by_cases hblock : ['"', '"'] <+: cs
    · obtain ⟨r, rfl⟩ := hblock
      have hr : blockChars [] r = .ok (t, rest) := h
      obtain ⟨hsuffix, happend⟩ := blockChars_settles more hr
      exact ⟨hsuffix.trans ⟨['"', '"'], rfl⟩, happend⟩
    · rw [token_quote hblock] at h
      obtain ⟨hsuffix, happend⟩ := stringChars_settles ('\n' :: more) h
      refine ⟨hsuffix, ?_⟩
      rw [token_quote fun hp => hblock (prefix_of_append_line (by decide) hp)]
      exact happend (by simp)
  · rw [token_cons hquote] at h ⊢
    cases hp : Punctuator.ofChar c with
    | some p =>
      rw [hp] at h
      obtain ⟨rfl, rfl⟩ := Prod.mk.inj (Except.ok.inj h)
      exact ⟨List.suffix_refl _, rfl⟩
    | none =>
      rw [hp] at h
      dsimp only at h ⊢
      split at h
      · next hnumber =>
        rw [if_pos hnumber]
        obtain ⟨hsuffix, happend⟩ := number_settles h
        exact ⟨hsuffix, happend more⟩
      · next hnumber =>
        rw [if_neg hnumber]
        split at h
        · next hname =>
          have hchar := (isNameStart_facts hname).2.2.2.2.2
          have hspan := span_append (p := isNameChar) (by decide) (c :: cs) more
          rw [List.span_eq_takeWhile_dropWhile] at hspan
          obtain ⟨htake, hdrop⟩ := Prod.mk.inj hspan
          obtain ⟨rfl, rfl⟩ := Prod.mk.inj (Except.ok.inj h)
          rw [if_pos hname, ← List.cons_append, htake, hdrop, List.dropWhile_cons_of_pos hchar]
          exact ⟨List.dropWhile_suffix _, rfl⟩
        · next hname =>
          rw [if_neg hname]
          split at h
          · next hdot =>
            rw [if_pos hdot]
            exact dots_settles _ h
          · split at h <;> exact nomatch h

/-! ## Texts -/

/-- In front of a line feed the same is left out as at the end of a text. -/
theorem skipIgnored_append (more : List Char) : ∀ (comment : Bool) (cs : List Char),
    skipIgnored comment (cs ++ '\n' :: more) =
      if skipIgnored comment cs = [] then skipIgnored false more
      else skipIgnored comment cs ++ '\n' :: more
  | true, [] => rfl
  | false, [] => rfl
  | true, c :: cs => by
    have hstep : ∀ cs, skipIgnored true (c :: cs) = skipIgnored (!isLineEnd c) cs := fun _ => rfl
    rw [List.cons_append, hstep, hstep, skipIgnored_append]
  | false, c :: cs => by
    have hstep : ∀ cs, skipIgnored false (c :: cs) = if isIgnored c then skipIgnored false cs
        else if c == '#' then skipIgnored true cs else c :: cs := fun _ => rfl
    rw [List.cons_append, hstep, hstep]
    split
    · exact skipIgnored_append more false cs
    · split
      · exact skipIgnored_append more true cs
      · rfl

theorem skipIgnored_suffix : ∀ (comment : Bool) (cs : List Char), skipIgnored comment cs <:+ cs
  | true, [] => List.suffix_refl _
  | false, [] => List.suffix_refl _
  | true, c :: cs => (skipIgnored_suffix _ cs).trans (List.suffix_cons ..)
  | false, c :: cs => by
    unfold skipIgnored
    split
    · exact (skipIgnored_suffix _ cs).trans (List.suffix_cons ..)
    · split
      · exact (skipIgnored_suffix _ cs).trans (List.suffix_cons ..)
      · exact List.suffix_refl _

/-- A text without a token has its end alone. -/
theorem lexFrom_of_nil (h : skipIgnored false cs = []) (fuel : Nat) :
    lexFrom fuel cs = [⟨.eof, 0⟩] := by
  cases fuel with
  | zero => rfl
  | succ fuel =>
    unfold lexFrom
    rw [h]

section

variable {c : Char} {r : List Char} (h : skipIgnored false cs = c :: r)

include h

theorem lexFrom_of_token (ht : token (c :: r) = .ok (t, rest)) (fuel : Nat) :
    lexFrom (fuel + 1) cs = ⟨t, (c :: r).length⟩ :: lexFrom fuel rest := by
  simp only [lexFrom, h, ht]

theorem lexFrom_of_fault {stop : LexicalStop} (ht : token (c :: r) = .error stop) (fuel : Nat) :
    lexFrom (fuel + 1) cs = [⟨.broken stop.fault, stop.left⟩] := by
  simp only [lexFrom, h, ht]

/-- A token takes at least one character. -/
theorem length_lt_of_token (ht : token (c :: r) = .ok (t, rest)) : rest.length < cs.length := by
  have hrest := (token_settles [] ht).1.length_le
  have hcs := (skipIgnored_suffix false cs).length_le
  rw [h, List.length_cons] at hcs
  omega

end

/-- What is read does not hang on how many tokens there may be, if there may be enough. -/
theorem lexFrom_congr : ∀ {fuel fuel' : Nat} {cs : List Char}, cs.length < fuel →
    cs.length < fuel' → lexFrom fuel cs = lexFrom fuel' cs
  | fuel + 1, fuel' + 1, cs, hfuel, hfuel' => by
    cases hskip : skipIgnored false cs with
    | nil => rw [lexFrom_of_nil hskip, lexFrom_of_nil hskip]
    | cons c r =>
      cases htoken : token (c :: r) with
      | error stop => rw [lexFrom_of_fault hskip htoken, lexFrom_of_fault hskip htoken]
      | ok found =>
        obtain ⟨t, rest⟩ := found
        have hrest := length_lt_of_token hskip htoken
        have hn : rest.length < fuel := by omega
        have hn' : rest.length < fuel' := by omega
        rw [lexFrom_of_token hskip htoken, lexFrom_of_token hskip htoken, lexFrom_congr hn hn']

theorem lexFrom_ne_nil (fuel : Nat) (cs : List Char) : lexFrom fuel cs ≠ [] := by
  unfold lexFrom
  split
  · exact List.cons_ne_nil _ _
  · split
    · exact List.cons_ne_nil _ _
    · split <;> exact List.cons_ne_nil _ _

theorem lexes_iff {ts : List Token} : Lexes cs ts ↔ (lex cs).map Lexeme.token = ts := by
  constructor
  · exact fun h => h (cs.length + 1) (Nat.lt_succ_self _)
  · intro h fuel hfuel
    rw [lexFrom_congr hfuel (Nat.lt_succ_self _)]
    exact h

/-! ## Texts that are read to their ends -/

/-- A text is read to its end, into some tokens. -/
def LexesWhole (cs : List Char) (ts : List Token) : Prop := Lexes cs (ts ++ [.eof])

/-- A text without tokens has nothing but what is left out. -/
theorem skipIgnored_of_lexesWhole_nil (h : LexesWhole cs []) : skipIgnored false cs = [] := by
  have h := h (cs.length + 1) (Nat.lt_succ_self _)
  cases hskip : skipIgnored false cs with
  | nil => rfl
  | cons c r =>
    cases htoken : token (c :: r) with
    | error stop =>
      rw [lexFrom_of_fault hskip htoken] at h
      exact nomatch (List.cons.inj h).1
    | ok found =>
      rw [lexFrom_of_token hskip htoken] at h
      obtain ⟨-, hrest⟩ := List.cons.inj h
      exact absurd (List.map_eq_nil_iff.mp hrest) (lexFrom_ne_nil _ _)

/-- A text with a token has it at its start, apart from what is left out. -/
theorem exists_token_of_lexesWhole_cons {ts : List Token} (h : LexesWhole cs (t :: ts)) :
    ∃ c r rest, skipIgnored false cs = c :: r ∧ token (c :: r) = .ok (t, rest) ∧
      LexesWhole rest ts := by
  have hts : ts ++ [Token.eof] ≠ [] := by simp
  have hwhole := h (cs.length + 1) (Nat.lt_succ_self _)
  cases hskip : skipIgnored false cs with
  | nil =>
    rw [lexFrom_of_nil hskip] at hwhole
    exact absurd (List.cons.inj hwhole).2.symm hts
  | cons c r =>
    cases htoken : token (c :: r) with
    | error stop =>
      rw [lexFrom_of_fault hskip htoken] at hwhole
      exact absurd (List.cons.inj hwhole).2.symm hts
    | ok found =>
      obtain ⟨t', rest⟩ := found
      rw [lexFrom_of_token hskip htoken] at hwhole
      obtain ⟨rfl, hrest⟩ := List.cons.inj hwhole
      refine ⟨c, r, rest, rfl, htoken, fun fuel hfuel => ?_⟩
      rw [lexFrom_congr hfuel (length_lt_of_token hskip htoken)]
      exact hrest

/-- A line feed keeps two texts apart. -/
theorem lexes_append {more : List Char} {ts us : List Token} (h : LexesWhole cs ts)
    (hmore : Lexes more us) : Lexes (cs ++ '\n' :: more) (ts ++ us) := by
  induction ts generalizing cs with
  | nil =>
    have hskip : skipIgnored false (cs ++ '\n' :: more) = skipIgnored false more := by
      rw [skipIgnored_append, if_pos (skipIgnored_of_lexesWhole_nil h)]
    intro fuel hfuel
    rw [List.length_append, List.length_cons] at hfuel
    obtain ⟨n, rfl⟩ : ∃ n, fuel = n + 1 := ⟨fuel - 1, by omega⟩
    have hshort := hmore (n + 1) (by omega)
    unfold lexFrom at hshort ⊢
    rw [hskip]
    exact hshort
  | cons t ts ih =>
    obtain ⟨c, r, rest, hskip, htoken, hrest⟩ := exists_token_of_lexesWhole_cons h
    obtain ⟨-, happend⟩ := token_settles more htoken
    have hfirst : skipIgnored false (cs ++ '\n' :: more) = c :: (r ++ '\n' :: more) := by
      rw [skipIgnored_append, hskip, if_neg (List.cons_ne_nil c r), List.cons_append]
    intro fuel hfuel
    obtain ⟨n, rfl⟩ : ∃ n, fuel = n + 1 := ⟨fuel - 1, by omega⟩
    have hlength := length_lt_of_token hfirst happend
    have htail := ih hrest n (by omega)
    rw [lexFrom_of_token hfirst happend, List.map_cons, List.cons_append, htail]

/-- The tokens of a text, if it can be read to its end. -/
def tokens? (text : String) : Option (List Token) :=
  let ts := (lex text.toList).map Lexeme.token
  if ts.getLast? == some .eof then some ts.dropLast else none

theorem tokens?_eq_some {text : String} {ts : List Token} :
    tokens? text = some ts ↔ LexesWhole text.toList ts := by
  unfold tokens? LexesWhole
  rw [lexes_iff]
  dsimp only
  split
  · next hlast =>
    obtain ⟨before, hbefore⟩ := List.getLast?_eq_some_iff.mp (beq_iff_eq.mp hlast)
    simp [hbefore]
  · next hlast =>
    refine iff_of_false nofun fun h => hlast ?_
    rw [h, List.getLast?_concat, beq_self_eq_true]

end Graphql

end GraphPaths
