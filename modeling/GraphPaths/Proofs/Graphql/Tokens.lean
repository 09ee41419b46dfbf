import GraphPaths.Graphql.Lexer
import GraphPaths.Proofs.Text.Character

/-!
# Reading tokens one by one

`Lexes cs ts` says that a text is read into some tokens. A text that starts with a punctuator, or
with a name that ends where the name does, is read into that token and what the rest is read into
(`lexes_punct`, `lexes_name`), and what is ignored between tokens can be left out (`lexes_ignored`).
-/

namespace GraphPaths

namespace Graphql

/-- Whether a text is a name. -/
def isName (s : String) : Bool :=
  match s.toList with
  | [] => false
  | c :: r => isNameStart c && r.all isNameChar

/-- A text is read into tokens, wherever they stand. -/
def Lexes (cs : List Char) (ts : List Token) : Prop :=
  ∀ fuel, cs.length < fuel → (lexFrom fuel cs).map Lexeme.token = ts

/-! ## Characters of names -/

theorem toNat_lt_of_isNameStart {c : Char} (h : isNameStart c) : c.toNat < 128 := by
  simp only [isNameStart, Bool.or_eq_true, Bool.and_eq_true, decide_eq_true_eq, beq_iff_eq,
    Text.charLe_iff, Text.charEq_iff, Char.reduceToNat] at h
  omega

/-- A character that a name starts with starts nothing else. -/
theorem isNameStart_facts {c : Char} (h : isNameStart c) :
    c ≠ '"' ∧ c ≠ '#' ∧ isIgnored c = false ∧ Punctuator.ofChar c = none ∧
      (isDigit c || c == '-') = false ∧ isNameChar c := by
  refine Text.forall_ascii (fun c => isNameStart c → c ≠ '"' ∧ c ≠ '#' ∧ isIgnored c = false ∧
    Punctuator.ofChar c = none ∧ (isDigit c || c == '-') = false ∧ isNameChar c) ?_
    (toNat_lt_of_isNameStart h) h
  decide +kernel

/-- A punctuator of one character is no name and is not left out. -/
theorem punctuator_facts {c : Char} {p : Punctuator} (h : Punctuator.ofChar c = some p) :
    c ≠ '"' ∧ c ≠ '#' ∧ isIgnored c = false ∧ isNameChar c = false := by
  have htext : p.text.toList = [c] := by simpa using List.find?_some h
  cases p <;> simp [Punctuator.text] at htext <;> subst htext <;> decide +kernel

/-! ## Tokens -/

theorem lexes_nil : Lexes [] [.eof] := by
  intro fuel hfuel
  cases fuel with
  | zero => contradiction
  | succ fuel => rfl

/-- What is ignored can be left out. -/
theorem lexes_ignored {c : Char} {cs : List Char} {ts : List Token} (hc : isIgnored c)
    (h : Lexes cs ts) : Lexes (c :: cs) ts := by
  intro fuel hfuel
  have hskip : skipIgnored false (c :: cs) = skipIgnored false cs := by
    rw [skipIgnored, if_pos hc]
  have hshort := h fuel (by simp only [List.length_cons] at hfuel; omega)
  cases fuel with
  | zero => contradiction
  | succ fuel =>
    unfold lexFrom at hshort ⊢
    rw [hskip]
    exact hshort

/-- The first token of a text that starts with one. -/
theorem lexes_token {c : Char} {cs rest : List Char} {t : Token} {ts : List Token}
    (hignored : isIgnored c = false) (hcomment : c ≠ '#') (ht : token (c :: cs) = .ok (t, rest))
    (hrest : rest.length ≤ cs.length) (h : Lexes rest ts) : Lexes (c :: cs) (t :: ts) := by
  intro fuel hfuel
  have hskip : skipIgnored false (c :: cs) = c :: cs := by
    rw [skipIgnored, if_neg (by simp [hignored]), if_neg (by simpa using hcomment)]
  cases fuel with
  | zero => contradiction
  | succ fuel =>
    simp only [List.length_cons] at hfuel
    unfold lexFrom
    rw [hskip]
    simp only [ht, List.map_cons]
    rw [h fuel (by omega)]

theorem token_cons {c : Char} {cs : List Char} (h : c ≠ '"') :
    token (c :: cs) = match Punctuator.ofChar c with
      | some p => .ok (.punct p, cs)
      | none =>
        if isDigit c || c == '-' then number (c :: cs)
        else if isNameStart c then
          .ok (.name (String.ofList ((c :: cs).takeWhile isNameChar)),
            (c :: cs).dropWhile isNameChar)
        else if c == '.' then dots (c :: cs)
        else if c == '\'' then stopAt .singleQuote (c :: cs)
        else stopAt (.unexpected c) (c :: cs) := by
  unfold token
  split
  · contradiction
  · next heq => exact absurd (List.cons.inj heq).1 h
  · next heq => exact absurd (List.cons.inj heq).1 h
  · next heq =>
    obtain ⟨rfl, rfl⟩ := List.cons.inj heq
    rfl

theorem lexes_punct {c : Char} {p : Punctuator} {cs : List Char} {ts : List Token}
    (hp : Punctuator.ofChar c = some p) (h : Lexes cs ts) : Lexes (c :: cs) (.punct p :: ts) := by
  obtain ⟨hquote, hcomment, hignored, -⟩ := punctuator_facts hp
  refine lexes_token hignored hcomment ?_ (Nat.le_refl _) h
  rw [token_cons hquote, hp]

/-- Whether a name cannot go on with a text. -/
def endsName : List Char → Bool
  | [] => true
  | c :: _ => !isNameChar c

/-- A name that ends where the rest begins. -/
theorem lexes_name {s : String} {cs : List Char} {ts : List Token} (hs : isName s)
    (hcs : endsName cs) (h : Lexes cs ts) : Lexes (s.toList ++ cs) (.name s :: ts) := by
  unfold isName at hs
  cases hchars : s.toList with
  | nil => simp [hchars] at hs
  | cons c r =>
    simp only [hchars, Bool.and_eq_true, List.all_eq_true] at hs
    obtain ⟨hquote, hcomment, hignored, hpunct, hnumber, hchar⟩ := isNameStart_facts hs.1
    have hall : ∀ d ∈ c :: r, isNameChar d := by
      intro d hd
      rcases List.mem_cons.mp hd with rfl | hd
      · exact hchar
      · exact hs.2 d hd
    have htake : (c :: r ++ cs).takeWhile isNameChar = c :: r ∧
        (c :: r ++ cs).dropWhile isNameChar = cs := by
      rw [List.takeWhile_append_of_pos hall, List.dropWhile_append_of_pos hall]
      cases cs with
      | nil => simp
      | cons d cs =>
        have hd : ¬ isNameChar d := by simpa [endsName] using hcs
        rw [List.takeWhile_cons_of_neg hd, List.dropWhile_cons_of_neg hd, List.append_nil]
        exact ⟨rfl, rfl⟩
    have hs' : String.ofList (c :: r) = s := by rw [← hchars, String.ofList_toList]
    have htoken : token (c :: (r ++ cs)) = .ok (.name s, cs) := by
      rw [token_cons hquote, hpunct, ← List.cons_append]
      simp only [hnumber, hs.1, htake, hs']
      rfl
    exact lexes_token hignored hcomment htoken (by simp) h

end Graphql

end GraphPaths
