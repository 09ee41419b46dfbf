import GraphPaths.Console
import Mathlib

/-!
# Text with marks

A line has marks for style (`styleMark?`), and what looks like a mark but has an odd number of
backslashes in front of it is text. `unmarked` leaves the marks of a line out and undoes its
escapes. This gives an escaped text back (`unmarked_escapeMarkup`): each mark in it has an odd
number of backslashes in front of it now, and nothing else has become a mark, since the brackets
stand in the same order as before (`find?_escapeMarks`).
-/

namespace GraphPaths

/-! ## Marks -/

/-- Whether a character is a square bracket. -/
def isBracket (c : Char) : Bool :=
  c == '[' || c == ']'

/-- Whether a style mark may have a character after its opening bracket. -/
def opensMark (c : Char) : Bool :=
  c.isLower || c == '#' || c == '/' || c == '@'

/-- The style mark at the start of a text, and the rest: a mark opens with one of certain characters
and goes on to the next bracket, which closes it. -/
def styleMark? : List Char → Option (List Char × List Char)
  | '[' :: r =>
    if r.head?.any opensMark && r.find? isBracket == some ']' then
      some ('[' :: r.takeWhile (!isBracket ·) ++ [']'], (r.dropWhile (!isBracket ·)).tail)
    else none
  | _ => none

theorem styleMark?_bracket (r : List Char) : styleMark? ('[' :: r) =
    if r.head?.any opensMark && r.find? isBracket == some ']' then
      some ('[' :: r.takeWhile (!isBracket ·) ++ [']'], (r.dropWhile (!isBracket ·)).tail)
    else none :=
  rfl

theorem styleMark?_of_ne {c : Char} (h : c ≠ '[') (r : List Char) : styleMark? (c :: r) = none := by
  unfold styleMark?
  split
  · next heq => exact absurd (List.cons.inj heq).1 h
  · rfl

/-- The text before the next bracket. -/
theorem takeWhile_append_bracket {r : List Char} {b : Char} (h : r.find? isBracket = some b) :
    r.takeWhile (!isBracket ·) ++ b :: (r.dropWhile (!isBracket ·)).tail = r := by
  rw [List.find?_eq_head?_dropWhile_not] at h
  rw [List.cons_head?_tail h]
  exact List.takeWhile_append_dropWhile

/-- A text that starts with a mark is the mark and the rest. -/
theorem styleMark?_eq_some {cs mark rest : List Char} (h : styleMark? cs = some (mark, rest)) :
    cs = mark ++ rest ∧ ∃ body, mark = '[' :: body := by
  unfold styleMark? at h
  split at h
  · next r =>
    obtain ⟨hmark, h⟩ := Option.ite_none_right_eq_some.mp h
    obtain ⟨rfl, rfl⟩ := Prod.mk.inj (Option.some.inj h)
    rw [Bool.and_eq_true, beq_iff_eq] at hmark
    exact ⟨by simpa using (takeWhile_append_bracket hmark.2).symm, _, rfl⟩
  · contradiction

/-- A mark does not depend on what comes behind it. -/
theorem styleMark?_append {cs mark rest : List Char} (h : styleMark? cs = some (mark, rest))
    (more : List Char) : styleMark? (mark ++ more) = some (mark, more) := by
  unfold styleMark? at h
  split at h
  · next r =>
    obtain ⟨hmark, h⟩ := Option.ite_none_right_eq_some.mp h
    obtain ⟨rfl, rfl⟩ := Prod.mk.inj (Option.some.inj h)
    rw [Bool.and_eq_true, beq_iff_eq] at hmark
    have hr := takeWhile_append_bracket hmark.2
    have hbody : ∀ c ∈ r.takeWhile (!isBracket ·), !isBracket c :=
      fun c hc => List.all_eq_true.mp List.all_takeWhile c hc
    generalize r.takeWhile (!isBracket ·) = body at hr hbody
    have hopens : (body ++ ']' :: more).head?.any opensMark = r.head?.any opensMark := by
      rw [← hr]
      cases body <;> rfl
    have hclose : (body ++ ']' :: more).find? isBracket = some ']' := by
      rw [List.find?_append, List.find?_eq_none.mpr fun c hc => by simpa using hbody c hc]
      rfl
    have hmore : '[' :: body ++ [']'] ++ more = '[' :: (body ++ ']' :: more) := by simp
    rw [hmore, styleMark?_bracket, hopens, hclose, hmark.1,
      List.takeWhile_append_of_pos hbody, List.dropWhile_append_of_pos hbody]
    simp [isBracket]
  · contradiction

theorem markBody_eq : ∀ r : List Char, markBody r =
    if r.find? isBracket == some ']' then
      some (r.takeWhile (!isBracket ·) ++ [']'], (r.dropWhile (!isBracket ·)).tail)
    else none
  | [] => rfl
  | c :: r => by
    have ih := markBody_eq r
    unfold markBody
    by_cases hclose : c = ']'
    · subst hclose
      rfl
    by_cases hopen : c = '['
    · subst hopen
      rfl
    have hc : isBracket c = false := by simp [isBracket, hopen, hclose]
    rw [if_neg (by simpa using hclose), if_neg (by simpa using hopen), ih,
      List.find?_cons_of_neg (by simp [hc]), List.takeWhile_cons_of_pos (by simp [hc]),
      List.dropWhile_cons_of_pos (by simp [hc])]
    split <;> rfl

theorem isBracket_of_opensMark {c : Char} (h : opensMark c) : isBracket c = false := by
  rw [Bool.eq_false_iff]
  intro hc
  rcases (Bool.or_eq_true _ _).mp hc with hc | hc <;> rw [beq_iff_eq.mp hc] at h <;>
    exact absurd h (by decide)

/-- The marks that are escaped are the style marks. -/
theorem markAtStart_eq (cs : List Char) : markAtStart cs = styleMark? cs := by
  unfold markAtStart
  split
  · next c r =>
    rw [styleMark?_bracket, List.head?_cons, Option.any_some]
    have hstart : startsMark c = opensMark c := rfl
    rw [hstart]
    by_cases hc : opensMark c
    · have hbracket := isBracket_of_opensMark hc
      rw [if_pos hc, hc, Bool.true_and, markBody_eq, List.find?_cons_of_neg (by simp [hbracket]),
        List.takeWhile_cons_of_pos (by simp [hbracket]),
        List.dropWhile_cons_of_pos (by simp [hbracket])]
      split <;> rfl
    · rw [if_neg hc, Bool.eq_false_iff.mpr hc, Bool.false_and, if_neg Bool.false_ne_true]
  · next hno =>
    cases cs with
    | nil => rfl
    | cons c r =>
      by_cases hc : c = '['
      · subst hc
        cases r with
        | nil => rfl
        | cons d r => exact absurd rfl (hno d r)
      · exact (styleMark?_of_ne hc r).symm

/-! ## Lines without marks -/

/-- A line without its marks and escapes: of the backslashes in front of a mark there stay half, and
the mark stays if they were odd. -/
def unmarked (cs : List Char) : List Char :=
  let slashes := cs.takeWhile (· == '\\')
  match _h : styleMark? (cs.dropWhile (· == '\\')) with
  | some (mark, rest) =>
    List.replicate (slashes.length / 2) '\\' ++ (if slashes.length % 2 = 1 then mark else [])
      ++ unmarked rest
  | none =>
    match _h' : cs.dropWhile (· == '\\') with
    | [] => slashes
    | c :: rest => slashes ++ c :: unmarked rest
termination_by cs.length
decreasing_by
  · have hlength := (cs.dropWhile_suffix (· == '\\')).length_le
    obtain ⟨hcs, body, rfl⟩ := styleMark?_eq_some _h
    rw [hcs, List.length_append, List.length_cons] at hlength
    omega
  · have hlength := (cs.dropWhile_suffix (· == '\\')).length_le
    rw [_h', List.length_cons] at hlength
    omega

section

variable {cs mark rest : List Char}

theorem takeWhile_slashes (n : Nat) (h : cs.head? ≠ some '\\') :
    (List.replicate n '\\' ++ cs).takeWhile (· == '\\') = List.replicate n '\\' := by
  rw [List.takeWhile_append_of_pos fun c hc => by simpa using List.eq_of_mem_replicate hc]
  cases cs with
  | nil => simp
  | cons c cs => simpa using h

theorem dropWhile_slashes (n : Nat) (h : cs.head? ≠ some '\\') :
    (List.replicate n '\\' ++ cs).dropWhile (· == '\\') = cs := by
  rw [List.dropWhile_append_of_pos fun c hc => by simpa using List.eq_of_mem_replicate hc]
  cases cs with
  | nil => simp
  | cons c cs => simpa using h

theorem unmarked_slashes (n : Nat) :
    unmarked (List.replicate n '\\') = List.replicate n '\\' := by
  have hnil : ([] : List Char).head? ≠ some '\\' := nofun
  have htake := takeWhile_slashes n hnil
  have hdrop := dropWhile_slashes n hnil
  rw [List.append_nil] at htake hdrop
  unfold unmarked
  rw [htake]
  split
  · next hmark =>
    rw [hdrop] at hmark
    contradiction
  · split
    · rfl
    · next hcons => exact nomatch hdrop.symm.trans hcons

theorem unmarked_mark (n : Nat) (h : styleMark? cs = some (mark, rest)) :
    unmarked (List.replicate n '\\' ++ cs) = List.replicate (n / 2) '\\' ++
      (if n % 2 = 1 then mark else []) ++ unmarked rest := by
  have hcs : cs.head? ≠ some '\\' := by
    obtain ⟨rfl, body, rfl⟩ := styleMark?_eq_some h
    simp
  have hdrop := dropWhile_slashes n hcs
  rw [unmarked, takeWhile_slashes n hcs, List.length_replicate]
  split
  · next hmark =>
    rw [hdrop, h] at hmark
    obtain ⟨rfl, rfl⟩ := Prod.mk.inj (Option.some.inj hmark)
    rfl
  · next hnone =>
    rw [hdrop, h] at hnone
    contradiction

theorem unmarked_char (n : Nat) {c : Char} (hc : c ≠ '\\') (h : styleMark? (c :: rest) = none) :
    unmarked (List.replicate n '\\' ++ c :: rest) =
      List.replicate n '\\' ++ c :: unmarked rest := by
  have hcs : (c :: rest).head? ≠ some '\\' := by simpa using hc
  have hdrop := dropWhile_slashes n hcs
  rw [unmarked, takeWhile_slashes n hcs]
  split
  · next hmark =>
    rw [hdrop, h] at hmark
    contradiction
  · split
    · next hnil => exact nomatch hdrop.symm.trans hnil
    · next hcons =>
      obtain ⟨rfl, rfl⟩ := List.cons.inj (hdrop.symm.trans hcons)
      rfl

end

/-! ## Escapes -/

/-- Backslashes come before no bracket that was not there. -/
theorem find?_slashes (n : Nat) (cs : List Char) :
    (List.replicate n '\\' ++ cs).find? isBracket = cs.find? isBracket := by
  rw [List.find?_append, List.find?_eq_none.mpr fun c hc => by
    rw [List.eq_of_mem_replicate hc]
    decide, Option.none_or]

/-- The first bracket of an escaped text is that of the text. -/
theorem find?_escapeMarks (fuel slashes : Nat) (cs : List Char) :
    (escapeMarks fuel slashes cs).find? isBracket = cs.find? isBracket := by
  induction fuel generalizing slashes cs with
  | zero => exact find?_slashes slashes cs
  | succ fuel ih =>
    cases cs with
    | nil => exact (congrArg _ (List.append_nil _)).symm.trans (find?_slashes slashes [])
    | cons c r =>
      unfold escapeMarks
      split
      · next hc =>
        obtain rfl := beq_iff_eq.mp hc
        rw [ih]
        rfl
      · rw [markAtStart_eq]
        split
        · next mark rest hmark =>
          obtain ⟨hcs, body, rfl⟩ := styleMark?_eq_some hmark
          rw [hcs, List.append_assoc, find?_slashes]
          rfl
        · rw [find?_slashes, List.find?_cons, List.find?_cons, ih]

/-- An escaped text that is to follow backslashes starts with one. -/
theorem head?_escapeMarks_succ (fuel slashes : Nat) (cs : List Char) :
    (escapeMarks fuel (slashes + 1) cs).head? = some '\\' := by
  induction fuel generalizing slashes cs with
  | zero => rfl
  | succ fuel ih =>
    cases cs with
    | nil => rfl
    | cons c r =>
      unfold escapeMarks
      split
      · exact ih (slashes + 1) r
      · split <;> rfl

theorem opensMark_head?_escapeMarks (fuel : Nat) (cs : List Char) :
    (escapeMarks fuel 0 cs).head?.any opensMark = cs.head?.any opensMark := by
  cases fuel with
  | zero => rfl
  | succ fuel =>
    cases cs with
    | nil => rfl
    | cons c r =>
      unfold escapeMarks
      split
      · next hc =>
        obtain rfl := beq_iff_eq.mp hc
        rw [head?_escapeMarks_succ]
        rfl
      · rw [markAtStart_eq]
        split
        · next mark rest hmark =>
          obtain ⟨hcs, body, rfl⟩ := styleMark?_eq_some hmark
          rw [hcs]
          rfl
        · rfl

/-- Nothing becomes a mark by escapes behind it. -/
theorem styleMark?_escapeMarks (fuel : Nat) {c : Char} {r : List Char}
    (h : styleMark? (c :: r) = none) : styleMark? (c :: escapeMarks fuel 0 r) = none := by
  by_cases hc : c = '['
  · subst hc
    rw [styleMark?_bracket] at h ⊢
    rw [opensMark_head?_escapeMarks, find?_escapeMarks]
    exact if_neg (by simpa using h)
  · exact styleMark?_of_ne hc _

/-- An escaped text stands for the text. -/
theorem unmarked_escapeMarks (fuel slashes : Nat) (cs : List Char) (h : cs.length < fuel) :
    unmarked (escapeMarks fuel slashes cs) = List.replicate slashes '\\' ++ cs := by
  induction fuel generalizing slashes cs with
  | zero => omega
  | succ fuel ih =>
    cases cs with
    | nil => exact (unmarked_slashes slashes).trans (List.append_nil _).symm
    | cons c r =>
      rw [List.length_cons] at h
      unfold escapeMarks
      split
      · next hc =>
        obtain rfl := beq_iff_eq.mp hc
        rw [ih (slashes + 1) r (by omega), List.replicate_succ', List.append_assoc]
        rfl
      · next hc =>
        rw [markAtStart_eq]
        split
        · next mark rest hmark =>
          obtain ⟨hcs, body, rfl⟩ := styleMark?_eq_some hmark
          have hlength := congrArg List.length hcs
          rw [List.length_cons, List.length_append, List.length_cons] at hlength
          rw [List.append_assoc, unmarked_mark _ (styleMark?_append hmark _), ih 0 rest (by omega),
            hcs, if_pos (by omega), Nat.mul_add_div (by decide)]
          simp
        · next hmark =>
          rw [unmarked_char slashes (by simpa using hc) (styleMark?_escapeMarks fuel hmark),
            ih 0 r (by omega)]
          rfl

/-- An escaped text ends as the text does. -/
theorem getLast?_escapeMarks (fuel slashes : Nat) (cs : List Char) :
    (escapeMarks fuel slashes cs).getLast? = (List.replicate slashes '\\' ++ cs).getLast? := by
  induction fuel generalizing slashes cs with
  | zero => rfl
  | succ fuel ih =>
    cases cs with
    | nil => rw [List.append_nil]; rfl
    | cons c r =>
      unfold escapeMarks
      split
      · next hc =>
        obtain rfl := beq_iff_eq.mp hc
        rw [ih, List.replicate_succ', List.append_assoc]
        rfl
      · rw [markAtStart_eq]
        split
        · next mark rest hmark =>
          obtain ⟨hcs, body, rfl⟩ := styleMark?_eq_some hmark
          have hrest : (escapeMarks fuel 0 rest).getLast? = rest.getLast? := ih 0 rest
          rw [hcs, List.getLast?_append, List.getLast?_append, List.getLast?_append,
            List.getLast?_append, hrest, List.getLast?_cons, Option.some_or,
            Option.or_assoc, Option.some_or]
        · have hr : (escapeMarks fuel 0 r).getLast? = r.getLast? := ih 0 r
          simp [List.getLast?_append, List.getLast?_cons, hr]

/-- An escaped text stands for the text, unless this ends in a backslash. -/
theorem unmarked_escapeMarkup {s : String} (h : s.toList.getLast? ≠ some '\\') :
    unmarked (escapeMarkup s).toList = s.toList := by
  have hlast : (escapeMarks (s.length + 1) 0 s.toList).reverse.head? ≠ some '\\' := by
    rw [List.head?_reverse, getLast?_escapeMarks]
    exact h
  have hslashes := takeWhile_slashes 0 hlast
  rw [List.replicate_zero, List.nil_append] at hslashes
  unfold escapeMarkup
  simp only [hslashes]
  rw [if_neg (by decide), String.toList_ofList]
  exact unmarked_escapeMarks (s.length + 1) 0 s.toList (Nat.lt_succ_self _)

/-! ## Lines -/

/-- The text of a piece of output, without marks and escapes. -/
def Shown.unstyled : Shown → String
  | .line markup | .rule markup => String.ofList (unmarked markup.toList)
  | .json text => text

theorem unmarked_nil : unmarked [] = [] :=
  unmarked_slashes 0

/-- A mark that no backslash stands in front of is left out. -/
theorem unmarked_append_of_mark {mark rest : List Char}
    (h : styleMark? (mark ++ rest) = some (mark, rest)) : unmarked (mark ++ rest) = unmarked rest :=
  unmarked_mark 0 h

/-- Whether a character is left as it is wherever it stands outside of marks. -/
def isPlain (c : Char) : Bool :=
  c != '\\' && c != '['

theorem unmarked_append_of_plain {cs : List Char} (h : cs.all isPlain) (rest : List Char) :
    unmarked (cs ++ rest) = cs ++ unmarked rest := by
  induction cs with
  | nil => rfl
  | cons c cs ih =>
    rw [List.all_cons, Bool.and_eq_true] at h
    obtain ⟨hslash, hopen⟩ := Bool.and_eq_true_iff.mp h.1
    have hc := unmarked_char 0 (bne_iff_ne.mp hslash)
      (styleMark?_of_ne (bne_iff_ne.mp hopen) (cs ++ rest))
    rw [ih h.2] at hc
    exact hc

theorem unmarked_of_plain {cs : List Char} (h : cs.all isPlain) : unmarked cs = cs := by
  have hplain := unmarked_append_of_plain h []
  rwa [List.append_nil, unmarked_nil, List.append_nil] at hplain

/-- The text of a rule is its title. -/
theorem unstyled_title {title : String} (h : title.toList.all isPlain) :
    (Shown.rule ("[bold blue]" ++ title)).unstyled = title := by
  rw [Shown.unstyled, String.toList_append, unmarked_append_of_mark (by rfl), unmarked_of_plain h,
    String.ofList_toList]

/-- The text of a value with its name. -/
theorem unstyled_named {key value : String} (hkey : key.toList.all isPlain)
    (hvalue : value.toList.all isPlain) :
    (Shown.line ("[dim]" ++ key ++ ":[/dim] " ++ value)).unstyled = key ++ ": " ++ value := by
  have hchars : ("[dim]" ++ key ++ ":[/dim] " ++ value).toList =
      "[dim]".toList ++ (key.toList ++ (":".toList ++ ("[/dim]".toList ++
        (" ".toList ++ value.toList)))) := by
    have hmiddle : ":[/dim] ".toList = ":".toList ++ "[/dim]".toList ++ " ".toList := rfl
    simp only [String.toList_append, hmiddle, List.append_assoc]
  have hcolon : ": " = ":" ++ " " := rfl
  have hplain : ":".toList.all isPlain ∧ " ".toList.all isPlain := by decide
  rw [Shown.unstyled, hchars, unmarked_append_of_mark (by rfl), unmarked_append_of_plain hkey,
    unmarked_append_of_plain hplain.1, unmarked_append_of_mark (by rfl),
    unmarked_append_of_plain hplain.2, unmarked_of_plain hvalue, hcolon]
  simp only [String.ofList_append, String.ofList_toList, String.append_assoc]

/-- The text of an escaped item is the item, unless this ends in a backslash. -/
theorem unstyled_item {text : String} (h : text.toList.getLast? ≠ some '\\') :
    (Shown.line ("- " ++ escapeMarkup text)).unstyled = "- " ++ text := by
  have hplain : "- ".toList.all isPlain := by decide
  rw [Shown.unstyled, String.toList_append, unmarked_append_of_plain hplain,
    unmarked_escapeMarkup h, String.ofList_append, String.ofList_toList, String.ofList_toList]

end GraphPaths
