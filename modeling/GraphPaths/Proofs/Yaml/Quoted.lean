import GraphPaths.Proofs.Outcome
import GraphPaths.Proofs.Yaml.Cursor

/-!
# Reading quoted scalars

`Reads double t s n` says that a reader inside quotes that stands before `t` gives the characters `s`
and stops behind `n` characters, the closing quote among them. What is written inside quotes is made
of pieces for each of which a lemma says what it adds: characters as they are, blanks, escapes, and
line breaks with the indentation after them.
-/

namespace GraphPaths

namespace Yaml

/-- A reader inside quotes reads `s` in the first `n` characters of `t`. -/
def Reads (double : Bool) (t s : List Char) (n : Nat) : Prop :=
  ∀ (c : Cursor) (fuel : Nat), c.rest = t → t.length < fuel →
    quotedChars double fuel c = .ok (s, c.forward n)

/-- Whether a character is a blank inside a line. -/
def isBlank (c : Char) : Bool := c == ' ' || c == '\t'

/-- Whether something else than a line break comes after the blanks of a text. -/
def calm (t : List Char) : Bool := (t.dropWhile isBlank).head?.any fun x => !isLineEnd x

/-- Whether a character neither ends a line nor is a blank. -/
def isInk (c : Char) : Bool := !isBlank c && !isLineEnd c

theorem calm_cons {x : Char} {t : List Char} (h : isInk x) : calm (x :: t) := by
  simp only [isInk, Bool.and_eq_true, Bool.not_eq_true'] at h
  rw [calm, List.dropWhile_cons_of_neg (by simp [h.1])]
  simp [h.2]

theorem calm_space {t : List Char} (h : calm t) : calm (' ' :: t) := by
  rwa [calm, List.dropWhile_cons_of_pos (by rfl)]

variable {double : Bool} {t s : List Char} {n : Nat} {x : Char}

theorem Reads.congr {t' s' : List Char} {n' : Nat} (h : Reads double t s n) (ht : t = t')
    (hs : s = s') (hn : n = n') : Reads double t' s' n' := by
  subst ht hs hn
  exact h

/-! ## Single characters -/

theorem reads_doubleEnd (r : List Char) : Reads true ('"' :: r) [] 1 := by
  intro c fuel hc hfuel
  obtain ⟨fuel, rfl⟩ := Nat.exists_eq_succ_of_ne_zero (Nat.ne_zero_of_lt hfuel)
  unfold quotedChars
  simp only [Cursor.peek_of_rest hc, hc]
  rfl

theorem reads_singleEnd {r : List Char} (h : r.head? ≠ some '\'') :
    Reads false ('\'' :: r) [] 1 := by
  intro c fuel hc hfuel
  obtain ⟨fuel, rfl⟩ := Nat.exists_eq_succ_of_ne_zero (Nat.ne_zero_of_lt hfuel)
  have hnext : (c.peekAt 1 == '\'') = false := by
    cases r with
    | nil => simp [Cursor.peekAt, hc]
    | cons y r =>
      have hy : y ≠ '\'' := fun hy => h (by rw [hy]; rfl)
      simp [Cursor.peekAt, hc, hy]
  unfold quotedChars
  simp only [Cursor.peek_of_rest hc, hc, hnext]
  rfl

/-- What follows a character that stands for itself. -/
theorem Reads.raw (h : Reads double t s n) (hx : isInk x)
    (hq : if double then x ≠ '"' ∧ x ≠ '\\' else x ≠ '\'') :
    Reads double (x :: t) (x :: s) (n + 1) := by
  intro c fuel hc hfuel
  obtain ⟨fuel, rfl⟩ := Nat.exists_eq_succ_of_ne_zero (Nat.ne_zero_of_lt hfuel)
  have hrest : c.next.rest = t := by rw [Cursor.next_rest, hc]; rfl
  have ht : t.length < fuel := by rw [List.length_cons] at hfuel; omega
  have hgap : (x == ' ' || x == '\t' || isLineEnd x) = false := by
    simp only [isInk, isBlank, Bool.and_eq_true, Bool.not_eq_true'] at hx
    simp [hx.1, hx.2]
  unfold quotedChars
  simp only [Cursor.peek_of_rest hc, hc, hgap, h c.next fuel hrest ht]
  cases double with
  | true =>
    simp only [if_true] at hq
    simp only [beq_eq_false_iff_ne.mpr hq.1, beq_eq_false_iff_ne.mpr hq.2]
    rfl
  | false =>
    simp only [Bool.false_eq_true, if_false] at hq
    simp only [beq_eq_false_iff_ne.mpr hq]
    rfl

/-- What follows a quote inside single quotes, which stands twice. -/
theorem Reads.quote (h : Reads false t s n) :
    Reads false ('\'' :: '\'' :: t) ('\'' :: s) (n + 2) := by
  intro c fuel hc hfuel
  obtain ⟨fuel, rfl⟩ := Nat.exists_eq_succ_of_ne_zero (Nat.ne_zero_of_lt hfuel)
  have hrest : (c.forward 2).rest = t := by rw [Cursor.forward_rest, hc]; rfl
  have ht : t.length < fuel := by simp only [List.length_cons] at hfuel; omega
  have hnext : c.peekAt 1 = '\'' := by simp [Cursor.peekAt, hc]
  unfold quotedChars
  simp only [Cursor.peek_of_rest hc, hc, hnext, h (c.forward 2) fuel hrest ht]
  rw [Nat.add_comm n 2, Cursor.forward_add]
  rfl

/-! ## Blanks and line breaks -/

variable (double) in
/-- Blanks inside a line are read at once. -/
theorem quotedChars_blanks {blanks r : List Char} {c : Cursor} (fuel : Nat) (hx : isInk x)
    (hblanks : ∀ y ∈ blanks, isBlank y) (hne : blanks ≠ []) (hc : c.rest = blanks ++ x :: r) :
    quotedChars double (fuel + 1) c =
      (quotedChars double fuel (c.forward blanks.length)).map fun (u, d) => (blanks ++ u, d) := by
  simp only [isInk, Bool.and_eq_true, Bool.not_eq_true'] at hx
  obtain ⟨y, blanks, rfl⟩ := List.exists_cons_of_ne_nil hne
  have hy : (y == ' ' || y == '\t' || isLineEnd y) = true := by
    have := hblanks y List.mem_cons_self
    rw [isBlank] at this
    rw [this, Bool.true_or]
  have htake : c.takeWhile (fun x => x == ' ' || x == '\t') = _ :=
    Cursor.takeWhile_of_rest hc hblanks (by simpa [isBlank] using hx.1)
  have hrest := Cursor.rest_forward hc
  have hbreak : (c.forward (y :: blanks).length).lineBreak = none :=
    Cursor.lineBreak_of_none (by rw [hrest]; simpa using hx.2)
  have hspaces : quotedSpaces (fuel + 1) c = .ok (y :: blanks, c.forward (y :: blanks).length) := by
    simp only [quotedSpaces, htake, hrest, hbreak]
    rfl
  have hne : c.rest.isEmpty = false := by rw [hc]; rfl
  rw [quotedChars]
  simp only [Cursor.peek_of_rest hc, hne, hy, hspaces, Bool.false_eq_true, if_true, if_false]
  show (quotedChars double fuel (c.forward (y :: blanks).length) >>= fun r => _) = _
  cases quotedChars double fuel (c.forward (y :: blanks).length) <;> rfl

/-- A blank is kept unless a line break comes after it. -/
theorem Reads.space (h : Reads double t s n) (ht : calm t) :
    Reads double (' ' :: t) (' ' :: s) (n + 1) := by
  intro c fuel hc hfuel
  obtain ⟨fuel, rfl⟩ := Nat.exists_eq_succ_of_ne_zero (Nat.ne_zero_of_lt hfuel)
  rw [List.length_cons, Nat.succ_lt_succ_iff] at hfuel
  have hrest : c.next.rest = t := by rw [Cursor.next_rest, hc]; rfl
  have hsplit : t.takeWhile isBlank ++ t.dropWhile isBlank = t := List.takeWhile_append_dropWhile
  have hblanks : ∀ y ∈ t.takeWhile isBlank, isBlank y := List.all_eq_true.mp List.all_takeWhile
  cases hdrop : t.dropWhile isBlank with
  | nil => simp [calm, hdrop] at ht
  | cons x r =>
    have hx : isInk x := by
      have hhead := List.head_dropWhile_not isBlank (show t.dropWhile isBlank ≠ [] by simp [hdrop])
      simp only [hdrop, List.head_cons] at hhead
      simpa [calm, hdrop, isInk, hhead] using ht
    generalize t.takeWhile isBlank = blanks at hsplit hblanks
    rw [hdrop] at hsplit
    have hall := quotedChars_blanks double fuel hx
      (fun y hy => (List.mem_cons.mp hy).elim (fun hy => by rw [hy]; rfl) (hblanks y))
      (List.cons_ne_nil ' ' blanks) (by rw [hc, ← hsplit]; rfl)
    show quotedChars double (fuel + 1) c = _
    rw [hall]
    by_cases hne : blanks = []
    · subst hne
      show (quotedChars double fuel c.next).map _ = _
      rw [h c.next fuel hrest hfuel]
      rfl
    · have hlater := quotedChars_blanks double fuel hx hblanks hne
        (hrest.trans hsplit.symm)
      have hread := h c.next (fuel + 1) hrest (Nat.lt_succ_of_lt hfuel)
      rw [hlater] at hread
      show (quotedChars double fuel (c.next.forward blanks.length)).map _ = _
      obtain ⟨⟨u, d⟩, hu, heq⟩ := map_eq_ok.mp hread
      obtain ⟨rfl, rfl⟩ := Prod.mk.inj heq
      rw [hu]
      rfl

/-- A line break as it is read. -/
def readBreak (c : Char) : Char := if c == '\x85' then '\n' else c

/-- The line breaks before an indentation, after one that was read. -/
theorem quotedBreaks_of_rest {brs r : List Char} {k : Nat} (hbrs : ∀ b ∈ brs, isBreak b)
    (hk : 0 < k) (hx : isInk x) : ∀ (fuel : Nat) {c : Cursor}, brs.length < fuel →
    c.rest = brs ++ (List.replicate k ' ' ++ x :: r) →
    quotedBreaks fuel c = .ok (brs.map readBreak, c.forward (brs.length + k)) := by
  simp only [isInk, Bool.and_eq_true, Bool.not_eq_true'] at hx
  intro fuel
  induction fuel generalizing brs with
  | zero => intro c h; omega
  | succ fuel ih =>
    intro c hfuel hc
    cases brs with
    | nil =>
      rw [List.nil_append] at hc
      obtain ⟨k, rfl⟩ := Nat.exists_eq_succ_of_ne_zero (Nat.ne_of_gt hk)
      have hmark : c.atDocumentMark = false :=
        Cursor.atDocumentMark_of_rest hc (by decide) (by decide)
      have hskip : c.skipWhile (fun x => x == ' ' || x == '\t') = c.forward (k + 1) := by
        unfold Cursor.skipWhile
        have hspaces : ∀ y ∈ List.replicate (k + 1) ' ', (y == ' ' || y == '\t') = true :=
          fun y hy => by rw [List.eq_of_mem_replicate hy]; rfl
        rw [Cursor.takeWhile_of_rest hc hspaces (by simpa [isBlank] using hx.1),
          List.length_replicate]
      have hrest : (c.forward (k + 1)).rest = x :: r := by
        have := Cursor.rest_forward hc
        rwa [List.length_replicate] at this
      have hbreak : (c.forward (k + 1)).lineBreak = none :=
        Cursor.lineBreak_of_none (by rw [hrest]; simpa using hx.2)
      simp only [quotedBreaks, hmark, hskip, hbreak, Bool.false_eq_true, if_false]
      rw [List.length_nil, Nat.zero_add]
      rfl
    | cons b brs =>
      have hb := hbrs b List.mem_cons_self
      have hne : b ≠ '-' ∧ b ≠ '.' ∧ b ≠ ' ' ∧ b ≠ '\t' := by
        refine ⟨?_, ?_, ?_, ?_⟩ <;> rintro rfl <;> simp [isBreak] at hb
      have hmark : c.atDocumentMark = false := Cursor.atDocumentMark_of_rest hc hne.1 hne.2.1
      have hskip : c.skipWhile (fun x => x == ' ' || x == '\t') = c := by
        unfold Cursor.skipWhile
        rw [Cursor.takeWhile_of_rest (s := []) hc (by simp) (by simp [hne])]
        rfl
      have hbreak := Cursor.lineBreak_of_rest hc (isDrawn_of_isBreak hb) hb
      have hrest : c.next.rest = brs ++ (List.replicate k ' ' ++ x :: r) := by
        rw [Cursor.next_rest, hc]
        rfl
      rw [List.length_cons] at hfuel
      have hmore := ih (fun b hb => hbrs b (List.mem_cons_of_mem _ hb)) (Nat.lt_of_succ_lt_succ hfuel)
        hrest
      simp only [quotedBreaks, hmark, hskip, hbreak, hmore, Bool.false_eq_true, if_false]
      rw [List.length_cons, Nat.add_right_comm]
      rfl

/-- What line breaks inside quotes are read as. -/
def foldedBreaks : List Char → List Char
  | [] => []
  | b :: brs => folded (readBreak b) (brs.map readBreak)

/-- Line breaks before an indentation. -/
theorem Reads.breaks {brs : List Char} {k : Nat} (h : Reads double (x :: t) s n) (hx : isInk x)
    (hbrs : ∀ b ∈ brs, isBreak b) (hne : brs ≠ []) (hk : 0 < k) :
    Reads double (brs ++ (List.replicate k ' ' ++ x :: t)) (foldedBreaks brs ++ s)
      (brs.length + k + n) := by
  intro c fuel hc hfuel
  obtain ⟨fuel, rfl⟩ := Nat.exists_eq_succ_of_ne_zero (Nat.ne_zero_of_lt hfuel)
  obtain ⟨b, brs, rfl⟩ := List.exists_cons_of_ne_nil hne
  have hb := hbrs b List.mem_cons_self
  have hblank : b ≠ ' ' ∧ b ≠ '\t' := by
    constructor <;> rintro rfl <;> simp [isBreak] at hb
  have hend : (b == ' ' || b == '\t' || isLineEnd b) = true := by
    rw [isLineEnd_eq_isBreak (isDrawn_of_isBreak hb), hb, Bool.or_true]
  have htake : c.takeWhile (fun x => x == ' ' || x == '\t') = ([], c) :=
    Cursor.takeWhile_of_rest (s := []) hc (by simp) (by simp [hblank])
  have hbreak := Cursor.lineBreak_of_rest hc (isDrawn_of_isBreak hb) hb
  have hrest : c.next.rest = brs ++ (List.replicate k ' ' ++ x :: t) := by
    rw [Cursor.next_rest, hc]
    rfl
  have hne' : c.rest.isEmpty = false := by rw [hc]; rfl
  simp only [List.length_cons, List.length_append, List.length_replicate] at hfuel
  have hmore := quotedBreaks_of_rest (fun b hb => hbrs b (List.mem_cons_of_mem _ hb)) hk hx
    (fuel + 1) (by omega) hrest
  have hspaces : quotedSpaces (fuel + 1) c =
      .ok (foldedBreaks (b :: brs), c.next.forward (brs.length + k)) := by
    simp only [quotedSpaces, htake, hne', hbreak, hmore, Bool.false_eq_true, if_false]
    rfl
  have hlast : (c.next.forward (brs.length + k)).rest = x :: t := by
    rw [Cursor.forward_add, Cursor.forward_rest, Cursor.rest_forward hrest, List.drop_left']
    exact List.length_replicate
  rw [quotedChars]
  simp only [Cursor.peek_of_rest hc, hne', hend, hspaces, Bool.false_eq_true, if_true, if_false]
  show (quotedChars double fuel (c.next.forward (brs.length + k)) >>= fun r => _) = _
  rw [h _ fuel hlast (by rw [List.length_cons]; omega), ← Cursor.forward_add]
  show Except.ok (foldedBreaks (b :: brs) ++ s, c.forward (brs.length + k + n + 1)) = _
  rw [List.length_cons]
  congr 3
  omega

/-! ## Escapes -/

/-- An escape in double quotes. -/
theorem Reads.escape {e u : List Char} (h : Reads true t s n)
    (he : ∀ (c : Cursor) (fuel : Nat), c.rest = e ++ t → (e ++ t).length < fuel →
      escaped fuel c = .ok (u, c.forward e.length)) :
    Reads true ('\\' :: (e ++ t)) (u ++ s) (1 + e.length + n) := by
  intro c fuel hc hfuel
  obtain ⟨fuel, rfl⟩ := Nat.exists_eq_succ_of_ne_zero (Nat.ne_zero_of_lt hfuel)
  have hrest : c.next.rest = e ++ t := by rw [Cursor.next_rest, hc]; rfl
  have hne : c.rest.isEmpty = false := by rw [hc]; rfl
  rw [List.length_cons] at hfuel
  rw [quotedChars]
  simp only [Cursor.peek_of_rest hc, hne, he c.next (fuel + 1) hrest (by omega)]
  show (quotedChars true fuel (c.next.forward e.length) >>= fun r => _) = _
  rw [List.length_append] at hfuel
  rw [h _ fuel (Cursor.rest_forward hrest) (by omega), ← Cursor.forward_add]
  show Except.ok (u ++ s, c.forward (e.length + n + 1)) = _
  congr 3
  omega

/-- A line break after a backslash is not read. -/
theorem Reads.fold {k : Nat} (h : Reads true (x :: t) s n) (hx : isInk x) (hk : 0 < k) :
    Reads true ('\\' :: (newLine k ++ x :: t)) s (1 + (newLine k).length + n) := by
  show Reads true _ ([] ++ s) _
  refine h.escape fun c fuel hc hfuel => ?_
  have hbreak := Cursor.lineBreak_of_rest hc (by decide) (by decide)
  have hrest : c.next.rest = [] ++ (List.replicate k ' ' ++ x :: t) := by
    rw [Cursor.next_rest, hc]
    rfl
  have hmore := quotedBreaks_of_rest (by simp) hk hx _ (Nat.lt_of_le_of_lt (Nat.zero_le _) hfuel) hrest
  unfold escaped
  rw [Cursor.peek_of_rest hc]
  simp only [hbreak, hmore]
  rw [newLine, List.length_cons, List.length_replicate, List.length_nil, Nat.zero_add]
  rfl

end Yaml

end GraphPaths
