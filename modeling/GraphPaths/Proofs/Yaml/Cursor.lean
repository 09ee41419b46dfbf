import GraphPaths.Proofs.Text.Character
import GraphPaths.Yaml.Lexer
import GraphPaths.Yaml.Style
import Mathlib.Data.List.Basic

/-!
# Pens and cursors

What a pen adds to a text (`Draws`), and where a cursor is after it. Both know their column by the
characters alone (`columnAfter`), as long as these are such as a pen writes (`isDrawn`), so that a
cursor behind a drawn text is in the column of the pen that drew it.
-/

namespace GraphPaths

namespace Yaml

/-! ## Characters -/

/-- Characters that a pen writes. -/
def isDrawn (c : Char) : Bool := isTextChar c && c != '\t' && c != '\r' && c != '\ufeff'

theorem isDrawn_iff {c : Char} : isDrawn c ↔ c.toNat = 10 ∨ (32 ≤ c.toNat ∧ c.toNat ≤ 126) ∨
    c.toNat = 133 ∨ (160 ≤ c.toNat ∧ c.toNat ≤ 65533 ∧ c.toNat ≠ 65279) ∨ 65536 ≤ c.toNat := by
  simp only [isDrawn, isTextChar, Bool.and_eq_true, Bool.or_eq_true, beq_iff_eq, bne_iff_ne, ne_eq,
    decide_eq_true_eq, Text.charLe_iff, Text.charEq_iff, Char.reduceToNat]
  omega

theorem isBreak_iff {c : Char} :
    isBreak c ↔ c.toNat = 10 ∨ c.toNat = 133 ∨ c.toNat = 8232 ∨ c.toNat = 8233 := by
  simp only [isBreak, Bool.or_eq_true, beq_iff_eq, Text.charEq_iff, Char.reduceToNat]
  omega

theorem isPlainChar_iff {c : Char} : isPlainChar c ↔ c.toNat = 10 ∨
    (32 ≤ c.toNat ∧ c.toNat ≤ 126) ∨ c.toNat = 133 ∨
    (160 ≤ c.toNat ∧ c.toNat ≤ 65533 ∧ c.toNat ≠ 65279) ∨
    (65536 ≤ c.toNat ∧ c.toNat < 1114111) := by
  simp only [isPlainChar, Bool.and_eq_true, Bool.or_eq_true, beq_iff_eq, bne_iff_ne, ne_eq,
    decide_eq_true_eq, Text.charLe_iff, Text.charEq_iff, Char.reduceToNat]
  omega

theorem needsEscape_eq_false_iff {c : Char} : needsEscape c = false ↔
    ((32 ≤ c.toNat ∧ c.toNat ≤ 126 ∧ c.toNat ≠ 34 ∧ c.toNat ≠ 92) ∨
      (160 ≤ c.toNat ∧ c.toNat ≤ 65533 ∧ c.toNat ≠ 8232 ∧ c.toNat ≠ 8233 ∧ c.toNat ≠ 65279)) := by
  simp only [needsEscape, Bool.or_eq_false_iff, beq_eq_false_iff_ne, ne_eq, Bool.not_eq_false',
    Bool.or_eq_true, Bool.and_eq_true, decide_eq_true_eq, Text.charLe_iff, Text.charEq_iff,
    Char.reduceToNat]
  omega

theorem isDrawn_of_isPlainChar {c : Char} (h : isPlainChar c) : isDrawn c := by
  rw [isPlainChar_iff] at h
  rw [isDrawn_iff]
  omega

theorem isDrawn_of_ascii {c : Char} (h : 32 ≤ c.toNat ∧ c.toNat ≤ 126) : isDrawn c := by
  rw [isDrawn_iff]
  omega

theorem isDrawn_of_needsEscape {c : Char} (h : needsEscape c = false) : isDrawn c := by
  rw [needsEscape_eq_false_iff] at h
  rw [isDrawn_iff]
  omega

theorem isDrawn_of_isBreak {c : Char} (h : isBreak c) : isDrawn c := by
  rw [isBreak_iff] at h
  rw [isDrawn_iff]
  omega

theorem isBreak_of_needsEscape {c : Char} (h : needsEscape c = false) : isBreak c = false := by
  rw [needsEscape_eq_false_iff] at h
  rw [← Bool.not_eq_true, isBreak_iff]
  omega

theorem isBreak_of_ascii {c : Char} (h : 32 ≤ c.toNat ∧ c.toNat ≤ 126) : isBreak c = false := by
  rw [← Bool.not_eq_true, isBreak_iff]
  omega

theorem isLineEnd_eq_isBreak {c : Char} (h : isDrawn c) : isLineEnd c = isBreak c := by
  have hc : c ≠ '\r' := by
    rintro rfl
    simp [isDrawn] at h
  simp [isLineEnd, hc]

/-- A drawn character that ends no line and is no space separates nothing. -/
theorem isGap_of_isDrawn {c : Char} (h : isDrawn c) (hb : isBreak c = false) (hs : c ≠ ' ') :
    isGap c = false := by
  have hline := isLineEnd_eq_isBreak h
  rw [isDrawn_iff] at h
  have ht : c ≠ '\t' := by rintro rfl; simp at h
  have hz : c ≠ '\x00' := by rintro rfl; simp at h
  simp [isGap, isLineStop, hline, hb, hs, ht, hz]

/-- The column after some characters. -/
def columnAfter : Nat → List Char → Nat
  | k, [] => k
  | k, c :: cs => columnAfter (if isBreak c then 0 else k + 1) cs

@[simp] theorem columnAfter_nil (k : Nat) : columnAfter k [] = k :=
  rfl

theorem columnAfter_append (k : Nat) (cs ds : List Char) :
    columnAfter k (cs ++ ds) = columnAfter (columnAfter k cs) ds := by
  induction cs generalizing k with
  | nil => rfl
  | cons c cs ih => exact ih _

/-- Characters that end no line take a column each. -/
theorem columnAfter_of_line {cs : List Char} (h : ∀ c ∈ cs, isBreak c = false) (k : Nat) :
    columnAfter k cs = k + cs.length := by
  induction cs generalizing k with
  | nil => rfl
  | cons c cs ih =>
    have hc := h c List.mem_cons_self
    rw [columnAfter, hc, if_neg Bool.false_ne_true, ih fun d hd => h d (List.mem_cons_of_mem c hd),
      List.length_cons]
    omega

/-! ## Cursors -/

namespace Cursor

variable {c : Cursor}

theorem next_rest (c : Cursor) : c.next.rest = c.rest.drop 1 := by
  unfold next
  split
  · next h => rw [h]; rfl
  · next h =>
    rw [h]
    split
    · rfl
    · split <;> rfl

theorem forward_add (c : Cursor) (m n : Nat) : c.forward (m + n) = (c.forward m).forward n := by
  induction m generalizing c with
  | zero => rw [Nat.zero_add]; rfl
  | succ m ih =>
    rw [Nat.add_right_comm]
    exact ih c.next

theorem forward_rest (c : Cursor) (n : Nat) : (c.forward n).rest = c.rest.drop n := by
  induction n generalizing c with
  | zero => rfl
  | succ n ih =>
    show (c.next.forward n).rest = _
    rw [ih, next_rest, List.drop_drop, Nat.add_comm]

/-- What is left behind some characters. -/
theorem rest_forward {cs r : List Char} (h : c.rest = cs ++ r) : (c.forward cs.length).rest = r := by
  rw [forward_rest, h, List.drop_left]

/-- The place behind a drawn character. -/
theorem next_of_drawn {x : Char} {r : List Char} (h : c.rest = x :: r) (hx : isDrawn x) :
    c.next = ⟨r, c.index + 1, if isBreak x then c.line + 1 else c.line,
      if isBreak x then 0 else c.column + 1⟩ := by
  have hr : x ≠ '\r' := by rintro rfl; simp [isDrawn] at hx
  have hm : x ≠ '\ufeff' := by rintro rfl; simp [isDrawn] at hx
  unfold next
  rw [h]
  cases hb : isBreak x <;> simp [hb, hr, hm]

/-- The column behind drawn characters. -/
theorem column_forward {s r : List Char} (h : c.rest = s ++ r) (hd : ∀ x ∈ s, isDrawn x) :
    (c.forward s.length).column = columnAfter c.column s := by
  induction s generalizing c with
  | nil => rfl
  | cons x s ih =>
    have hnext := next_of_drawn h (hd x List.mem_cons_self)
    show (c.next.forward s.length).column = _
    rw [ih (by rw [hnext]; rfl) fun y hy => hd y (List.mem_cons_of_mem x hy), hnext]
    rfl

/-- The line behind drawn characters. -/
theorem line_forward {s r : List Char} (h : c.rest = s ++ r) (hd : ∀ x ∈ s, isDrawn x) :
    (c.forward s.length).line = c.line + s.countP isBreak := by
  induction s generalizing c with
  | nil => rfl
  | cons x s ih =>
    have hnext := next_of_drawn h (hd x List.mem_cons_self)
    show (c.next.forward s.length).line = _
    rw [ih (by rw [hnext]; rfl) fun y hy => hd y (List.mem_cons_of_mem x hy), hnext, List.countP_cons]
    cases isBreak x
    · simp
    · simp
      omega

/-- The index behind drawn characters. -/
theorem index_forward {s r : List Char} (h : c.rest = s ++ r) (hd : ∀ x ∈ s, isDrawn x) :
    (c.forward s.length).index = c.index + s.length := by
  induction s generalizing c with
  | nil => rfl
  | cons x s ih =>
    have hnext := next_of_drawn h (hd x List.mem_cons_self)
    show (c.next.forward s.length).index = _
    rw [ih (by rw [hnext]; rfl) fun y hy => hd y (List.mem_cons_of_mem x hy), hnext, List.length_cons]
    show c.index + 1 + s.length = _
    omega

theorem peek_of_rest {x : Char} {r : List Char} (h : c.rest = x :: r) : c.peek = x := by
  rw [peek, h]
  rfl

/-- The next characters of a class. -/
theorem takeWhile_of_rest {p : Char → Bool} {s r : List Char} (h : c.rest = s ++ r)
    (hp : ∀ x ∈ s, p x) (hr : ∀ x ∈ r.head?, p x = false) :
    c.takeWhile p = (s, c.forward s.length) := by
  have htake : c.rest.takeWhile p = s := by
    rw [h, List.takeWhile_append_of_pos hp]
    cases r with
    | nil => rw [List.takeWhile_nil, List.append_nil]
    | cons x r => rw [List.takeWhile_cons_of_neg (by simp [hr x rfl]), List.append_nil]
  simp only [takeWhile, htake]

/-- A drawn line break that comes next. -/
theorem lineBreak_of_rest {x : Char} {r : List Char} (h : c.rest = x :: r) (hx : isDrawn x)
    (hb : isBreak x) : c.lineBreak = some (if x == '\x85' then '\n' else x, c.next) := by
  have hr : x ≠ '\r' := by rintro rfl; simp [isDrawn] at hx
  rw [isBreak_iff] at hb
  unfold lineBreak
  rw [h]
  split
  · next heq => exact absurd (List.cons.inj heq).1 hr
  · next y _ heq =>
    obtain ⟨rfl, rfl⟩ := List.cons.inj heq
    by_cases hnl : x = '\n'
    · simp [hnl]
    · by_cases hnel : x = '\x85'
      · simp [hnel]
      · have hsep : x = '\u2028' ∨ x = '\u2029' := by
          simp only [Text.charEq_iff, Char.reduceToNat] at hnl hnel ⊢
          omega
        simp [hr, hnl, hnel, hsep]
  · next heq => simp at heq

/-- No line break comes next. -/
theorem lineBreak_of_none (h : ∀ x ∈ c.rest.head?, isLineEnd x = false) : c.lineBreak = none := by
  unfold lineBreak
  split
  · next heq =>
    have := h '\r' (by rw [heq]; rfl)
    simp [isLineEnd] at this
  · next x _ _ heq =>
    have hx := h x (by rw [heq]; rfl)
    simp only [isLineEnd, isBreak, Bool.or_eq_false_iff, beq_eq_false_iff_ne, ne_eq] at hx
    simp [hx]
  · rfl

/-- A line that begins with a blank begins no document. -/
theorem atDocumentMark_of_rest {x : Char} {r : List Char} (h : c.rest = x :: r) (hx : x ≠ '-')
    (hx' : x ≠ '.') : c.atDocumentMark = false := by
  simp [atDocumentMark, atMark, h, hx.symm, hx'.symm]

end Cursor

/-! ## Pens -/

/-- The second pen is the first one after some characters. -/
structure Draws (p : Pen) (cs : List Char) (q : Pen) : Prop where
  written : q.written = p.written ++ String.ofList cs
  column : q.column = columnAfter p.column cs
  drawn : ∀ c ∈ cs, isDrawn c

namespace Draws

theorem refl (p : Pen) : Draws p [] p :=
  ⟨by simp, rfl, by simp⟩

theorem trans {p q r : Pen} {cs ds : List Char} (h : Draws p cs q) (h' : Draws q ds r) :
    Draws p (cs ++ ds) r where
  written := by rw [h'.written, h.written, String.ofList_append, String.append_assoc]
  column := by rw [h'.column, h.column, columnAfter_append]
  drawn c hc := (List.mem_append.mp hc).elim (h.drawn c) (h'.drawn c)

/-- What a pen knows besides text and column does not matter. -/
theorem congr {p q p' q' : Pen} {cs : List Char} (h : Draws p cs q) (hw : p'.written = p.written)
    (hc : p'.column = p.column) (hw' : q'.written = q.written) (hc' : q'.column = q.column) :
    Draws p' cs q' :=
  ⟨by rw [hw', hw, h.written], by rw [hc', hc, h.column], h.drawn⟩

theorem write (p : Pen) {cs : List Char} (h : ∀ c ∈ cs, isDrawn c)
    (hb : ∀ c ∈ cs, isBreak c = false) : Draws p cs (p.write cs) :=
  ⟨rfl, (columnAfter_of_line hb _).symm, h⟩

/-- What is drawn between two pens shows in their texts. -/
theorem unique {p q : Pen} {cs ds : List Char} (h : Draws p cs q) (h' : Draws p ds q) : cs = ds := by
  have := h.written.symm.trans h'.written
  rw [String.append_right_inj] at this
  simpa using congrArg String.toList this

theorem lineBreak (p : Pen) {c : Char} (h : isBreak c) : Draws p [c] (p.lineBreak c) where
  written := by
    show p.written.push c = _
    rw [← String.append_singleton, String.singleton_eq_ofList]
  column := by
    show 0 = columnAfter (if isBreak c then 0 else p.column + 1) []
    rw [if_pos h]
    rfl
  drawn d hd := by
    obtain rfl := List.mem_singleton.mp hd
    exact isDrawn_of_isBreak h

end Draws

/-- The blank in front of a token where one is needed. -/
def lead (p : Pen) : List Char := if p.spaced then [] else [' ']

theorem isBreak_of_mem_lead {p : Pen} {c : Char} (h : c ∈ lead p) : isBreak c = false := by
  unfold lead at h
  split at h
  · contradiction
  · rw [List.mem_singleton.mp h]
    decide

theorem draws_mark (p : Pen) (indicator : String)
    (h : ∀ c ∈ indicator.toList, 32 ≤ c.toNat ∧ c.toNat ≤ 126) (keep : Bool) :
    Draws p (lead p ++ indicator.toList) (p.mark indicator true keep) := by
  have hwrite : ∀ cs : List Char, (∀ c ∈ cs, 32 ≤ c.toNat ∧ c.toNat ≤ 126) →
      Draws p cs (p.write cs) := fun cs hcs =>
    .write p (fun c hc => isDrawn_of_ascii (hcs c hc)) fun c hc => isBreak_of_ascii (hcs c hc)
  unfold lead Pen.mark
  cases p.spaced with
  | true => exact (hwrite _ h).congr rfl rfl rfl rfl
  | false =>
    refine (hwrite (' ' :: indicator.toList) fun c hc => ?_).congr rfl rfl rfl rfl
    rcases List.mem_cons.mp hc with rfl | hc
    · decide
    · exact h c hc

/-- An indicator right behind what was written before. -/
theorem draws_mark_close (p : Pen) (indicator : String)
    (h : ∀ c ∈ indicator.toList, 32 ≤ c.toNat ∧ c.toNat ≤ 126) (keep : Bool) :
    Draws p indicator.toList (p.mark indicator false keep) := by
  unfold Pen.mark
  simp only [Bool.not_false, Bool.or_true, if_true]
  exact (Draws.write p (fun c hc => isDrawn_of_ascii (h c hc))
    fun c hc => isBreak_of_ascii (h c hc)).congr rfl rfl rfl rfl

theorem isAscii_of_all {cs : List Char} (h : cs.all fun c => 32 ≤ c.toNat && c.toNat ≤ 126) :
    ∀ c ∈ cs, 32 ≤ c.toNat ∧ c.toNat ≤ 126 := by
  simpa using h

theorem isDrawn_space : isDrawn ' ' := by decide

theorem isBreak_space : isBreak ' ' = false := by decide

theorem draws_spaces (p : Pen) (n : Nat) :
    Draws p (List.replicate n ' ') (p.write (List.replicate n ' ')) :=
  .write p (fun c hc => by rw [List.eq_of_mem_replicate hc]; exact isDrawn_space)
    fun c hc => by rw [List.eq_of_mem_replicate hc]; exact isBreak_space

/-- A new line up to an indentation. -/
def newLine (n : Nat) : List Char := '\n' :: List.replicate n ' '

theorem isBreak_lineFeed : ∀ b ∈ ['\n'], isBreak b := fun _ hb => List.mem_singleton.mp hb ▸ rfl

/-- An indentation ends in its column. -/
theorem columnAfter_indent {brs : List Char} (hbrs : ∀ b ∈ brs, isBreak b) (hne : brs ≠ [])
    (k n : Nat) : columnAfter k (brs ++ List.replicate n ' ') = n := by
  obtain ⟨front, b, rfl⟩ := (List.eq_nil_or_concat' brs).resolve_left hne
  have hb : isBreak b := hbrs b (by simp)
  rw [List.append_assoc, columnAfter_append, List.cons_append, columnAfter, if_pos hb,
    List.nil_append, columnAfter_of_line (fun c hc => by rw [List.eq_of_mem_replicate hc]; rfl),
    List.length_replicate, Nat.zero_add]

theorem columnAfter_newLine (k n : Nat) : columnAfter k (newLine n) = n :=
  columnAfter_indent isBreak_lineFeed (by simp) k n

/-- A pen that has drawn something in its line goes to a new one. -/
theorem draws_newLine {p : Pen} {n : Nat} (h : p.fresh = false ∨ n < p.column) :
    Draws p (newLine n) (p.indent n) := by
  have hbreak : (!p.fresh || n < p.column || (p.column == n && !p.spaced)) = true := by
    rcases h with h | h <;> simp [h]
  have hline := Draws.lineBreak p (show isBreak '\n' by decide)
  have hspaces := draws_spaces (p.lineBreak '\n') n
  unfold Pen.indent
  rw [hbreak, if_pos rfl]
  show Draws p (['\n'] ++ List.replicate n ' ') (if (p.lineBreak '\n').column < n then _ else _)
  split
  · exact (hline.trans hspaces).congr rfl rfl rfl rfl
  · next hn =>
    obtain rfl : n = 0 := Nat.eq_zero_of_not_pos hn
    exact hline

theorem drawn_newLine (k : Nat) : ∀ x ∈ newLine k, isDrawn x := by
  intro x hx
  rcases List.mem_cons.mp hx with rfl | hx
  · decide
  · rw [List.eq_of_mem_replicate hx]
    exact isDrawn_space

section NewLine

variable {c : Cursor} {r : List Char} {k : Nat}

theorem column_newLine (hc : c.rest = newLine k ++ r) : (c.forward (k + 1)).column = k := by
  have := Cursor.column_forward hc (drawn_newLine k)
  rwa [columnAfter_newLine, newLine, List.length_cons, List.length_replicate] at this

theorem line_newLine (hc : c.rest = newLine k ++ r) : c.line < (c.forward (k + 1)).line := by
  have := Cursor.line_forward hc (drawn_newLine k)
  rw [newLine, List.length_cons, List.length_replicate, List.countP_cons] at this
  rw [this]
  have : isBreak '\n' := by decide
  simp [this]

theorem rest_newLine (hc : c.rest = newLine k ++ r) : (c.forward (k + 1)).rest = r := by
  have := Cursor.rest_forward hc
  rwa [newLine, List.length_cons, List.length_replicate] at this

end NewLine

end Yaml

end GraphPaths
