import GraphPaths.Proofs.Yaml.Single

/-!
# Plain texts read back

A plain text is a row of words with spaces between them (`PlainText`), of which a single one may be
written as a new line. A reader takes it up to its end, where it looks on to the next token if that is
in a later line.
-/

namespace GraphPaths

namespace Yaml

/-- A word of a plain text. -/
structure Word (w : List Char) : Prop where
  ne : w ≠ []
  drawn : ∀ c ∈ w, isDrawn c
  solid : ∀ c ∈ w, isGap c = false
  last : w.getLast? ≠ some ':'
  first : w.head? ≠ some '#'

/-- A plain text, by its runs, as it is drawn with lines folded to an indentation. -/
inductive PlainText (indent : Nat) : List (List Char) → List Char → Prop
  | one {w : List Char} (hw : Word w) : PlainText indent [w] w
  | kept {w s t : List Char} {rs : List (List Char)} (hw : Word w) (hs : s ≠ [])
      (hspaces : ∀ c ∈ s, c = ' ') (h : PlainText indent rs t) :
      PlainText indent (w :: s :: rs) (w ++ (s ++ t))
  | folded {w t : List Char} {rs : List (List Char)} (hw : Word w) (h : PlainText indent rs t) :
      PlainText indent (w :: [' '] :: rs) (w ++ (newLine indent ++ t))

/-- A word takes a column for each character. -/
theorem Word.columnAfter {w : List Char} (hw : Word w) (k : Nat) :
    columnAfter k w = k + w.length := by
  refine columnAfter_of_line (fun c hc => ?_) k
  have := hw.solid c hc
  simp only [isGap, isLineStop, isLineEnd, Bool.or_eq_false_iff] at this
  exact this.2.2.2

/-- A plain text begins with a word. -/
theorem PlainText.head {indent : Nat} {rs : List (List Char)} {t : List Char}
    (h : PlainText indent rs t) : ∃ x u, t = x :: u ∧ isGap x = false ∧ x ≠ '#' := by
  have hword : ∀ {w : List Char} (u : List Char), Word w →
      ∃ x v, w ++ u = x :: v ∧ isGap x = false ∧ x ≠ '#' := by
    intro w u hw
    obtain ⟨x, v, rfl⟩ := List.exists_cons_of_ne_nil hw.ne
    exact ⟨x, v ++ u, rfl, hw.solid x List.mem_cons_self, fun h => hw.first (by rw [h]; rfl)⟩
  cases h with
  | one hw => simpa using hword [] hw
  | kept hw => exact hword _ hw
  | folded hw => exact hword _ hw

/-! ## Words -/

/-- Whether a word ends before a text. -/
def stopsWord : List Char → Bool
  | [] => true
  | x :: r => isGap x || (x == ':' && isGap (r.headD '\x00'))

/-- A word is read up to its end. -/
theorem plainWord_append {w u : List Char} (hsolid : ∀ c ∈ w, isGap c = false)
    (hlast : w.getLast? ≠ some ':') (hu : stopsWord u) : plainWord false (w ++ u) = w := by
  induction w with
  | nil =>
    rw [List.nil_append]
    cases u with
    | nil => rfl
    | cons x r =>
      rw [stopsWord] at hu
      rw [plainWord]
      simp only [Bool.false_and, Bool.or_false, hu, if_true]
  | cons x w ih =>
    have hx := hsolid x List.mem_cons_self
    have hcolon : (x == ':' && isGap ((w ++ u).headD '\x00')) = false := by
      cases w with
      | nil =>
        have : x ≠ ':' := fun h => hlast (by rw [h]; rfl)
        simp [this]
      | cons y w =>
        have := hsolid y (List.mem_cons_of_mem x List.mem_cons_self)
        simp [this]
    have hlater := ih (fun c hc => hsolid c (List.mem_cons_of_mem x hc)) fun h => hlast (by
      cases w with
      | nil => simp at h
      | cons y w => simpa using h)
    rw [List.cons_append, plainWord]
    simp only [hx, hcolon, Bool.false_and, Bool.or_false, Bool.false_eq_true, if_false, hlater]

/-! ## Between words -/

/-- Spaces at the start of a line are passed. -/
theorem plainBreaks_of_rest {r : List Char} (hs : r.head? ≠ some ' ')
    (hr : ∀ x ∈ r.head?, isLineEnd x = false) : ∀ {n fuel : Nat} {c : Cursor}, n < fuel →
    c.rest = List.replicate n ' ' ++ r → plainBreaks fuel c = ([], false, c.forward n)
  | _, 0, _, h, _ => absurd h (Nat.not_lt_zero _)
  | 0, fuel + 1, c, _, hc => by
    rw [List.replicate_zero, List.nil_append] at hc
    have hpeek : (c.peek == ' ') = false := by
      rw [Cursor.peek, hc]
      cases r with
      | nil => rfl
      | cons x r => simpa using hs
    rw [plainBreaks, hpeek, if_neg Bool.false_ne_true, Cursor.lineBreak_of_none (by rwa [hc])]
    rfl
  | n + 1, fuel + 1, c, h, hc => by
    have hnext : c.next.rest = List.replicate n ' ' ++ r := by
      rw [Cursor.next_rest, hc]
      rfl
    rw [plainBreaks, Cursor.peek_of_rest hc]
    exact plainBreaks_of_rest hs hr (Nat.lt_of_succ_lt_succ h) hnext

/-- A new line between words is a space. -/
theorem plainSpaces_newLine {n : Nat} {r : List Char} (hs : r.head? ≠ some ' ')
    (hr : ∀ x ∈ r.head?, isLineEnd x = false) (fuel : Nat) {c : Cursor} (hfuel : n < fuel)
    (hc : c.rest = newLine n ++ r) (hmark : c.next.atDocumentMark = false) :
    plainSpaces fuel c = ([' '], true, c.forward (n + 1)) := by
  have htake : c.takeWhile (· == ' ') = ([], c) :=
    Cursor.takeWhile_of_rest (s := []) hc (by simp) (by simp)
  have hbreak := Cursor.lineBreak_of_rest hc (by decide) (by decide)
  have hrest : c.next.rest = List.replicate n ' ' ++ r := by
    rw [Cursor.next_rest, hc]
    rfl
  simp only [plainSpaces, htake, hbreak, hmark, plainBreaks_of_rest hs hr hfuel hrest]
  rfl

/-- Spaces between words are kept. -/
theorem plainSpaces_spaces {s r : List Char} (hspaces : ∀ c ∈ s, c = ' ')
    (hr : ∀ x ∈ r.head?, isGap x = false) (fuel : Nat) {c : Cursor} (hc : c.rest = s ++ r) :
    plainSpaces fuel c = (s, false, c.forward s.length) := by
  have hgap : ∀ x ∈ r.head?, (x == ' ') = false ∧ isLineEnd x = false := by
    intro x hx
    have := hr x hx
    simp only [isGap, isLineStop, Bool.or_eq_false_iff] at this
    exact ⟨this.1.1, this.2.2⟩
  have htake : c.takeWhile (· == ' ') = (s, c.forward s.length) :=
    Cursor.takeWhile_of_rest hc (fun x hx => by simp [hspaces x hx]) fun x hx => (hgap x hx).1
  have hbreak : (c.forward s.length).lineBreak = none :=
    Cursor.lineBreak_of_none (by rw [Cursor.rest_forward hc]; exact fun x hx => (hgap x hx).2)
  simp only [plainSpaces, htake, hbreak]

/-! ## Texts -/

/-- What comes behind a plain text ends it: the reader looks on by `n` characters, over the end of a
line or not. -/
structure PlainEnd (least : Int) (u : List Char) (ended : Bool) (n : Nat) : Prop where
  stops : stopsWord u
  ends : ∀ (c : Cursor) (fuel : Nat), c.rest = u → u.length < fuel →
    ∃ spaces, plainSpaces fuel c = (spaces, ended, c.forward n) ∧
      (spaces.isEmpty || (c.forward n).peek == '#' || decide ((c.forward n).column < least)) = true

/-- A colon and a gap end a plain text. -/
theorem plainEnd_colon (least : Int) {u : List Char} (hu : isGap (u.headD '\x00')) :
    PlainEnd least (':' :: u) false 0 where
  stops := by rw [stopsWord, hu]; rfl
  ends c fuel hc _ := ⟨[], plainSpaces_spaces (by simp) (by simp; decide) fuel hc, by simp⟩

/-- A new line that is not indented enough ends a plain text. -/
theorem plainEnd_newLine {least : Int} {m : Nat} (hm : (m : Int) < least) {r : List Char}
    (hs : r.head? ≠ some ' ') (hr : ∀ x ∈ r.head?, isLineEnd x = false)
    (hmark : ∀ c : Cursor, c.rest = List.replicate m ' ' ++ r → c.atDocumentMark = false) :
    PlainEnd least (newLine m ++ r) true (m + 1) where
  stops := by simp [newLine, stopsWord, isGap, isLineStop, isLineEnd, isBreak]
  ends c fuel hc hfuel := by
    have hnext : c.next.rest = List.replicate m ' ' ++ r := by
      rw [Cursor.next_rest, hc]
      rfl
    have hlength : m < fuel := by
      simp only [newLine, List.length_append, List.length_cons, List.length_replicate] at hfuel
      omega
    exact ⟨[' '], plainSpaces_newLine hs hr fuel hlength hc (hmark c.next hnext), by
      simp [column_newLine hc, hm]⟩

/-- A word is read, and on from the gap behind it if another word comes there. -/
theorem plainChars_word {w r : List Char} (hw : Word w) (hr : stopsWord r) (least : Int)
    (before : List Char) (b : Bool) {c : Cursor} (fuel : Nat) (hc : c.rest = w ++ r) :
    plainChars false least (fuel + 1) before b c =
      let (spaces, ended, d) := plainSpaces (fuel + 1) (c.forward w.length)
      if spaces.isEmpty || d.peek == '#' || decide ((d.column : Int) < least) then
        (before ++ w, ended, d)
      else
        let (rest, ended, e) := plainChars false least fuel spaces ended d
        (before ++ w ++ rest, ended, e) := by
  have hpeek : (c.peek == '#') = false := by
    obtain ⟨x, v, rfl⟩ := List.exists_cons_of_ne_nil hw.ne
    rw [Cursor.peek_of_rest hc]
    have : x ≠ '#' := fun h => hw.first (by rw [h]; rfl)
    simpa using this
  have hread : plainWord false c.rest = w := by
    rw [hc, plainWord_append hw.solid hw.last hr]
  have hne : w.isEmpty = false := by simpa using hw.ne
  rw [plainChars, hpeek, if_neg Bool.false_ne_true]
  simp only [hread, hne, Bool.false_eq_true, if_false, Bool.not_false, Bool.true_and]

/-- A word is read with the rest of a text behind it, if the gap is read as some spaces and the next
word stands deep enough. -/
theorem plainChars_more {w r s v : List Char} (hw : Word w) (hr : stopsWord r) (least : Int)
    (before : List Char) (b : Bool) {c d : Cursor} {fuel : Nat} {ended : Bool} {x : Char}
    (hc : c.rest = w ++ r) (hread : plainSpaces (fuel + 1) (c.forward w.length) = (s, ended, d))
    (hs : s ≠ []) (hd : d.rest = x :: v) (hx : x ≠ '#') (hdeep : least ≤ d.column) :
    plainChars false least (fuel + 1) before b c =
      let (rest, ended, e) := plainChars false least fuel s ended d
      (before ++ w ++ rest, ended, e) := by
  have hne : s.isEmpty = false := by simpa using hs
  have hpeek : (d.peek == '#') = false := by
    rw [Cursor.peek_of_rest hd]
    simpa using hx
  have hdeep : ¬(d.column : Int) < least := by omega
  rw [plainChars_word hw hr least before b fuel hc, hread]
  simp only [hne, hpeek, hdeep, decide_false, Bool.or_self, Bool.false_eq_true, if_false]

/-- From the drawing `t` of some runs a reader takes their characters, and looks on by `n` characters over
what comes behind. -/
def ReadsPlain (least : Int) (u : List Char) (ended : Bool) (n : Nat) (rs : List (List Char))
    (t : List Char) : Prop :=
  ∀ (before : List Char) (b : Bool) (c : Cursor) (fuel : Nat), c.rest = t ++ u →
    (t ++ u).length < fuel → least ≤ c.column + 1 → plainChars false least fuel before b c =
      (before ++ rs.flatten, ended, c.forward (t.length + n))

section Texts

variable {indent n : Nat} {least : Int} {u w t : List Char} {ended : Bool} {rs : List (List Char)}

theorem readsPlain_one (hu : PlainEnd least u ended n) (hw : Word w) :
    ReadsPlain least u ended n [w] w := by
  intro before b c fuel hc hfuel _
  obtain ⟨fuel, rfl⟩ := Nat.exists_eq_succ_of_ne_zero (Nat.ne_zero_of_lt hfuel)
  obtain ⟨spaces, hspaces, hend⟩ := hu.ends (c.forward w.length) (fuel + 1)
    (Cursor.rest_forward hc) (by rw [List.length_append] at hfuel; omega)
  show plainChars _ _ (fuel + 1) _ _ _ = _
  rw [plainChars_word hw hu.stops least before b fuel hc]
  simp only [hspaces, hend, if_true]
  rw [← Cursor.forward_add, List.flatten_singleton]

/-- Spaces between words are kept. -/
theorem readsPlain_kept {s : List Char} (hw : Word w) (hs : s ≠ []) (hspaces : ∀ c ∈ s, c = ' ')
    (h : PlainText indent rs t) (ih : ReadsPlain least u ended n rs t) :
    ReadsPlain least u ended n (w :: s :: rs) (w ++ (s ++ t)) := by
  intro before b c fuel hc hfuel hcolumn
  obtain ⟨fuel, rfl⟩ := Nat.exists_eq_succ_of_ne_zero (Nat.ne_zero_of_lt hfuel)
  obtain ⟨x, v, hx, hgap, hsharp⟩ := h.head
  have hc' : c.rest = w ++ (s ++ (t ++ u)) := by simpa using hc
  have hfirst : (c.forward w.length).rest = s ++ (t ++ u) := Cursor.rest_forward hc'
  have hnext := Cursor.rest_forward hfirst
  have hstops : stopsWord (s ++ (t ++ u)) := by
    obtain ⟨y, s, rfl⟩ := List.exists_cons_of_ne_nil hs
    rw [hspaces y List.mem_cons_self]
    rfl
  have hread := plainSpaces_spaces hspaces (by simpa [hx] using hgap) (fuel + 1) hfirst
  have hat : ((c.forward w.length).forward s.length).column = c.column + w.length + s.length := by
    rw [Cursor.column_forward hfirst fun y hy => by rw [hspaces y hy]; exact isDrawn_space,
      Cursor.column_forward hc' hw.drawn, hw.columnAfter,
      columnAfter_of_line fun y hy => by rw [hspaces y hy]; exact isBreak_space]
  have hlength : 0 < w.length := List.length_pos_iff.mpr hw.ne
  simp only [List.length_append] at hfuel
  have hrest := ih s false ((c.forward w.length).forward s.length) fuel hnext
    (by rw [List.length_append]; omega) (by omega)
  have hmore := plainChars_more hw hstops least before b hc' hread hs (by rw [hnext, hx]; rfl) hsharp
    (by omega)
  show plainChars _ _ (fuel + 1) _ _ _ = _
  rw [hmore, hrest]
  simp only [← Cursor.forward_add, List.flatten_cons, List.length_append, List.append_assoc,
    Nat.add_assoc]

/-- A new line in the indentation of the text is read as a space. -/
theorem readsPlain_folded (hindent : 0 < indent) (hleast : least ≤ (indent : Int)) (hw : Word w)
    (h : PlainText indent rs t) (ih : ReadsPlain least u ended n rs t) :
    ReadsPlain least u ended n (w :: [' '] :: rs) (w ++ (newLine indent ++ t)) := by
  intro before b c fuel hc hfuel hcolumn
  obtain ⟨fuel, rfl⟩ := Nat.exists_eq_succ_of_ne_zero (Nat.ne_zero_of_lt hfuel)
  obtain ⟨x, v, hx, hgap, hsharp⟩ := h.head
  have hc' : c.rest = w ++ (newLine indent ++ (t ++ u)) := by simpa using hc
  have hfirst : (c.forward w.length).rest = newLine indent ++ (t ++ u) := Cursor.rest_forward hc'
  have hnext := rest_newLine hfirst
  have hend : (newLine indent).length = indent + 1 := by simp [newLine]
  simp only [List.length_append, hend] at hfuel
  have hsolid : (t ++ u).head? ≠ some ' ' ∧ ∀ x ∈ (t ++ u).head?, isLineEnd x = false := by
    simp only [isGap, isLineStop, Bool.or_eq_false_iff, beq_eq_false_iff_ne] at hgap
    simp [hx, hgap]
  have hmark : (c.forward w.length).next.atDocumentMark = false := by
    obtain ⟨indent, rfl⟩ := Nat.exists_eq_succ_of_ne_zero (Nat.ne_of_gt hindent)
    have : (c.forward w.length).next.rest = ' ' :: (List.replicate indent ' ' ++ (t ++ u)) := by
      rw [Cursor.next_rest, hfirst]
      rfl
    exact Cursor.atDocumentMark_of_rest this (by decide) (by decide)
  have hread := plainSpaces_newLine hsolid.1 hsolid.2 (fuel + 1) (by omega) hfirst hmark
  have hat := column_newLine hfirst
  have hrest := ih [' '] true ((c.forward w.length).forward (indent + 1)) fuel hnext
    (by rw [List.length_append]; omega) (by omega)
  have hmore := plainChars_more hw (by rfl) least before b hc' hread (by simp)
    (by rw [hnext, hx]; rfl) hsharp (by omega)
  show plainChars _ _ (fuel + 1) _ _ _ = _
  rw [hmore, hrest]
  simp only [← Cursor.forward_add, List.flatten_cons, List.length_append, List.append_assoc,
    Nat.add_assoc, hend]

/-- A plain text is read up to its end. -/
theorem PlainText.reads (hindent : 0 < indent) (hleast : least ≤ (indent : Int))
    (hu : PlainEnd least u ended n) (h : PlainText indent rs t) : ReadsPlain least u ended n rs t := by
  induction h with
  | one hw => exact readsPlain_one hu hw
  | kept hw hs hspaces h ih => exact readsPlain_kept hw hs hspaces h ih
  | folded hw h ih => exact readsPlain_folded hindent hleast hw h ih

end Texts

/-! ## Writing -/

/-- Words with runs of spaces between them. -/
inductive Row : List (List Char) → Prop
  | one {w : List Char} (hw : Word w) : Row [w]
  | more {w s : List Char} {rs : List (List Char)} (hw : Word w) (hs : s ≠ [])
      (hspaces : ∀ c ∈ s, c = ' ') (h : Row rs) : Row (w :: s :: rs)

/-- What an indicator in a text depends on behind its first characters. -/
theorem hasIndicatorAfter_append {u : List Char} : ∀ {w : List Char} {b x : Char},
    hasIndicatorAfter b (w ++ u) = false → w.getLast? = some x →
    (x = ':' → ∃ y, u.head? = some y ∧ isGap y = false) ∧ hasIndicatorAfter x u = false
  | [], _, _, _, hx => by simp at hx
  | [a], b, x, h, hx => by
    obtain rfl : a = x := by simpa using hx
    rw [List.singleton_append] at h
    unfold hasIndicatorAfter at h
    simp only [Bool.or_eq_false_iff, Bool.and_eq_false_iff] at h
    refine ⟨fun hcolon => ?_, h.2⟩
    subst hcolon
    cases u with
    | nil => simp at h
    | cons y u => exact ⟨y, rfl, by simpa using h.1.1⟩
  | a :: a' :: w, b, x, h, hx => by
    rw [List.cons_append] at h
    unfold hasIndicatorAfter at h
    simp only [Bool.or_eq_false_iff] at h
    exact hasIndicatorAfter_append (w := a' :: w) h.2 (by simpa using hx)

/-- Characters without gaps or a colon before one are a word. -/
theorem word_of_plain {w u : List Char} {b : Char} (hne : w ≠ [])
    (hplain : ∀ c ∈ w, isPlainChar c ∧ isBreak c = false) (hspace : ∀ c ∈ w, c ≠ ' ')
    (hfirst : w.head? ≠ some '#') (hindicator : hasIndicatorAfter b (w ++ u) = false)
    (hu : ∀ y ∈ u.head?, isGap y) : Word w where
  ne := hne
  drawn c hc := isDrawn_of_isPlainChar (hplain c hc).1
  solid c hc :=
    isGap_of_isDrawn (isDrawn_of_isPlainChar (hplain c hc).1) (hplain c hc).2 (hspace c hc)
  last hlast := by
    obtain ⟨y, hy, hgap⟩ := (hasIndicatorAfter_append hindicator hlast).1 rfl
    rw [hu y hy] at hgap
    contradiction
  first := hfirst

/-- Behind a run of other characters comes one of spaces, if there are no line breaks. -/
theorem spaces_of_next {k : RunKind} {s : List Char} (hnext : ∀ c ∈ s.head?, runKind c ≠ .other)
    (hs : s ≠ []) (hrun : ∀ c ∈ s, runKind c = k)
    (hbreak : ∀ c ∈ s, isBreak c = false) : ∀ c ∈ s, c = ' ' := by
  obtain ⟨y, s, rfl⟩ := List.exists_cons_of_ne_nil hs
  have hk : k = .spaces := by
    rw [← hrun y List.mem_cons_self]
    cases hy : runKind y with
    | spaces => rfl
    | breaks =>
      have := hbreak y List.mem_cons_self
      rw [runKind_breaks.mp hy] at this
      contradiction
    | other => exact absurd hy (hnext y rfl)
  exact fun c hc => runKind_spaces.mp ((hrun c hc).trans hk)

/-- A text that can be written plain is a row of words. -/
theorem row_of_plain : ∀ {rs : List (List Char)} {b : Char}, Alternating rs → rs ≠ [] →
    (∀ c ∈ rs.flatten, isPlainChar c ∧ isBreak c = false) → rs.flatten.head? ≠ some ' ' →
    rs.flatten.head? ≠ some '#' → rs.flatten.getLast? ≠ some ' ' →
    hasIndicatorAfter b rs.flatten = false → Row rs
  | [], _, _, hne, _, _, _, _, _ => absurd rfl hne
  | w :: rest, b, h, _, hplain, hspace, hsharp, hlast, hindicator => by
    obtain ⟨k, hne, hrun, hnext, hrest⟩ : ∃ k, w ≠ [] ∧ (∀ c ∈ w, runKind c = k) ∧
        (∀ c ∈ rest.flatten.head?, runKind c ≠ k) ∧ Alternating rest := by
      cases h with
      | cons k hne hrun hnext hrest => exact ⟨k, hne, hrun, hnext, hrest⟩
    rw [List.flatten_cons] at hplain hindicator hlast hspace hsharp
    have hplainWord := fun c hc => hplain c (List.mem_append_left rest.flatten hc)
    obtain ⟨x, v, rfl⟩ := List.exists_cons_of_ne_nil hne
    -- the first run is no run of spaces, and no run is one of line breaks
    have hx : x ≠ ' ' := by simpa using hspace
    obtain rfl : k = .other := by
      rw [← hrun x List.mem_cons_self]
      exact runKind_other.mpr ⟨hx, (hplainWord x List.mem_cons_self).2⟩
    have hsolid : ∀ c ∈ x :: v, c ≠ ' ' := fun c hc => (runKind_other.mp (hrun c hc)).1
    have hfirst : (x :: v).head? ≠ some '#' := by simpa using hsharp
    match rest, hrest with
    | [], _ => exact .one (word_of_plain hne hplainWord hsolid hfirst hindicator (by simp))
    | s :: rest', .cons k' hne' hrun' hnext' hrest' =>
      rw [List.flatten_cons, List.head?_append_of_ne_nil _ hne'] at hnext
      have hspaces : ∀ c ∈ s, c = ' ' := spaces_of_next hnext hne' hrun' fun c hc =>
        (hplain c (List.mem_append_right _ (by rw [List.flatten_cons]; exact List.mem_append_left _ hc))).2
      rw [List.flatten_cons] at hplain hindicator hlast
      have hword := word_of_plain hne hplainWord hsolid hfirst hindicator fun y hy => by
        obtain ⟨z, s, rfl⟩ := List.exists_cons_of_ne_nil hne'
        obtain rfl : z = y := by simpa using hy
        rw [hspaces z List.mem_cons_self]
        rfl
      obtain ⟨last, hmem, hgetLast⟩ : ∃ last ∈ s, (x :: v ++ s).getLast? = some last :=
        ⟨s.getLast hne', List.getLast_mem hne', by
          rw [List.getLast?_append_of_ne_nil _ hne', List.getLast?_eq_some_getLast hne']⟩
      rw [hspaces last hmem] at hgetLast
      have hne'' : rest'.flatten ≠ [] := by
        intro hnil
        rw [hnil, List.append_nil] at hlast
        exact hlast hgetLast
      rw [← List.append_assoc] at hindicator hlast
      have hlater := (hasIndicatorAfter_append hindicator hgetLast).2
      refine .more hword hne' hspaces (row_of_plain hrest' (fun h => hne'' (by rw [h]; rfl))
        (fun c hc => hplain c (List.mem_append_right _ (List.mem_append_right _ hc)))
        (fun h => hnext' ' ' h ?_) (fun h => ?_)
        (by rwa [List.getLast?_append_of_ne_nil _ hne''] at hlast) hlater)
      · obtain ⟨z, s, rfl⟩ := List.exists_cons_of_ne_nil hne'
        rw [← hrun' z List.mem_cons_self, hspaces z List.mem_cons_self]
      · obtain ⟨u, hu⟩ := List.head?_eq_some_iff.mp h
        rw [hu] at hlater
        unfold hasIndicatorAfter at hlater
        simp [isGap] at hlater

/-- What is drawn for a row of words. -/
theorem writePlainRuns_draws (indent : Nat) (split : Bool) {rs : List (List Char)} (h : Row rs) :
    ∀ (p : Pen), p.fresh = false → ∃ t, Draws p t (writePlainRuns p indent split rs) ∧
      PlainText indent rs t ∧ (split = false → t = rs.flatten) := by
  have hword : ∀ {w : List Char} (p : Pen), Word w → Draws p w (p.write w) := fun p hw =>
    .write p hw.drawn fun c hc => by
      have := hw.solid c hc
      simp only [isGap, isLineStop, isLineEnd, Bool.or_eq_false_iff] at this
      exact this.2.2.2
  have hsolid : ∀ {w : List Char}, Word w → (w == [' ']) = false := by
    intro w hw
    rw [beq_eq_false_iff_ne]
    rintro rfl
    exact Bool.false_ne_true (hw.solid ' ' List.mem_cons_self).symm
  induction h with
  | @one w hw =>
    intro p hp
    refine ⟨w, ?_, .one hw, fun _ => by rw [List.flatten_singleton]⟩
    simp only [writePlainRuns, hsolid hw, Bool.false_and, Bool.false_eq_true, if_false]
    exact hword p hw
  | @more w s rs hw hs hspaces h ih =>
    intro p hp
    simp only [writePlainRuns, hsolid hw, Bool.false_and, Bool.false_eq_true, if_false]
    split
    · next hcond =>
      simp only [Bool.and_eq_true, beq_iff_eq] at hcond
      obtain ⟨⟨rfl, -⟩, rfl⟩ := hcond
      have hline : Draws (p.write w) (newLine indent) ((p.write w).indent indent).settle :=
        (draws_newLine (p := p.write w) (.inl hp)).congr rfl rfl rfl rfl
      obtain ⟨t, hdraw, htext, -⟩ := ih ((p.write w).indent indent).settle rfl
      exact ⟨w ++ (newLine indent ++ t),
        (hword p hw).trans (hline.trans hdraw), .folded hw htext,
        fun h => absurd h (by simp)⟩
    · obtain ⟨t, hdraw, htext, hflat⟩ := ih ((p.write w).write s) hp
      have hdrawSpaces : Draws (p.write w) s ((p.write w).write s) :=
        .write _ (fun c hc => by rw [hspaces c hc]; exact isDrawn_space)
          fun c hc => by rw [hspaces c hc]; exact isBreak_space
      exact ⟨w ++ (s ++ t), (hword p hw).trans (hdrawSpaces.trans hdraw), .kept hw hs hspaces htext,
        fun h => by rw [hflat h]; rfl⟩

end Yaml

end GraphPaths
