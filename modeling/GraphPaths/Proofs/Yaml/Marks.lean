import GraphPaths.Proofs.Yaml.Outside
import GraphPaths.Proofs.Yaml.Site

/-!
# Single tokens

What the lexer makes of the characters that come next: the marks of items, keys and values, which may
open a block, empty brackets, anchors, aliases and scalars.
-/

namespace GraphPaths

namespace Yaml

namespace Lexer

variable {c : Cursor} {toks : List Token} {n : Int} {outers : List Int} {allow : Bool}
  {key : Option PossibleKey} {r : List Char}

/-- The start of a block, where a column opens one. -/
def opening (start : Token) (n : Int) (column : Nat) : List Token :=
  if n < column then [start] else []

/-- The blocks around one that a column may open. -/
def opened (n : Int) (column : Nat) (outers : List Int) : List Int :=
  if n < column then n :: outers else outers

theorem dropKey_outside (hkey : Slack key c) : (outside c toks n outers allow key).dropKey =
    .ok (outside c toks n outers allow none) := by
  unfold dropKey
  have : (outside c toks n outers allow key).key.any (·.required) = false := by
    cases key with
    | none => rfl
    | some k => exact (hkey k rfl).1
  rw [this, if_neg Bool.false_ne_true]
  rfl

theorem openBlock_outside (start : Token) (hn : n ≤ c.column) :
    (outside c toks n outers true key).openBlock start =
      .ok (outside c (opening start n c.column ++ toks) c.column (opened n c.column outers) true key) := by
  unfold openBlock opening opened
  by_cases h : n < (c.column : Int)
  · simp only [outside, inFlow, opens, indentTo, push, h]
    rfl
  · obtain rfl : n = c.column := Int.le_antisymm hn (Int.not_lt.mp h)
    simp only [outside, inFlow, opens, h]
    rfl

/-- The characters that begin a token whatever follows them. -/
def isMark (ch : Char) : Bool := "[]\x7b\x7d,*&!'\"".toList.contains ch

/-- What else a token can be. -/
theorem token_of_not_isMark {x : Lexer} {ch : Char} (hpeek : x.cursor.peek = ch)
    (hmark : isMark ch = false) (hpercent : ch ≠ '%')
    (hstart : x.cursor.atMark ['-', '-', '-'] = false) (hend : x.cursor.atMark ['.', '.', '.'] = false)
    (hflow : x.inFlow = false) : x.token =
      if ch == '-' && isGap (x.cursor.peekAt 1) then x.blockEntry
      else if ch == '?' && isGap (x.cursor.peekAt 1) then x.explicitKey
      else if ch == ':' && isGap (x.cursor.peekAt 1) then x.value
      else if ch == '|' || ch == '>' then x.block
      else if x.startsPlain then x.plain
      else .error .malformed := by
  unfold token
  simp only [hpeek, hstart, hend, hflow, Bool.and_false, Bool.false_or, Bool.not_false,
    Bool.and_true]
  split
  all_goals first
    | exact absurd hmark (by decide)
    | rw [beq_eq_false_iff_ne.mpr hpercent, Bool.false_and, if_neg Bool.false_ne_true,
        if_neg Bool.false_ne_true, if_neg Bool.false_ne_true]

theorem atMark_of_second {a b : Char} (hc : c.rest = a :: r) (h : r.head? ≠ some b) :
    c.atMark [a, b, b] = false := by
  cases r with
  | nil => simp [Cursor.atMark, hc]
  | cons x r =>
    have : b ≠ x := by rintro rfl; exact h rfl
    simp [Cursor.atMark, hc, this]

theorem atMark_of_first {a b : Char} (hc : c.rest = a :: r) (h : a ≠ b) :
    c.atMark [b, b, b] = false := by
  simp [Cursor.atMark, hc, h.symm]

theorem isGap_peekAt {a : Char} (hc : c.rest = a :: r) (h : isGap (r.headD '\x00')) :
    isGap (c.peekAt 1) := by
  cases r <;> simpa [Cursor.peekAt, hc] using h

theorem head_ne_of_isGap {b : Char} (h : isGap (r.headD '\x00')) (hb : isGap b = false) :
    r.head? ≠ some b := by
  cases r with
  | nil => simp
  | cons x r =>
    intro heq
    obtain rfl : x = b := by simpa using heq
    exact absurd h (by simp [hb])

variable (toks outers) in
/-- A dash before a gap begins an item. -/
theorem token_blockEntry (hc : c.rest = '-' :: r) (hg : isGap (r.headD '\x00'))
    (hn : n ≤ c.column) (hkey : Slack key c) : (outside c toks n outers true key).token =
      .ok (outside c.next (.blockEntry :: (opening .blockSequenceStart n c.column ++ toks)) c.column
        (opened n c.column outers) true none) := by
  rw [token_of_not_isMark (Cursor.peek_of_rest hc) (by decide) (by decide)
    (atMark_of_second hc (head_ne_of_isGap hg (by decide))) (atMark_of_first hc (by decide)) rfl]
  have hgap := isGap_peekAt (c := (outside c toks n outers true key).cursor) hc hg
  rw [hgap, if_pos (by rfl)]
  unfold blockEntry
  rw [openBlock_outside .blockSequenceStart hn]
  show ((outside _ _ _ _ true key).dropKey >>= _) = _
  rw [dropKey_outside hkey]
  rfl

variable (toks outers) in
/-- A question mark before a gap begins a key. -/
theorem token_explicitKey (hc : c.rest = '?' :: r) (hg : isGap (r.headD '\x00'))
    (hn : n ≤ c.column) (hkey : Slack key c) : (outside c toks n outers true key).token =
      .ok (outside c.next (.key :: (opening .blockMappingStart n c.column ++ toks)) c.column
        (opened n c.column outers) true none) := by
  rw [token_of_not_isMark (Cursor.peek_of_rest hc) (by decide) (by decide)
    (atMark_of_first hc (by decide)) (atMark_of_first hc (by decide)) rfl]
  have hgap := isGap_peekAt (c := (outside c toks n outers true key).cursor) hc hg
  rw [hgap, if_neg (by simp), if_pos (by rfl)]
  unfold explicitKey
  rw [openBlock_outside .blockMappingStart hn]
  show ((outside _ _ _ _ true key).dropKey >>= _) = _
  rw [dropKey_outside hkey]
  rfl

theorem token_colon {x : Lexer} (hx : x.cursor.rest = ':' :: r) (hg : isGap (r.headD '\x00'))
    (hflow : x.inFlow = false) : x.token = x.value := by
  rw [token_of_not_isMark (Cursor.peek_of_rest hx) (by decide) (by decide)
    (atMark_of_first hx (by decide)) (atMark_of_first hx (by decide)) hflow]
  rw [if_neg (by simp), if_neg (by simp), if_pos (by rw [isGap_peekAt hx hg]; rfl)]

variable (toks outers) in
/-- A colon before a gap, in the column of the block, begins the value of a key that was marked. -/
theorem token_value (hc : c.rest = ':' :: r) (hg : isGap (r.headD '\x00')) (hn : n = c.column) :
    (outside c toks n outers true none).token =
      .ok (outside c.next (.value :: toks) n outers true none) := by
  have hopen : (outside c toks n outers true none).openBlock .blockMappingStart = _ :=
    openBlock_outside .blockMappingStart (Int.le_of_eq hn)
  rw [token_colon hc hg rfl]
  unfold value
  show ((outside c toks n outers true none).openBlock .blockMappingStart >>= _) = _
  rw [hopen, opening, opened, if_neg (by omega), if_neg (by omega), ← hn]
  rfl

/-- A colon before a gap makes a key of the scalar before it. -/
theorem token_value_of_key (hc : c.rest = ':' :: r) (hg : isGap (r.headD '\x00')) {k : PossibleKey}
    (hk : k.number = toks.length) (hn : n ≤ k.column) (t : Token) :
    (outside c (t :: toks) n outers false (some k)).token =
      .ok (outside c.next (.value :: t :: .key :: (opening .blockMappingStart n k.column ++ toks))
        k.column (opened n k.column outers) false none) := by
  rw [token_colon hc hg rfl]
  have hone : (t :: toks).length - toks.length = 1 := by rw [List.length_cons]; omega
  have htwo : (t :: toks).length + 1 - toks.length = 2 := by rw [List.length_cons]; omega
  unfold value opening opened
  by_cases h : n < (k.column : Int)
  · simp only [outside, inFlow, opens, indentTo, h, insertAt, hk, hone, htwo]
    rfl
  · obtain rfl : n = k.column := Int.le_antisymm hn (Int.not_lt.mp h)
    simp only [outside, inFlow, opens, h, insertAt, hk, hone]
    rfl

/-- Without a possible key a colon in the line of a scalar is a fault. -/
theorem token_value_of_none (hc : c.rest = ':' :: r) (hg : isGap (r.headD '\x00')) :
    (outside c toks n outers false none).token = .error .malformed := by
  rw [token_colon hc hg rfl]
  rfl

/-! ## Anchors, aliases and scalars -/

/-- The possible key that is remembered in front of a token. -/
def saved (c : Cursor) (count : Nat) (n : Int) (allow : Bool) (key : Option PossibleKey) :
    Option PossibleKey :=
  if allow then some ⟨count, n == c.column, c.index, c.line, c.column⟩ else key

theorem slack_saved (hkey : Slack key c) (hn : n < c.column) (count : Nat) :
    Slack (saved c count n allow key) c := by
  unfold saved
  split
  · intro k hk
    obtain rfl := Option.mem_some.mp hk
    exact ⟨beq_eq_false_iff_ne.mpr (by omega), Nat.le_refl _⟩
  · exact hkey

theorem saveKey_outside (hkey : Slack key c) : (outside c toks n outers allow key).saveKey =
    .ok (outside c toks n outers allow (saved c toks.length n allow key)) := by
  cases allow with
  | false => rfl
  | true =>
    show ((outside c toks n outers true key).dropKey >>= _) = _
    rw [dropKey_outside hkey]
    rfl

theorem keyToken_outside (hkey : Slack key c) {read : Cursor → Except LoadError (Token × Cursor)}
    {t : Token} {d : Cursor} (hread : read c = .ok (t, d)) :
    (outside c toks n outers allow key).keyToken read =
      .ok (outside d (t :: toks) n outers false (saved c toks.length n allow key)) := by
  unfold keyToken
  rw [saveKey_outside hkey]
  show (read c >>= _) = _
  rw [hread]
  rfl

theorem markedName_of_rest {a : Char} {word : List Char} (hc : c.rest = a :: (word ++ r))
    (hne : word ≠ []) (hword : ∀ x ∈ word, isNameChar x) (hr : isGap (r.headD '\x00'))
    (hr' : ∀ x ∈ r.head?, isNameChar x = false) :
    markedName c = .ok (String.ofList word, c.forward (word.length + 1)) := by
  have hrest : c.next.rest = word ++ r := by rw [Cursor.next_rest, hc]; rfl
  have htake := Cursor.takeWhile_of_rest hrest hword hr'
  have hname : name c.next = .ok (String.ofList word, c.next.forward word.length) := by
    unfold name
    rw [htake]
    show (if word.isEmpty then _ else _) = _
    rw [if_neg (by simpa using hne)]
  have hpeek : (c.next.forward word.length).peek = r.headD '\x00' := by
    rw [Cursor.peek, Cursor.rest_forward hrest]
  unfold markedName
  rw [hname]
  show (if !(isGap (c.next.forward word.length).peek || _) then _ else _) = _
  rw [hpeek, hr]
  rfl

variable (toks n outers allow) in
/-- An asterisk and a name are an alias. -/
theorem token_alias {word : List Char} (hc : c.rest = '*' :: (word ++ r)) (hne : word ≠ [])
    (hword : ∀ x ∈ word, isNameChar x) (hr : isGap (r.headD '\x00'))
    (hr' : ∀ x ∈ r.head?, isNameChar x = false) (hkey : Slack key c) :
    (outside c toks n outers allow key).token =
      .ok (outside (c.forward (word.length + 1)) (.alias (String.ofList word) :: toks) n outers false
        (saved c toks.length n allow key)) := by
  have hpeek : (outside c toks n outers allow key).cursor.peek = '*' := Cursor.peek_of_rest hc
  unfold token
  simp only [hpeek]
  exact keyToken_outside hkey (by rw [markedName_of_rest hc hne hword hr hr']; rfl)

variable (toks n outers allow) in
/-- An ampersand and a name are an anchor. -/
theorem token_anchor {word : List Char} (hc : c.rest = '&' :: (word ++ r)) (hne : word ≠ [])
    (hword : ∀ x ∈ word, isNameChar x) (hr : isGap (r.headD '\x00'))
    (hr' : ∀ x ∈ r.head?, isNameChar x = false) (hkey : Slack key c) :
    (outside c toks n outers allow key).token =
      .ok (outside (c.forward (word.length + 1)) (.anchor (String.ofList word) :: toks) n outers false
        (saved c toks.length n allow key)) := by
  have hpeek : (outside c toks n outers allow key).cursor.peek = '&' := Cursor.peek_of_rest hc
  unfold token
  simp only [hpeek]
  exact keyToken_outside hkey (by rw [markedName_of_rest hc hne hword hr hr']; rfl)

/-- A scalar in quotes. -/
theorem token_quoted {t : List Char} {u : String} (ht : Quoted t u) (hc : c.rest = t ++ r)
    (hr : r.head? ≠ some '\'') (hkey : Slack key c) :
    (outside c toks n outers allow key).token =
      .ok (outside (c.forward t.length) (.scalar u false :: toks) n outers false
        (saved c toks.length n allow key)) := by
  have hread : ((quotedScalar c).map fun t : String × Cursor => (Token.scalar t.1 false, t.2)) =
      .ok (.scalar u false, c.forward t.length) := by
    rw [ht.reads c r hc hr]
    rfl
  unfold token
  cases t with
  | nil => simpa using ht.head
  | cons q t =>
    have hpeek : (outside c toks n outers allow key).cursor.peek = q := Cursor.peek_of_rest hc
    rcases ht.head with hq | hq
    · obtain rfl : q = '\'' := by simpa using hq
      simp only [hpeek]
      exact keyToken_outside hkey hread
    · obtain rfl : q = '"' := by simpa using hq
      simp only [hpeek]
      exact keyToken_outside hkey hread

/-! ## Indicators -/

theorem ne_of_isLeadIndicator {x ch : Char} (hx : isLeadIndicator x = false) (hch : isLeadIndicator ch) :
    x ≠ ch := by
  rintro rfl
  rw [hx] at hch
  contradiction

/-- A character with a token of its own cannot lead a plain scalar. -/
theorem isMark_of_isLeadIndicator {x : Char} (hx : isLeadIndicator x = false) : isMark x = false := by
  rw [← Bool.not_eq_true]
  intro hmark
  have hall : ∀ ch ∈ "[]\x7b\x7d,*&!'\"".toList, isLeadIndicator ch :=
    List.all_eq_true.mp (by decide)
  exact ne_of_isLeadIndicator hx (hall x (by simpa [isMark] using hmark)) rfl

/-- A plain scalar starts with no indicator, or with one that is followed by no gap. -/
theorem startsPlain_of_lead {x : Lexer} {ch : Char} (hpeek : x.cursor.peek = ch) (hgap : isGap ch = false)
    (hlead : isLeadIndicator ch = false) (hflow : x.inFlow = false)
    (hnext : ch = '?' ∨ ch = ':' ∨ ch = '-' → isGap (x.cursor.peekAt 1) = false) : x.startsPlain := by
  unfold startsPlain
  simp only [hpeek, hgap, hflow, Bool.false_or]
  by_cases hch : ch = '?' ∨ ch = ':' ∨ ch = '-'
  · simp only [hnext hch]
    rcases hch with rfl | rfl | rfl <;> rfl
  · have hindicators : ∀ d ∈ "-?:,[]\x7b\x7d#&*!|>'\"%@\x60".toList,
        isLeadIndicator d ∨ d = '?' ∨ d = ':' ∨ d = '-' := by
      have hall : "-?:,[]\x7b\x7d#&*!|>'\"%@\x60".toList.all fun d =>
          isLeadIndicator d || d == '?' || d == ':' || d == '-' := by decide
      intro d hd
      simpa [or_assoc] using List.all_eq_true.mp hall d hd
    have hnone : "-?:,[]\x7b\x7d#&*!|>'\"%@\x60".toList.contains ch = false := by
      rw [← Bool.not_eq_true]
      intro hmem
      rcases hindicators ch (by simpa using hmem) with h | h
      · exact ne_of_isLeadIndicator hlead h rfl
      · exact hch h
    rw [hnone]
    rfl

/-! ## Plain scalars -/

/-- What the start of a plain scalar must be so that it is taken for one. -/
structure PlainStart (t : List Char) : Prop where
  head : ∃ x u, t = x :: u ∧ isDrawn x ∧ isGap x = false ∧ isLeadIndicator x = false ∧
    (x = '?' ∨ x = ':' ∨ x = '-' → ∃ y v, u = y :: v ∧ isGap y = false)
  start : ∀ r : List Char, r.head? ≠ some '-' → (['-', '-', '-'].isPrefixOf (t ++ r)) = false
  stop : ∀ r : List Char, r.head? ≠ some '.' → (['.', '.', '.'].isPrefixOf (t ++ r)) = false

/-- A plain text begins with the first of its words, drawn or not. -/
theorem exists_word {indent : Nat} {rs : List (List Char)} {t : List Char}
    (h : PlainText indent rs t) : ∃ w u v, Word w ∧ t = w ++ u ∧ rs.flatten = w ++ v ∧
      (∀ x ∈ u.head?, isGap x) ∧ (∀ x ∈ v.head?, isGap x) ∧ (u = [] → v = []) := by
  cases h with
  | @one _ hw => exact ⟨t, [], [], hw, by simp, by simp, by simp, by simp, by simp⟩
  | @kept w s t rs hw hs hspaces h =>
    have hhead : ∀ x : List Char, ∀ y ∈ (s ++ x).head?, isGap y := by
      intro x y hy
      obtain ⟨z, s, rfl⟩ := List.exists_cons_of_ne_nil hs
      obtain rfl : z = y := by simpa using hy
      rw [hspaces z List.mem_cons_self]
      rfl
    exact ⟨w, s ++ t, s ++ rs.flatten, hw, rfl, by simp, hhead _, hhead _, fun h =>
      absurd (List.append_eq_nil_iff.mp h).1 hs⟩
  | @folded w t rs hw h =>
    exact ⟨w, newLine indent ++ t, ' ' :: rs.flatten, hw, rfl, by simp, by simp [newLine]; decide,
      by simp; decide, by simp [newLine]⟩

/-- Three characters that begin a word followed by others begin the word. -/
theorem isPrefixOf_word {b : Char} {w u v : List Char} (hu : u.head? ≠ some b)
    (h : [b, b, b].isPrefixOf (w ++ u)) : [b, b, b].isPrefixOf (w ++ v) := by
  match w with
  | [] =>
    cases u with
    | nil => simp at h
    | cons x u =>
      have : b ≠ x := by rintro rfl; exact hu rfl
      simp [this] at h
  | [x] =>
    cases u with
    | nil => simp at h
    | cons y u =>
      have : b ≠ y := by rintro rfl; exact hu rfl
      simp [this] at h
  | [x, y] =>
    cases u with
    | nil => simp at h
    | cons z u =>
      have : b ≠ z := by rintro rfl; exact hu rfl
      simp [this] at h
  | x :: y :: z :: w => simpa using h

theorem plainStart_of_plain {indent : Nat} {cs t : List Char} (hne : cs ≠ [])
    (h : (Traits.of cs).plain) (ht : PlainText indent (runs cs) t) : PlainStart t := by
  obtain ⟨w, u, v, hw, rfl, hflat, hu, hv, hend⟩ := exists_word ht
  rw [flatten_runs] at hflat
  obtain ⟨x, w, rfl⟩ := List.exists_cons_of_ne_nil hw.ne
  have hindicator : hasIndicator cs = false := by
    obtain ⟨c, r, rfl⟩ := List.exists_cons_of_ne_nil hne
    simp only [Traits.of, Bool.not_eq_true', Bool.or_eq_false_iff] at h
    exact h.2
  rw [hflat] at hindicator
  simp only [List.cons_append] at hindicator
  unfold hasIndicator at hindicator
  simp only [Bool.or_eq_false_iff] at hindicator
  obtain ⟨⟨⟨⟨hstart, hstop⟩, hlead⟩, hgap⟩, -⟩ := hindicator
  have hprefix : ∀ (b : Char), ([b, b, b].isPrefixOf (x :: (w ++ v))) = false → isGap b = false →
      ∀ r : List Char, r.head? ≠ some b → ([b, b, b].isPrefixOf (x :: w ++ u ++ r)) = false := by
    intro b hb hbgap r hr
    rw [← Bool.not_eq_true]
    intro hcontra
    rw [List.append_assoc] at hcontra
    have hhead : (u ++ r).head? ≠ some b := by
      cases u with
      | nil => exact hr
      | cons y u =>
        intro heq
        obtain rfl : y = b := by simpa using heq
        exact absurd (hu y rfl) (by simp [hbgap])
    have := isPrefixOf_word (v := v) hhead hcontra
    rw [List.cons_append, hb] at this
    contradiction
  refine ⟨⟨x, w ++ u, rfl, hw.drawn x List.mem_cons_self, hw.solid x List.mem_cons_self, hlead, ?_⟩,
    hprefix '-' hstart (by decide), hprefix '.' hstop (by decide)⟩
  intro hx
  have hx' : (x == '?' || x == ':' || x == '-') = true := by
    rcases hx with rfl | rfl | rfl <;> rfl
  rw [hx', Bool.true_and] at hgap
  cases w with
  | nil =>
    cases v with
    | nil => exact absurd hgap (by decide)
    | cons y v => exact absurd (hv y rfl) (by simpa using hgap)
  | cons y w => exact ⟨y, w ++ u, rfl, hw.solid y (List.mem_cons_of_mem _ List.mem_cons_self)⟩

/-- Where a plain scalar can start the lexer takes one. -/
theorem token_eq_plain {t : List Char} (hstart : PlainStart t) (hc : c.rest = t ++ r)
    (hhead : r.head? ≠ some '-' ∧ r.head? ≠ some '.') :
    (outside c toks n outers allow key).token = (outside c toks n outers allow key).plain := by
  obtain ⟨x, u, rfl, hdrawn, hgap, hlead, hcolon⟩ := hstart.head
  have hleads : ∀ ch : Char, isLeadIndicator ch → x ≠ ch := fun ch => ne_of_isLeadIndicator hlead
  have hpeek : (outside c toks n outers allow key).cursor.peek = x := Cursor.peek_of_rest hc
  have hatMark : ∀ mark : List Char, mark.isPrefixOf (x :: u ++ r) = false →
      (outside c toks n outers allow key).cursor.atMark mark = false := by
    intro mark hmark
    show (mark.isPrefixOf c.rest && _) = false
    rw [hc, hmark, Bool.false_and]
  have hnext : x = '?' ∨ x = ':' ∨ x = '-' →
      isGap ((outside c toks n outers allow key).cursor.peekAt 1) = false := by
    intro hx
    obtain ⟨y, v, rfl, hy⟩ := hcolon hx
    show isGap (c.peekAt 1) = false
    simpa [Cursor.peekAt, hc] using hy
  have hfalse : ∀ ch : Char, ch = '?' ∨ ch = ':' ∨ ch = '-' →
      ¬(x == ch && isGap ((outside c toks n outers allow key).cursor.peekAt 1)) = true := by
    intro ch hch h
    simp only [Bool.and_eq_true, beq_iff_eq] at h
    rw [hnext (h.1 ▸ hch)] at h
    exact absurd h.2 (by simp)
  rw [token_of_not_isMark hpeek (isMark_of_isLeadIndicator hlead) (hleads '%' (by decide))
    (hatMark _ (hstart.start r hhead.1)) (hatMark _ (hstart.stop r hhead.2)) rfl,
    if_neg (hfalse '-' (by simp)), if_neg (hfalse '?' (by simp)), if_neg (hfalse ':' (by simp)),
    if_neg (by simpa using ⟨hleads '|' (by decide), hleads '>' (by decide)⟩),
    if_pos (startsPlain_of_lead hpeek hgap hlead rfl hnext)]

variable (toks outers allow) in
/-- A plain scalar. -/
theorem token_plain {indent m : Nat} {rs : List (List Char)} {t : List Char} {ended : Bool}
    (hindent : 0 < indent) (hn : n + 1 ≤ indent) (hcolumn : n ≤ c.column) (hstart : PlainStart t)
    (ht : PlainText indent rs t) (hr : PlainEnd (n + 1) r ended m) (hc : c.rest = t ++ r)
    (hhead : r.head? ≠ some '-' ∧ r.head? ≠ some '.') (hkey : Slack key c) :
    (outside c toks n outers allow key).token =
      .ok (outside (c.forward (t.length + m)) (.scalar (String.ofList rs.flatten) true :: toks) n outers
        ended (saved c toks.length n allow key)) := by
  have hread : plainScalar false (n + 1) c =
      (String.ofList rs.flatten, ended, c.forward (t.length + m)) := by
    unfold plainScalar
    rw [ht.reads hindent hn hr [] false c (c.rest.length + 1) hc (by rw [hc]; omega) (by omega)]
    rfl
  rw [token_eq_plain hstart hc hhead]
  unfold plain
  rw [saveKey_outside hkey]
  show (let p := plainScalar false (n + 1) c
    Except.ok (outside p.2.2 (.scalar p.1 true :: toks) n outers p.2.1
      (saved c toks.length n allow key))) = _
  rw [hread]

/-! ## Empty brackets -/

/-- A lexer inside brackets that were just opened. -/
def inside (c : Cursor) (toks : List Token) (n : Int) (outers : List Int)
    (key : Option PossibleKey) : Lexer :=
  ⟨c, toks, toks.length, n, outers, true, none, [key]⟩

variable (toks n outers) in
/-- The closing bracket right behind an opening one. -/
theorem ready_inside {b : Char} (hb : isDrawn b ∧ isInk b ∧ b ≠ '#') (hc : c.rest = b :: r)
    (hkey : Slack key c) : ∃ key', Slack key' c ∧
      (inside c toks n outers key).ready = .ok (inside c toks n outers key') := by
  obtain ⟨key₁, hfresh₁, hkey₁⟩ := fresh_of_slack hkey
  obtain ⟨key₂, hfresh₂, hkey₂⟩ := fresh_of_slack hkey₁
  have hdrop : ∀ {key key' : Option PossibleKey}, fresh c key = .ok key' →
      (inside c toks n outers key).dropStale = .ok (inside c toks n outers key') := by
    intro key key' h
    show ([key].mapM (fresh c) >>= _) = _
    rw [List.mapM_cons, List.mapM_nil, h]
    rfl
  have hbegins : Begins (b :: r) := fun x hx => by
    obtain rfl : b = x := by simpa using hx
    exact hb
  have hplace : (inside c toks n outers key₁).place = (true, c) := by
    have hbegun : begun c = c := begun_of_rest fun x hx => by
      rw [hc] at hx
      exact (hbegins x hx).1
    unfold place
    show skip true ((begun c).rest.length + 1) true (begun c) = _
    rw [hbegun]
    exact skip_of_rest (k := 0) true _ true hc hbegins
  refine ⟨key₂, hkey₂, ?_⟩
  unfold ready
  rw [hdrop hfresh₁]
  show advance (inside c toks n outers key₁) = _
  rw [advance_eq, hplace]
  show (dropStale (inside c toks n outers key₁)).map _ = _
  rw [hdrop hfresh₂]
  rfl

/-- Two brackets with nothing between them are two tokens. -/
theorem arrives_brackets {a b : Char} {start stop : Token}
    (hab : (a = '[' ∧ b = ']' ∧ start = .flowSequenceStart ∧ stop = .flowSequenceEnd) ∨
      (a = '\x7b' ∧ b = '\x7d' ∧ start = .flowMappingStart ∧ stop = .flowMappingEnd))
    (hc : c.rest = a :: b :: r) (hkey : Slack key c) (hn : n < c.column) {x : Lexer}
    (hx : x.ready = .ok (outside c toks n outers allow key)) :
    ∃ key', Slack key' (c.forward 2) ∧
      Arrives x (outside (c.forward 2) (stop :: start :: toks) n outers false key') := by
  have hdrawn : isDrawn a ∧ isDrawn b ∧ isInk b ∧ b ≠ '#' := by
    rcases hab with ⟨rfl, rfl, -, -⟩ | ⟨rfl, rfl, -, -⟩ <;> decide
  have hnext : c.next.rest = b :: r := by rw [Cursor.next_rest, hc]; rfl
  have hopen : (outside c toks n outers allow key).token =
      .ok (inside c.next (start :: toks) n outers (saved c toks.length n allow key)) := by
    have hbracket : (outside c toks n outers allow key).openBracket start =
        .ok (inside c.next (start :: toks) n outers (saved c toks.length n allow key)) := by
      unfold openBracket
      rw [saveKey_outside hkey]
      rfl
    have hpeek : (outside c toks n outers allow key).cursor.peek = a := Cursor.peek_of_rest hc
    unfold token
    rcases hab with ⟨rfl, rfl, rfl, -⟩ | ⟨rfl, rfl, rfl, -⟩ <;> simp only [hpeek] <;> exact hbracket
  have hsaved : Slack (saved c toks.length n allow key) c.next :=
    (slack_saved hkey hn toks.length).forward (s := [a]) hc (by simpa using hdrawn.1)
  obtain ⟨key', hkey', hready⟩ := ready_inside (start :: toks) n outers hdrawn.2 hnext hsaved
  have hclose : (inside c.next (start :: toks) n outers key').token =
      .ok (outside c.next.next (stop :: start :: toks) n outers false key') := by
    have hpeek : (inside c.next (start :: toks) n outers key').cursor.peek = b :=
      Cursor.peek_of_rest hnext
    unfold token
    rcases hab with ⟨rfl, rfl, -, rfl⟩ | ⟨rfl, rfl, -, rfl⟩ <;> simp only [hpeek] <;> rfl
  refine ⟨key', hkey'.forward (s := [b]) hnext (by simpa using hdrawn.2.1), ?_⟩
  refine Arrives.trans (.of_step ⟨_, hx, ?_, hopen, ?_⟩) (.of_step ⟨_, hready, ?_, hclose, ?_⟩)
  · show c.rest ≠ []
    rw [hc]
    simp
  · show c.next.rest.length < c.rest.length
    rw [hnext, hc]
    simp
  · show c.next.rest ≠ []
    rw [hnext]
    simp
  · show c.next.next.rest.length < c.next.rest.length
    rw [Cursor.next_rest, hnext]
    simp

end Lexer

end Yaml

end GraphPaths
