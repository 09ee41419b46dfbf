import GraphPaths.Proofs.Lookup
import GraphPaths.Proofs.Text.Digits
import GraphPaths.Proofs.Yaml.Quoted

/-!
# Double-quoted texts read back

A text in double quotes is read as it was, except where a line is folded behind an escape and the
indentation alone passes the width: then the space after that escape is folded away a second time, and
what is read has a backslash and a blank more (`doubleRead`).
-/

namespace GraphPaths

namespace Yaml

/-! ## Escapes -/

theorem escaped_letter {p : Char × Char} (hp : p ∈ escapeLetters) (fuel : Nat) {c : Cursor}
    {t : List Char} (hc : c.rest = p.2 :: t) : escaped fuel c = .ok ([p.1], c.forward 1) := by
  have hlookup : ∀ p ∈ escapeLetters, escapes.lookup p.2 = some p.1 := by decide
  unfold escaped
  rw [Cursor.peek_of_rest hc, hlookup p hp, hc]
  rfl

theorem escaped_hex {letter : Char} {width : Nat} (hl : escapes.lookup letter = none)
    (hw : escapeWidth letter = some width) {x : Char} (hx : x.toNat < 16 ^ width) (fuel : Nat)
    {c : Cursor} {t : List Char} (hc : c.rest = letter :: Text.hexPadded true width x.toNat ++ t) :
    escaped fuel c = .ok ([x], c.forward (1 + width)) := by
  have hlength := Text.length_hexPadded true width x.toNat
  have hdigits : c.next.rest.take width = Text.hexPadded true width x.toNat := by
    rw [Cursor.next_rest, hc]
    show (Text.hexPadded true width x.toNat ++ t).take width = _
    rw [List.take_append_of_le_length (Nat.le_of_eq hlength.symm), List.take_of_length_le]
    exact Nat.le_of_eq hlength
  have hnumber : hexNumber (Text.hexPadded true width x.toNat) = some x.toNat := by
    unfold hexNumber
    rw [Text.foldlM_hexPadded, Nat.mod_eq_of_lt hx, Nat.zero_mul, Nat.zero_add]
  have hvalid : ¬(0x10FFFF < x.toNat) ∧ ¬(0xD800 ≤ x.toNat ∧ x.toNat < 0xE000) := by
    have := x.valid
    simp only [UInt32.isValidChar, Nat.isValidChar] at this
    have : x.val.toNat = x.toNat := rfl
    omega
  have hchar : charOf x.toNat = .ok x := by
    unfold charOf
    rw [if_neg hvalid.1, if_neg (by simpa using hvalid.2), Char.ofNat_toNat]
  have hhigh : (0xD800 ≤ x.toNat && x.toNat < 0xDC00) = false := by
    rw [← Bool.not_eq_true, Bool.and_eq_true, decide_eq_true_eq, decide_eq_true_eq]
    omega
  unfold escaped
  rw [Cursor.peek_of_rest hc, hl, hw]
  simp only [hdigits, hnumber, hlength, Nat.lt_irrefl, hhigh, hchar, if_false, Bool.false_eq_true]
  rw [Cursor.forward_add]
  rfl

/-- An escape is read as its character. -/
theorem escape_eq (x : Char) : ∃ e, escape x = '\\' :: e ∧
    ∀ (t : List Char) (c : Cursor) (fuel : Nat), c.rest = e ++ t →
      escaped fuel c = .ok ([x], c.forward e.length) := by
  unfold escape
  cases hl : escapeLetters.lookup x with
  | some l =>
    have hmem := mem_of_lookup hl
    exact ⟨[l], rfl, fun t c fuel hc => escaped_letter hmem fuel hc⟩
  | none =>
    have hex : ∀ (letter : Char) (width : Nat), escapes.lookup letter = none →
        escapeWidth letter = some width → x.toNat < 16 ^ width →
        ∃ e, '\\' :: letter :: Text.hexPadded true width x.toNat = '\\' :: e ∧
          ∀ (t : List Char) (c : Cursor) (fuel : Nat), c.rest = e ++ t →
            escaped fuel c = .ok ([x], c.forward e.length) := by
      intro letter width hl hw hx
      refine ⟨_, rfl, fun t c fuel hc => ?_⟩
      rw [escaped_hex hl hw hx fuel hc, List.length_cons, Text.length_hexPadded, Nat.add_comm]
    have hmax : x.toNat < 16 ^ 8 := by
      have := x.val.toNat_lt
      have : x.val.toNat = x.toNat := rfl
      omega
    simp only
    split
    · next h => exact hex 'x' 2 (by decide) rfl (by omega)
    · split
      · next h => exact hex 'u' 4 (by decide) rfl (by omega)
      · exact hex 'U' 8 (by decide) rfl hmax

theorem isAscii_escape {x c : Char} (h : c ∈ escape x) : 32 ≤ c.toNat ∧ c.toNat ≤ 126 := by
  have hex : ∀ (letter : Char) (width : Nat), (32 ≤ letter.toNat ∧ letter.toNat ≤ 126) →
      c ∈ '\\' :: letter :: Text.hexPadded true width x.toNat → 32 ≤ c.toNat ∧ c.toNat ≤ 126 := by
    intro letter width hl h
    rcases List.mem_cons.mp h with rfl | h
    · decide
    · rcases List.mem_cons.mp h with rfl | h
      · exact hl
      · exact Text.isAscii_hexPadded h
  unfold escape at h
  split at h
  · next l hl =>
    have hall : ∀ p ∈ escapeLetters, 32 ≤ p.2.toNat ∧ p.2.toNat ≤ 126 := by decide
    rcases List.mem_cons.mp h with rfl | h
    · decide
    · obtain rfl := List.mem_singleton.mp h
      exact hall _ (mem_of_lookup hl)
  · split at h
    · exact hex 'x' 2 (by decide) h
    · split at h
      · exact hex 'u' 4 (by decide) h
      · exact hex 'U' 8 (by decide) h

/-! ## Texts -/

/-- What is read for a text in double quotes; `wide` says that the indentation alone passes the width
and lines are folded. -/
def doubleRead (wide : Bool) : Bool → List Char → List Char
  | _, [] => []
  | first, c :: r =>
    let rest := doubleRead wide false r
    c :: if wide && !first && needsEscape c && r.head? == some ' ' && 1 < r.length
      then '\\' :: ' ' :: rest else rest

/-- The characters `t`, drawn for the characters `cs`, are read as `s`. -/
structure DoubleText (cs s t : List Char) : Prop where
  reads : ∀ r, Reads true (t ++ '"' :: r) s (t.length + 1)
  calm : ∀ r, calm (t ++ '"' :: r)
  ink : cs.head? ≠ some ' ' → ∀ r, ∃ x u, t ++ '"' :: r = x :: u ∧ isInk x

namespace DoubleText

variable {cs ds s t : List Char}

theorem nil : DoubleText [] [] [] :=
  ⟨fun r => reads_doubleEnd r, fun _ => calm_cons (by decide), fun _ r => ⟨'"', r, rfl, by decide⟩⟩

/-- A character that needs no escape stands for itself. -/
theorem cons {c : Char} (h : DoubleText cs s t) (hc : needsEscape c = false) :
    DoubleText (c :: cs) (c :: s) (c :: t) := by
  have hb := isBreak_of_needsEscape hc
  have hd := isDrawn_of_needsEscape hc
  by_cases hs : c = ' '
  · subst hs
    exact ⟨fun r => (h.reads r).space (h.calm r), fun r => calm_space (h.calm r),
      fun hne => absurd rfl hne⟩
  · have hink : isInk c := by
      have hgap := isGap_of_isDrawn hd hb hs
      simp only [isGap, isLineStop, Bool.or_eq_false_iff] at hgap
      simp [isInk, isBlank, hgap]
    rw [needsEscape_eq_false_iff] at hc
    have hq : c ≠ '"' ∧ c ≠ '\\' := by constructor <;> rintro rfl <;> simp at hc
    exact ⟨fun r => (h.reads r).raw hink hq, fun r => calm_cons hink,
      fun _ r => ⟨c, t ++ '"' :: r, rfl, hink⟩⟩

/-- A backslash begins the text. -/
theorem ofBackslash {u : List Char} (h : ∀ r, Reads true ('\\' :: u ++ '"' :: r) s (u.length + 2)) :
    DoubleText cs s ('\\' :: u) :=
  ⟨h, fun r => calm_cons (by decide), fun _ r => ⟨'\\', u ++ '"' :: r, rfl, by decide⟩⟩

/-- An escaped character. -/
theorem escape (c : Char) (h : DoubleText cs s t) :
    DoubleText (c :: cs) (c :: s) (Yaml.escape c ++ t) := by
  obtain ⟨e, he, hread⟩ := escape_eq c
  rw [he, List.cons_append]
  refine ofBackslash fun r => ?_
  have := (h.reads r).escape (e := e) fun c fuel hc _ => hread _ c fuel hc
  exact this.congr (by simp) rfl (by simp; omega)

/-- A space after a backslash. -/
theorem escapedSpace (ds : List Char) (h : DoubleText cs s t) :
    DoubleText ds (' ' :: s) ('\\' :: ' ' :: t) := by
  refine ofBackslash fun r => ?_
  have := (h.reads r).escape (e := [' ']) (u := [' ']) fun c fuel hc _ => by
    unfold escaped
    rw [Cursor.peek_of_rest hc, hc]
    rfl
  exact this.congr rfl rfl (by simp; omega)

/-- A folded line. -/
theorem fold {k : Nat} (hk : 0 < k) (hink : ∀ r, ∃ x u, t ++ '"' :: r = x :: u ∧ isInk x)
    (h : ∀ r, Reads true (t ++ '"' :: r) s (t.length + 1)) :
    DoubleText ds s ('\\' :: (newLine k ++ t)) := by
  refine ofBackslash fun r => ?_
  obtain ⟨x, u, hu, hx⟩ := hink r
  have hread := h r
  rw [hu] at hread
  have := hread.fold hx hk
  rw [← hu] at this
  exact this.congr (by simp) rfl (by simp; omega)

/-- A line folded between a backslash and a space: the backslash escapes another one. -/
theorem overfold {k : Nat} (ds : List Char) (hk : 0 < k) (h : DoubleText cs s t) :
    DoubleText ds ('\\' :: ' ' :: ' ' :: s) ('\\' :: '\\' :: (newLine k ++ '\\' :: ' ' :: t)) := by
  refine ofBackslash fun r => ?_
  have hbreaks := ((h.escapedSpace []).reads r).breaks (by decide) isBreak_lineFeed (by simp) hk
  have := hbreaks.escape (e := ['\\']) (u := ['\\']) fun c fuel hc _ => by
    unfold escaped
    rw [Cursor.peek_of_rest hc, hc]
    rfl
  exact this.congr (by simp [newLine]) rfl (by simp [newLine]; omega)

end DoubleText

/-! ## Writing -/

theorem draws_escape (p : Pen) (c : Char) : Draws p (escape c) (p.write (escape c)) :=
  .write p (fun _ h => isDrawn_of_ascii (isAscii_escape h))
    fun _ h => isBreak_of_ascii (isAscii_escape h)

theorem two_le_length_escape (c : Char) : 2 ≤ (escape c).length := by
  unfold escape
  split
  · exact Nat.le_refl 2
  · split
    · simp
    · split <;> simp

/-- The pen after pending characters and the fold of a line. -/
def foldedPen (p : Pen) (pending : List Char) (n : Nat) : Pen :=
  ((p.write (pending ++ ['\\'])).indent n).settle

theorem draws_backslash (p : Pen) : Draws p ['\\'] (p.write ['\\']) :=
  .write p (List.forall_mem_singleton.mpr (by decide)) (List.forall_mem_singleton.mpr (by decide))

theorem draws_foldedPen {p : Pen} (hp : p.fresh = false) (pending : List Char)
    (hpending : ∀ c ∈ pending, needsEscape c = false) (n : Nat) :
    Draws p (pending ++ '\\' :: newLine n) (foldedPen p pending n) := by
  have hwrite : Draws p pending (p.write pending) :=
    .write p (fun c hc => isDrawn_of_needsEscape (hpending c hc))
      fun c hc => isBreak_of_needsEscape (hpending c hc)
  have hline := draws_newLine (p := p.write (pending ++ ['\\'])) (n := n) (.inl hp)
  have := (hwrite.trans (draws_backslash _)).trans (hline.congr
    (by simp [Pen.write, String.append_assoc]) (by simp [Pen.write]; omega) rfl rfl)
  rw [List.append_assoc] at this
  exact this.congr rfl rfl rfl rfl

theorem column_foldedPen {p : Pen} (hp : p.fresh = false) (pending : List Char)
    (hpending : ∀ c ∈ pending, needsEscape c = false) (n : Nat) :
    (foldedPen p pending n).column = n := by
  rw [(draws_foldedPen hp pending hpending n).column, columnAfter_append]
  exact columnAfter_newLine _ n

theorem doubleRead_cons {wide first : Bool} {c : Char} {r : List Char}
    (h : (wide && !first && needsEscape c && r.head? == some ' ' && 1 < r.length) = false) :
    doubleRead wide first (c :: r) = c :: doubleRead wide false r := by
  rw [doubleRead, h]
  rfl

/-- What is read for an escape and a space behind it. -/
theorem doubleRead_beforeSpace (wide : Bool) {c : Char} (hc : needsEscape c) (r : List Char) :
    doubleRead wide false (c :: ' ' :: r) = c ::
      let rest := ' ' :: doubleRead wide false r
      if wide && !r.isEmpty then '\\' :: ' ' :: rest else rest := by
  have hspace : needsEscape ' ' = false := by decide
  rw [doubleRead, doubleRead_cons (by simp [hspace]), hc]
  cases r <;> simp

/-- A pen with pending characters, which is behind the indentation if lines are folded. -/
structure Pending (indent : Nat) (split : Bool) (pending : List Char) (p : Pen) : Prop where
  fresh : p.fresh = false
  raw : ∀ c ∈ pending, needsEscape c = false
  column : split → indent ≤ p.column + pending.length

/-- What is drawn for the rest of a text, whose pending characters are not yet written, is read as it
should be. -/
def ReadsDouble (indent : Nat) (split first : Bool) (pending : List Char) (p : Pen)
    (cs : List Char) : Prop :=
  ∃ t, Draws p (pending.reverse ++ t) (writeDoubleChars indent split first pending p cs) ∧
    DoubleText cs (doubleRead (split && decide (80 ≤ indent)) first cs) t

section Chars

variable {indent : Nat} {split first : Bool} {pending : List Char} {p q : Pen} {c : Char}
  {r : List Char}

theorem Pending.raw_reverse (h : Pending indent split pending p) :
    ∀ c ∈ pending.reverse, needsEscape c = false :=
  fun c hc => h.raw c (List.mem_reverse.mp hc)

theorem Pending.draws (h : Pending indent split pending p) :
    Draws p pending.reverse (p.write pending.reverse) :=
  .write p (fun c hc => isDrawn_of_needsEscape (h.raw_reverse c hc))
    fun c hc => isBreak_of_needsEscape (h.raw_reverse c hc)

/-- A pen behind a fold and a backslash, with a space pending. -/
theorem pending_space (hfresh : q.fresh = false) (hcolumn : q.column = indent) :
    Pending indent split [' '] (q.write ['\\']) where
  fresh := hfresh
  raw := List.forall_mem_singleton.mpr (by decide)
  column _ := by
    show indent ≤ q.column + 1 + 1
    omega

/-- A character that needs no escape is pending; a line may be folded in front of it. -/
theorem readsDouble_raw (hindent : 0 < indent) (hc : needsEscape c = false)
    (h : Pending indent split pending p)
    (ih : ∀ pending p, Pending indent split pending p → ReadsDouble indent split false pending p r) :
    ReadsDouble indent split first pending p (c :: r) := by
  rw [ReadsDouble, doubleRead_cons (by simp [hc]), writeDoubleChars]
  simp only [hc, Bool.false_eq_true, if_false]
  split
  · have hfold := draws_foldedPen h.fresh pending.reverse h.raw_reverse indent
    have hcolumn := column_foldedPen h.fresh pending.reverse h.raw_reverse indent
    by_cases hs : c = ' '
    · subst hs
      obtain ⟨t, hdraw, htext⟩ := ih [' '] _ (pending_space rfl hcolumn)
      have hspace := htext.escapedSpace []
      refine ⟨'\\' :: (newLine indent ++ '\\' :: ' ' :: t), ?_,
        .fold hindent (hspace.ink (by simp)) hspace.reads⟩
      have := (hfold.trans (draws_backslash _)).trans hdraw
      simpa [foldedPen] using this
    · obtain ⟨t, hdraw, htext⟩ := ih [c] (foldedPen p pending.reverse indent)
        ⟨rfl, List.forall_mem_singleton.mpr hc, fun _ => by rw [hcolumn]; exact Nat.le_add_right _ _⟩
      have hcons := htext.cons hc
      refine ⟨'\\' :: (newLine indent ++ c :: t), ?_,
        .fold hindent (hcons.ink (by simpa using hs)) hcons.reads⟩
      have := hfold.trans hdraw
      rw [if_neg (by simpa using hs)]
      simpa [foldedPen] using this
  · obtain ⟨t, hdraw, htext⟩ := ih (c :: pending) p ⟨h.fresh, List.forall_mem_cons.mpr ⟨hc, h.raw⟩,
      fun hsplit => Nat.le_succ_of_le (h.column hsplit)⟩
    exact ⟨c :: t, by simpa using hdraw, htext.cons hc⟩

/-- A space behind a fold is drawn behind a backslash. If the indentation alone passes the width, it is
folded away again. -/
theorem reads_spaceBehindFold (hindent : 0 < indent) (hfresh : q.fresh = false)
    (hcolumn : q.column = indent)
    (ih : ∀ pending p, Pending indent split pending p → ReadsDouble indent split false pending p r) :
    ∃ t, Draws q ('\\' :: t) (writeDoubleChars indent split false [] (q.write ['\\']) (' ' :: r)) ∧
      DoubleText []
        (let rest := ' ' :: doubleRead (split && decide (80 ≤ indent)) false r
        if split && decide (80 ≤ indent) && !r.isEmpty then '\\' :: ' ' :: rest else rest)
        ('\\' :: t) := by
  have hspace : needsEscape ' ' = false := by decide
  have hback : (q.write ['\\']).fresh = false := hfresh
  have hwidth : decide (Pen.width < (q.write ['\\']).column + ([] : List Char).length) =
      decide (80 ≤ indent) := by
    show decide (80 < q.column + 1 + 0) = _
    rw [hcolumn]
    simp only [Nat.add_zero, Nat.lt_succ_iff]
  rw [writeDoubleChars]
  simp only [hspace, hwidth, Bool.false_eq_true, if_false, Bool.not_false, Bool.true_and,
    beq_self_eq_true, Bool.true_or, if_true, Bool.and_true]
  by_cases hcond : (split && decide (80 ≤ indent) && !r.isEmpty) = true
  · have hwrites : (!r.isEmpty && decide (80 ≤ indent) && split) = true := by
      rw [← hcond, Bool.and_comm, Bool.and_comm (!r.isEmpty), Bool.and_assoc]
    rw [if_pos hcond, hwrites]
    have hfold := draws_foldedPen hback [] (by simp) indent
    have hcolumn' := column_foldedPen hback [] (by simp) indent
    obtain ⟨t, hdraw, htext⟩ := ih [' '] _ (pending_space rfl hcolumn')
    refine ⟨'\\' :: (newLine indent ++ '\\' :: ' ' :: t), ?_, htext.overfold [] hindent⟩
    have := ((draws_backslash q).trans hfold).trans ((draws_backslash _).trans hdraw)
    simpa [foldedPen] using this
  · have hwrites : (!r.isEmpty && decide (80 ≤ indent) && split) = false := by
      rw [← Bool.not_eq_true, Bool.and_comm, Bool.and_comm (!r.isEmpty), ← Bool.and_assoc]
      exact hcond
    rw [if_neg hcond, hwrites]
    obtain ⟨t, hdraw, htext⟩ := ih [' '] _ (pending_space hfresh hcolumn)
    refine ⟨' ' :: t, ?_, htext.escapedSpace []⟩
    have := (draws_backslash q).trans hdraw
    simpa using this

/-- A line folded behind an escaped character, which is not the first or the last. -/
theorem readsDouble_foldBehind (hindent : 0 < indent) (hc : needsEscape c) (hq : q.fresh = false)
    (hr : r ≠ [])
    (ih : ∀ pending p, Pending indent split pending p → ReadsDouble indent split false pending p r)
    (ih' : ∀ r', r = ' ' :: r' → ∀ pending p, Pending indent split pending p →
      ReadsDouble indent split false pending p r') :
    ∃ t, Draws q t (writeDoubleChars indent split false []
        (if r.headD 'x' == ' ' then (foldedPen q [] indent).write ['\\'] else foldedPen q [] indent) r) ∧
      DoubleText (c :: r) (doubleRead (split && decide (80 ≤ indent)) false (c :: r)) (escape c ++ t) := by
  have hfold := draws_foldedPen hq [] (by simp) indent
  have hcolumn := column_foldedPen hq [] (by simp) indent
  obtain ⟨d, r, rfl⟩ := List.exists_cons_of_ne_nil hr
  by_cases hd : d = ' '
  · subst hd
    obtain ⟨t, hdraw, htext⟩ := reads_spaceBehindFold hindent rfl hcolumn (ih' r rfl)
    have hlater : DoubleText (' ' :: r) _ ('\\' :: (newLine indent ++ '\\' :: t)) :=
      .fold hindent (htext.ink (by simp)) htext.reads
    refine ⟨'\\' :: (newLine indent ++ '\\' :: t), by simpa using hfold.trans hdraw, ?_⟩
    rw [doubleRead_beforeSpace _ hc]
    exact hlater.escape c
  · obtain ⟨t, hdraw, htext⟩ := ih [] (foldedPen q [] indent)
      ⟨rfl, by simp, fun _ => by rw [hcolumn]; exact Nat.le_add_right _ _⟩
    have hnext : DoubleText (d :: r) _ ('\\' :: (newLine indent ++ t)) :=
      .fold hindent (htext.ink (by simpa using hd)) htext.reads
    refine ⟨'\\' :: (newLine indent ++ t), by simpa [hd] using hfold.trans hdraw, ?_⟩
    rw [doubleRead_cons (by simp [hd])]
    exact hnext.escape c

/-- An escape is written behind the pending characters; a line may be folded behind it. -/
theorem readsDouble_escape (hindent : 0 < indent) (hc : needsEscape c)
    (h : Pending indent split pending p)
    (ih : ∀ pending p, Pending indent split pending p → ReadsDouble indent split false pending p r)
    (ih' : ∀ r', r = ' ' :: r' → ∀ pending p, Pending indent split pending p →
      ReadsDouble indent split false pending p r') :
    ReadsDouble indent split first pending p (c :: r) := by
  rw [ReadsDouble, writeDoubleChars]
  simp only [hc, if_true]
  have hescape := h.draws.trans (draws_escape _ c)
  have hcolumn : ((p.write pending.reverse).write (escape c)).column =
      p.column + pending.length + (escape c).length := by
    show p.column + pending.reverse.length + _ = _
    rw [List.length_reverse]
  have hq : ((p.write pending.reverse).write (escape c)).fresh = false := h.fresh
  have htwo := two_le_length_escape c
  generalize (p.write pending.reverse).write (escape c) = q at *
  split
  · next hcond =>
    simp only [Bool.and_eq_true, Bool.not_eq_true', decide_eq_true_eq] at hcond
    obtain ⟨⟨⟨⟨hfirst, hr⟩, -⟩, -⟩, -⟩ := hcond
    obtain ⟨t, hdraw, htext⟩ := readsDouble_foldBehind hindent hc hq (by simpa using hr) ih ih'
    refine ⟨escape c ++ t, ?_, by rw [hfirst]; exact htext⟩
    simpa [foldedPen] using hescape.trans hdraw
  · next hcond =>
    obtain ⟨t, hdraw, htext⟩ := ih [] q ⟨hq, by simp, fun hsplit => by
      have := h.column hsplit
      simp
      omega⟩
    refine ⟨escape c ++ t, by simpa using hescape.trans hdraw, ?_⟩
    rw [doubleRead_cons]
    · exact htext.escape c
    · -- an escape behind the width of a deep indentation is followed by a fold
      rw [← Bool.not_eq_true]
      intro hwide
      simp only [Bool.and_eq_true, Bool.not_eq_true', decide_eq_true_eq, beq_iff_eq] at hwide
      obtain ⟨⟨⟨⟨⟨hsplit, hwide⟩, hfirst⟩, -⟩, -⟩, hlength⟩ := hwide
      have := h.column hsplit
      refine hcond ?_
      cases r with
      | nil => contradiction
      | cons d r =>
        have : 80 < q.column - 1 := by omega
        simp [hfirst, hsplit, Pen.width, this]

end Chars

/-- What is drawn for a text whose pending characters are not yet written. -/
theorem writeDoubleChars_draws {indent : Nat} (hindent : 0 < indent) (split : Bool) :
    ∀ (cs : List Char) (first : Bool) (pending : List Char) (p : Pen),
      Pending indent split pending p → ReadsDouble indent split first pending p cs
  | [], first, pending, p, h => ⟨[], by rw [List.append_nil]; exact h.draws, .nil⟩
  | c :: r, first, pending, p, h => by
    have ih := writeDoubleChars_draws hindent split r false
    cases hc : needsEscape c with
    | false => exact readsDouble_raw hindent hc h ih
    | true =>
      refine readsDouble_escape hindent hc h ih fun r' hr => ?_
      subst hr
      exact writeDoubleChars_draws hindent split r' false

end Yaml

end GraphPaths
