import GraphPaths.Proofs.Yaml.Double
import GraphPaths.Proofs.Yaml.Plain
import GraphPaths.Yaml.Printer

/-!
# Where a text is drawn

What is read for a text depends on its style, on the indentation of its further lines and on whether it
stands before a colon in one line (`Site`). It is the text itself where the site is legible: not in
single quotes with the character U+0085, not in double quotes with a space after an escape in a place
indented by eighty columns or more, and not a key that takes more than 1024 characters in double quotes.
-/

namespace GraphPaths

namespace Yaml

/-- A place where a text is drawn. -/
structure Site where
  text : String
  /-- The indentation of its further lines. -/
  indent : Nat
  /-- Whether it stands before a colon in one line. -/
  key : Bool

/-- The characters of a text in one line of double quotes. -/
def doubleLine (cs : List Char) : List Char :=
  cs.flatMap fun c => if needsEscape c then escape c else [c]

/-- Whether a character that must be escaped stands before a space that is not the last character. -/
def overfolds : List Char → Bool
  | a :: b :: c :: r => (needsEscape a && b == ' ') || overfolds (b :: c :: r)
  | _ => false

namespace Site

/-- The style of the text. -/
def style (s : Site) : Style :=
  styleOf (implicitKind s.text.toList == .text) false s.key (Traits.of s.text.toList)

/-- Whether a reader can still take the text for a key at the colon after it. -/
def fits (s : Site) : Bool :=
  !(s.key && s.style == .double) || decide ((doubleLine s.text.toList).length + 2 ≤ 1024)

/-- Whether no character of the text is lost or added. -/
def sound (s : Site) : Bool :=
  match s.style with
  | .plain | .block => true
  | .single => !s.text.toList.contains '\x85'
  | .double => s.key || decide (s.indent < 80) || !overfolds s.text.toList.tail

/-- Whether the text is read as it is. -/
def legible (s : Site) : Bool := s.fits && s.sound

/-- The text that is read. -/
def readBack (s : Site) : String :=
  match s.style with
  | .plain | .block => s.text
  | .single => String.ofList (singleRead (runs s.text.toList))
  | .double => String.ofList (doubleRead (!s.key && decide (80 ≤ s.indent)) true s.text.toList)

end Site

/-! ## Sound sites -/

theorem doubleRead_narrow (first : Bool) (cs : List Char) : doubleRead false first cs = cs := by
  induction cs generalizing first with
  | nil => rfl
  | cons c r ih => rw [doubleRead_cons rfl, ih]

theorem doubleRead_wide (cs : List Char) : doubleRead true false cs = cs ↔ overfolds cs = false := by
  induction cs with
  | nil => exact ⟨fun _ => rfl, fun _ => rfl⟩
  | cons c r ih =>
    match r, ih with
    | [], _ => simp [doubleRead, overfolds]
    | [d], ih =>
      rw [doubleRead_cons (by simp), List.cons_inj_right, ih]
      simp [overfolds]
    | d :: e :: r, ih =>
      rw [overfolds, Bool.or_eq_false_iff]
      by_cases hfold : (needsEscape c && d == ' ') = true
      · simp only [Bool.and_eq_true, beq_iff_eq] at hfold
        obtain ⟨hc, rfl⟩ := hfold
        simp [doubleRead, hc]
      · rw [Bool.not_eq_true] at hfold
        rw [doubleRead_cons (by simpa using hfold), List.cons_inj_right, ih]
        exact (and_iff_right hfold).symm

theorem doubleRead_eq_iff (wide : Bool) (cs : List Char) :
    doubleRead wide true cs = cs ↔ (wide && overfolds cs.tail) = false := by
  cases cs with
  | nil => simp [doubleRead, overfolds]
  | cons c r =>
    rw [doubleRead_cons (by simp), List.cons_inj_right]
    cases wide with
    | false => simp [doubleRead_narrow]
    | true => simpa using doubleRead_wide r

theorem readBreak_ne (c : Char) : readBreak c ≠ '\x85' := by
  unfold readBreak
  split
  · decide
  · next h => simpa using h

theorem not_mem_folded {b : Char} {brs : List Char} (hb : b ≠ '\x85') (hbrs : '\x85' ∉ brs) :
    '\x85' ∉ folded b brs := by
  unfold folded
  rw [List.mem_append, not_or]
  refine ⟨?_, hbrs⟩
  split
  · simpa using hb.symm
  · split <;> simp

theorem not_mem_readBreaks (brs : List Char) : '\x85' ∉ readBreaks brs := by
  have hmap : ∀ brs : List Char, '\x85' ∉ brs.map readBreak := fun brs h => by
    obtain ⟨c, -, hc⟩ := List.mem_map.mp h
    exact readBreak_ne c hc
  unfold readBreaks
  split
  · cases brs with
    | nil => exact List.not_mem_nil
    | cons b brs => exact not_mem_folded (readBreak_ne b) (hmap brs)
  · exact hmap brs

theorem readBreaks_of_not_mem {brs : List Char} (h : '\x85' ∉ brs) : readBreaks brs = brs := by
  have hmap : brs.map readBreak = brs.map id :=
    List.map_congr_left fun c hc => by
      have hne : c ≠ '\x85' := fun heq => h (heq ▸ hc)
      simp [readBreak, hne]
  rw [List.map_id] at hmap
  unfold readBreaks
  split
  · next hhead =>
    exact absurd (List.mem_of_mem_head? (Option.mem_def.mpr (beq_iff_eq.mp hhead))) h
  · exact hmap

theorem singleRead_eq_iff {rs : List (List Char)} (h : Alternating rs) :
    singleRead rs = rs.flatten ↔ '\x85' ∉ rs.flatten := by
  have hnever : '\x85' ∉ singleRead rs := by
    induction h with
    | nil => exact List.not_mem_nil
    | @cons k run rest hne hrun hnext hrest ih =>
      rw [singleRead_cons hne hrun, List.mem_append, not_or]
      refine ⟨?_, ih⟩
      split
      · exact not_mem_readBreaks run
      · next hk => exact fun hmem => hk ((hrun _ hmem).symm.trans (by decide))
  refine ⟨fun heq => heq ▸ hnever, fun hnel => ?_⟩
  clear hnever
  induction h with
  | nil => rfl
  | @cons k run rest hne hrun hnext hrest ih =>
    rw [List.flatten_cons, List.mem_append, not_or] at hnel
    rw [singleRead_cons hne hrun, List.flatten_cons, ih hnel.2]
    split
    · rw [readBreaks_of_not_mem hnel.1]
    · rfl

/-- The text is read as it is where the site is sound. -/
theorem Site.readBack_eq_iff (s : Site) : s.readBack = s.text ↔ s.sound := by
  have htext : ∀ cs : List Char, String.ofList cs = s.text ↔ cs = s.text.toList := fun cs =>
    ⟨fun h => by rw [← h, String.toList_ofList], fun h => by rw [h, String.ofList_toList]⟩
  unfold readBack sound
  cases s.style with
  | plain | block => simp
  | single =>
    have := singleRead_eq_iff (alternating_runs s.text.toList)
    rw [flatten_runs] at this
    simp only [htext, this]
    simp
  | double =>
    simp only [htext, doubleRead_eq_iff]
    cases s.key <;> cases overfolds s.text.toList.tail <;> simp

/-! ## Drawn sites -/

/-- A scalar in quotes and the text that is read for it. -/
structure Quoted (t : List Char) (u : String) : Prop where
  head : t.head? = some '\'' ∨ t.head? = some '"'
  reads : ∀ (c : Cursor) (r : List Char), c.rest = t ++ r → r.head? ≠ some '\'' →
    quotedScalar c = .ok (u, c.forward t.length)

theorem quoted_single {rs : List (List Char)} {s t : List Char} (h : SingleText rs s t) :
    Quoted ('\'' :: (t ++ ['\''])) (String.ofList s) where
  head := .inl rfl
  reads c r hc hr := by
    have hnext : c.next.rest = t ++ '\'' :: r := by
      rw [Cursor.next_rest, hc]
      simp
    have := h.reads r hr c.next (c.rest.length + 1) hnext (by
      rw [hc]
      simp)
    unfold quotedScalar
    rw [Cursor.peek_of_rest hc]
    show (quotedChars false (c.rest.length + 1) c.next >>= _) = _
    rw [this, List.length_cons, List.length_append]
    rfl

theorem quoted_double {cs s t : List Char} (h : DoubleText cs s t) :
    Quoted ('"' :: (t ++ ['"'])) (String.ofList s) where
  head := .inr rfl
  reads c r hc _ := by
    have hnext : c.next.rest = t ++ '"' :: r := by
      rw [Cursor.next_rest, hc]
      simp
    have := h.reads r c.next (c.rest.length + 1) hnext (by
      rw [hc]
      simp)
    unfold quotedScalar
    rw [Cursor.peek_of_rest hc]
    show (quotedChars true (c.rest.length + 1) c.next >>= _) = _
    rw [this, List.length_cons, List.length_append]
    rfl

theorem draws_quote (p : Pen) : Draws p (lead p ++ ['\'']) (p.mark "'" true false) :=
  draws_mark p "'" (isAscii_of_all (by decide)) false

theorem draws_closeQuote (p : Pen) : Draws p ['\''] (p.mark "'" false false) :=
  draws_mark_close p "'" (isAscii_of_all (by decide)) false

theorem draws_doubleQuote (p : Pen) : Draws p (lead p ++ ['"']) (p.mark "\"" true false) :=
  draws_mark p "\"" (isAscii_of_all (by decide)) false

theorem draws_closeDoubleQuote (p : Pen) : Draws p ['"'] (p.mark "\"" false false) :=
  draws_mark_close p "\"" (isAscii_of_all (by decide)) false

theorem of_single {cs : List Char} (h : (Traits.of cs).single) : (∀ c ∈ cs, isPlainChar c) ∧
    hasPair (· == ' ') isBreak cs = false ∧ hasPair isBreak (· == ' ') cs = false := by
  cases cs with
  | nil => exact ⟨by simp, rfl, rfl⟩
  | cons c r =>
    simp only [Traits.of, Bool.not_eq_true', Bool.or_eq_false_iff, List.any_eq_false] at h
    exact ⟨fun d hd => by simpa using h.2.2 d hd, h.2.1, h.1⟩

/-- What is drawn for a text in single quotes. -/
theorem writeSingle_draws {indent : Nat} (hindent : 0 < indent) (split : Bool) (p : Pen)
    {cs : List Char} (h : (Traits.of cs).single) :
    ∃ t, Draws p (lead p ++ '\'' :: (t ++ ['\''])) (writeSingle p indent split cs) ∧
      SingleText (runs cs) (singleRead (runs cs)) t := by
  obtain ⟨hplain, hspaceBreak, hbreakSpace⟩ := of_single h
  have hruns : SingleRuns (runs cs) := by
    constructor <;> rw [flatten_runs]
    · exact hplain
    · simpa only [beq_iff_eq] using isChain_of_hasPair hspaceBreak
    · simpa only [beq_iff_eq] using isChain_of_hasPair hbreakSpace
  obtain ⟨t, hdraw, htext⟩ := writeSingleRuns_draws hindent split (alternating_runs cs) hruns true
    (p.mark "'" true false) (.inl (Bool.and_false _))
  refine ⟨t, ?_, htext⟩
  have := ((draws_quote p).trans hdraw).trans (draws_closeQuote _)
  simpa [writeSingle] using this

/-- What is drawn for a text in double quotes. -/
theorem writeDouble_draws {indent : Nat} (hindent : 0 < indent) (split : Bool) (p : Pen)
    (hcolumn : split → indent ≤ p.column + 1) (cs : List Char) :
    ∃ t, Draws p (lead p ++ '"' :: (t ++ ['"'])) (writeDouble p indent split cs) ∧
      DoubleText cs (doubleRead (split && decide (80 ≤ indent)) true cs) t := by
  have hmark := draws_doubleQuote p
  have hat : (p.mark "\"" true false).column = p.column + (lead p).length + 1 := by
    rw [hmark.column, columnAfter_of_line, List.length_append]
    · rfl
    · intro c hc
      rcases List.mem_append.mp hc with hc | hc
      · exact isBreak_of_mem_lead hc
      · rw [List.mem_singleton.mp hc]
        decide
  obtain ⟨t, hdraw, htext⟩ := writeDoubleChars_draws hindent split cs true []
    (p.mark "\"" true false) ⟨Bool.and_false _, by simp, fun h => by
      have := hcolumn h
      rw [hat, List.length_nil]
      omega⟩
  refine ⟨t, ?_, htext⟩
  have := (hmark.trans hdraw).trans (draws_closeDoubleQuote _)
  simpa [writeDouble] using this

/-- What is drawn for a plain text. -/
theorem writePlain_draws (indent : Nat) (split : Bool) (p : Pen) {cs : List Char} (hne : cs ≠ [])
    (h : (Traits.of cs).plain) :
    ∃ t, Draws p (lead p ++ t) (writePlain p false indent split cs) ∧
      PlainText indent (runs cs) t ∧ (split = false → t = cs) := by
  obtain ⟨c, r, rfl⟩ := List.exists_cons_of_ne_nil hne
  simp only [Traits.of, Bool.not_eq_true', Bool.or_eq_false_iff] at h
  obtain ⟨⟨⟨⟨⟨hfirst, hlast⟩, -⟩, -, hspecial⟩, hbreaks⟩, hindicator⟩ := h
  have hplain : ∀ d ∈ c :: r, isPlainChar d ∧ isBreak d = false := fun d hd =>
    ⟨by simpa using List.any_eq_false.mp hspecial d hd, by simpa using List.any_eq_false.mp hbreaks d hd⟩
  unfold hasIndicator at hindicator
  simp only [Bool.or_eq_false_iff, Bool.and_eq_false_iff] at hindicator
  have hsharp : c ≠ '#' := by
    rintro rfl
    exact absurd hindicator.1.1.2 (by decide)
  have hafter : hasIndicatorAfter 'x' (c :: r) = false := by
    unfold hasIndicatorAfter
    simp only [Bool.or_eq_false_iff, Bool.and_eq_false_iff]
    refine ⟨⟨?_, .inl (by simpa using hsharp)⟩, hindicator.2⟩
    rcases hindicator.1.2 with h | h
    · exact .inl h.1.2
    · exact .inr h
  have hrow := row_of_plain (b := 'x') (alternating_runs (c :: r))
    (List.splitBy_ne_nil.mpr (by simp)) (by rwa [flatten_runs])
    (by rw [flatten_runs]; simpa using hfirst.1) (by rw [flatten_runs]; simpa using hsharp)
    (by
      rw [flatten_runs]
      intro hspace
      have : (c :: r).getLastD c = ' ' := by rw [List.getLastD_eq_getLast?, hspace]; rfl
      rw [this] at hlast
      exact absurd hlast.1 (by decide))
    (by rwa [flatten_runs])
  have hlead : Draws p (lead p) (if p.spaced then p else p.write [' ']).settle := by
    unfold lead
    cases p.spaced with
    | true => exact (Draws.refl p).congr rfl rfl rfl rfl
    | false => exact (draws_spaces p 1).congr rfl rfl rfl rfl
  obtain ⟨t, hdraw, htext, hflat⟩ := writePlainRuns_draws indent split hrow
    (if p.spaced then p else p.write [' ']).settle rfl
  refine ⟨t, ?_, htext, fun h => by rw [hflat h, flatten_runs]⟩
  simpa [writePlain] using hlead.trans hdraw

/-! ## Keys -/

/-- Double quotes without folds hold one line. -/
theorem writeDoubleChars_line (indent : Nat) : ∀ (cs : List Char) (first : Bool) (pending : List Char)
    (p : Pen), (∀ c ∈ pending, needsEscape c = false) →
    Draws p (pending.reverse ++ doubleLine cs) (writeDoubleChars indent false first pending p cs)
  | [], first, pending, p, hpending => by
    rw [doubleLine, List.flatMap_nil, List.append_nil]
    exact .write p (fun c hc => isDrawn_of_needsEscape (hpending c (List.mem_reverse.mp hc)))
      fun c hc => isBreak_of_needsEscape (hpending c (List.mem_reverse.mp hc))
  | c :: r, first, pending, p, hpending => by
    unfold writeDoubleChars
    simp only [Bool.and_false, Bool.false_eq_true, if_false]
    rw [doubleLine, List.flatMap_cons]
    cases hc : needsEscape c with
    | false =>
      have := writeDoubleChars_line indent r false (c :: pending) p fun d hd =>
        (List.mem_cons.mp hd).elim (fun h => h ▸ hc) (hpending d)
      simpa [doubleLine] using this
    | true =>
      have hwritten : Draws p pending.reverse (p.write pending.reverse) :=
        .write p (fun c hc => isDrawn_of_needsEscape (hpending c (List.mem_reverse.mp hc)))
          fun c hc => isBreak_of_needsEscape (hpending c (List.mem_reverse.mp hc))
      have := (hwritten.trans (draws_escape _ c)).trans
        (writeDoubleChars_line indent r false [] _ (by simp))
      simpa [doubleLine] using this

theorem isBreak_doubleLine {cs : List Char} {c : Char} (h : c ∈ doubleLine cs) :
    isBreak c = false := by
  obtain ⟨d, -, hc⟩ := List.mem_flatMap.mp h
  split at hc
  · exact isBreak_of_ascii (isAscii_escape hc)
  · next hd =>
    rw [List.mem_singleton.mp hc]
    exact isBreak_of_needsEscape (by simpa using hd)

/-- Single quotes without line breaks and folds hold one line. -/
theorem writeSingleRuns_line (indent : Nat) {rs : List (List Char)} (h : Alternating rs) :
    ∀ (first : Bool) (p : Pen), (∀ c ∈ rs.flatten, isPlainChar c ∧ isBreak c = false) →
      Draws p (singleLine rs.flatten) (writeSingleRuns p indent false first rs) := by
  induction h with
  | nil => exact fun _ p _ => .refl p
  | @cons k run rest hne hrun hnext hrest ih =>
    intro first p hplain
    rw [List.flatten_cons] at hplain
    have hline : ∀ c ∈ run, isPlainChar c ∧ isBreak c = false := fun c hc =>
      hplain c (List.mem_append_left _ hc)
    obtain ⟨d, run', hd⟩ := List.exists_cons_of_ne_nil hne
    have hkind : runKind (run.headD ' ') = k := hrun _ (by rw [hd]; simp)
    rw [writeSingleRuns, hkind, List.flatten_cons, singleLine, List.flatMap_append]
    have hwrite : Draws p (singleLine run) (p.write (singleLine run)) :=
      .write p (fun c hc => isDrawn_of_isPlainChar (hline c (mem_of_mem_singleLine hc)).1)
        fun c hc => (hline c (mem_of_mem_singleLine hc)).2
    refine Draws.trans ?_ (ih false _ fun c hc => hplain c (List.mem_append_right _ hc))
    cases k with
    | spaces =>
      have hsame : singleLine run = run := by
        have : ∀ c ∈ run, (if c == '\'' then [c, c] else [c]) = [c] := fun c hc => by
          rw [runKind_spaces.mp (hrun c hc)]
          rfl
        rw [singleLine, List.flatMap_congr this, List.flatMap_singleton']
      rw [hsame] at hwrite
      show Draws p (singleLine run) _
      rw [hsame]
      simpa using hwrite
    | breaks =>
      have hb := (hline d (by rw [hd]; exact List.mem_cons_self)).2
      rw [runKind_breaks.mp (hrun d (by rw [hd]; exact List.mem_cons_self))] at hb
      contradiction
    | other => exact hwrite

/-! ## Texts at sites -/

/-- Whether a text that stands before a colon in one line is no longer than such a key may be. -/
def Site.Simple (s : Site) : Prop :=
  s.key → (Traits.of s.text.toList).multiline = false ∧ s.text.length < 123

/-- The characters that are drawn for the text of a site. -/
structure SiteText (s : Site) (t : List Char) : Prop where
  plain : s.style = .plain → PlainText s.indent (runs s.text.toList) t
  quoted : s.style ≠ .plain → Quoted t s.readBack
  line : s.key → ∀ c ∈ t, isBreak c = false
  fits : s.key → (t.length ≤ 1024 ↔ s.fits)

theorem styleOf_ne_block (bare key : Bool) (t : Traits) : styleOf bare false key t ≠ .block := by
  unfold styleOf
  simp only [Bool.not_false, Bool.true_and, Bool.false_and, Bool.false_eq_true, if_false]
  split
  · simp
  · split <;> simp

theorem plain_of_style {bare key : Bool} {t : Traits} (h : styleOf bare false key t = .plain) :
    bare ∧ t.plain := by
  unfold styleOf at h
  simp only [Bool.not_false, Bool.true_and, Bool.false_and, Bool.false_eq_true, if_false] at h
  split at h
  · next hcond =>
    simp only [Bool.and_eq_true] at hcond
    exact ⟨hcond.1.1, hcond.2⟩
  · split at h <;> cases h

/-- A plain text is not empty and has no character that a plain scalar cannot have. -/
theorem Site.plain_of_style_eq (s : Site) (h : s.style = .plain) :
    s.text.toList ≠ [] ∧ (Traits.of s.text.toList).plain := by
  obtain ⟨hbare, htraits⟩ := plain_of_style h
  refine ⟨?_, htraits⟩
  intro hnil
  rw [hnil] at hbare
  exact absurd hbare (by decide)

theorem single_of_style {bare key : Bool} {t : Traits} (h : styleOf bare false key t = .single) :
    t.single := by
  unfold styleOf at h
  simp only [Bool.not_false, Bool.true_and, Bool.false_and, Bool.false_eq_true, if_false] at h
  split at h
  · cases h
  · split at h
    · next hcond =>
      simp only [Bool.and_eq_true] at hcond
      exact hcond.1
    · cases h

theorem isBreak_of_multiline {cs : List Char} (h : (Traits.of cs).multiline = false) :
    ∀ c ∈ cs, isBreak c = false := by
  cases cs with
  | nil => simp
  | cons c r => exact fun d hd => by simpa using List.any_eq_false.mp h d hd

/-- A pen behind a node in its line. -/
structure Settled (p : Pen) : Prop where
  fresh : p.fresh = false
  spaced : p.spaced = false
  closed : p.openEnded = false

theorem openEnded_indent (p : Pen) (n : Nat) : (p.indent n).openEnded = p.openEnded := by
  have hbreak : ∀ q : Pen, (if q.column < n then
      { q.write (List.replicate (n - q.column) ' ') with spaced := true } else q).openEnded =
        q.openEnded := by
    intro q
    split <;> rfl
  unfold Pen.indent
  simp only [hbreak]
  split <;> rfl

/-- Words leave the pen behind a bare character. -/
theorem settled_writePlainRuns (indent : Nat) (split : Bool) (rs : List (List Char)) :
    ∀ p : Pen, Settled p → Settled (writePlainRuns p indent split rs) := by
  induction rs with
  | nil => exact fun p hp => hp
  | cons run rest ih =>
    intro p hp
    rw [writePlainRuns]
    split
    · exact ih _ ⟨rfl, rfl, (openEnded_indent p indent).trans hp.closed⟩
    · exact ih _ ⟨hp.fresh, hp.spaced, hp.closed⟩

theorem settled_writePlain (indent : Nat) (split : Bool) {p : Pen} (hp : p.openEnded = false)
    {cs : List Char} (hne : cs ≠ []) : Settled (writePlain p false indent split cs) := by
  unfold writePlain
  rw [if_neg (by simpa using hne)]
  refine settled_writePlainRuns indent split _ _ ⟨rfl, rfl, ?_⟩
  show (if p.spaced then _ else _ : Pen).openEnded = false
  rw [hp]
  split <;> rfl

/-- A plain text at a site. -/
theorem siteText_plain {s : Site} (hs : s.Simple) (h : s.style = .plain) (p : Pen) :
    ∃ t, Draws p (lead p ++ t) (writePlain p false s.indent (!s.key) s.text.toList) ∧
      SiteText s t := by
  obtain ⟨hne, htraits⟩ := s.plain_of_style_eq h
  obtain ⟨t, hdraw, htext, hflat⟩ := writePlain_draws s.indent (!s.key) p hne htraits
  have hline : s.key → t = s.text.toList := fun hk => hflat (by rw [hk]; rfl)
  refine ⟨t, hdraw, fun _ => htext, fun hquoted => absurd h hquoted, fun hk => ?_, fun hk => ?_⟩
  · rw [hline hk]
    exact isBreak_of_multiline (hs hk).1
  · have hshort := (hs hk).2
    rw [hline hk, Site.fits, h, String.length_toList]
    simp
    omega

/-- No line breaks stand between two quotes around a text of one line. -/
theorem isBreak_quoted {q : Char} {t : List Char} (hq : isBreak q = false)
    (ht : ∀ c ∈ t, isBreak c = false) : ∀ c ∈ q :: (t ++ [q]), isBreak c = false := by
  intro c hc
  rcases List.mem_cons.mp hc with rfl | hc
  · exact hq
  · rcases List.mem_append.mp hc with hc | hc
    · exact ht c hc
    · rwa [List.mem_singleton.mp hc]

/-- A text in single quotes at a site. -/
theorem siteText_single {s : Site} (hs : s.Simple) (h : s.style = .single) (hindent : 0 < s.indent)
    (p : Pen) :
    ∃ t, Draws p (lead p ++ t) (writeSingle p s.indent (!s.key) s.text.toList) ∧ SiteText s t := by
  have hsingle := single_of_style h
  obtain ⟨t, hdraw, htext⟩ := writeSingle_draws hindent (!s.key) p hsingle
  have hread : Quoted ('\'' :: (t ++ ['\''])) s.readBack := by
    have := quoted_single htext
    rwa [Site.readBack, h]
  have hline : s.key → t = singleLine s.text.toList := by
    intro hk
    have hplain := (of_single hsingle).1
    have hruns := writeSingleRuns_line s.indent (alternating_runs s.text.toList) true
      (p.mark "'" true false) fun c hc => by
        rw [flatten_runs] at hc
        exact ⟨hplain c hc, isBreak_of_multiline (hs hk).1 c hc⟩
    rw [flatten_runs] at hruns
    have hdraw' := ((draws_quote p).trans hruns).trans (draws_closeQuote _)
    rw [hk] at hdraw
    have := hdraw.unique hdraw'
    simpa using this
  refine ⟨_, hdraw, fun hplain => ?_, fun _ => hread, fun hk => ?_, fun hk => ?_⟩
  · rw [h] at hplain
    cases hplain
  · rw [hline hk]
    exact isBreak_quoted (by decide) fun c hc =>
      isBreak_of_multiline (hs hk).1 c (mem_of_mem_singleLine hc)
  · have hshort := (hs hk).2
    have := length_singleLine s.text.toList
    have := s.text.length_toList
    rw [hline hk, Site.fits, h]
    simp
    omega

/-- A text in double quotes at a site. -/
theorem siteText_double {s : Site} (h : s.style = .double) (hindent : 0 < s.indent) (p : Pen)
    (hcolumn : s.key = false → s.indent ≤ p.column + 1) :
    ∃ t, Draws p (lead p ++ t) (writeDouble p s.indent (!s.key) s.text.toList) ∧ SiteText s t := by
  obtain ⟨t, hdraw, htext⟩ := writeDouble_draws hindent (!s.key) p
    (fun h => hcolumn (by simpa using h)) s.text.toList
  have hread : Quoted ('"' :: (t ++ ['"'])) s.readBack := by
    have := quoted_double htext
    rwa [Site.readBack, h]
  have hline : s.key → t = doubleLine s.text.toList := by
    intro hk
    have hdraw' := ((draws_doubleQuote p).trans (writeDoubleChars_line s.indent s.text.toList true []
      (p.mark "\"" true false) (by simp))).trans (draws_closeDoubleQuote _)
    rw [hk] at hdraw
    have := hdraw.unique hdraw'
    simpa using this
  refine ⟨_, hdraw, fun hplain => ?_, fun _ => hread, fun hk => ?_, fun hk => ?_⟩
  · rw [h] at hplain
    cases hplain
  · rw [hline hk]
    exact isBreak_quoted (by decide) fun c hc => isBreak_doubleLine hc
  · rw [hline hk, Site.fits, h, hk]
    simp
    omega

/-- What is drawn for a text at a site. -/
theorem writeScalar_draws (s : Site) (hs : s.Simple) (place : Place) (hroot : place.root = false)
    (hkey : place.key = s.key) (hindent : 0 < s.indent) (p : Pen)
    (hcolumn : s.key = false → s.indent ≤ p.column + 1) :
    ∃ t, Draws p (lead p ++ t) (writeScalar place s.indent ⟨.text, s.text⟩ p) ∧ SiteText s t ∧
      (p.openEnded = false → Settled (writeScalar place s.indent ⟨.text, s.text⟩ p)) := by
  have hstyle : styleOf (implicitKind s.text.toList == .text) false place.key
      (Traits.of s.text.toList) = s.style := by rw [hkey]; rfl
  unfold writeScalar
  simp only [show (ScalarKind.text == ScalarKind.binary) = false from rfl, hstyle]
  cases h : s.style with
  | block => exact absurd h (styleOf_ne_block _ _ _)
  | plain =>
    obtain ⟨hne, -⟩ := s.plain_of_style_eq h
    have hbare : (implicitKind s.text.toList == .text) = true := (plain_of_style h).1
    obtain ⟨t, hdraw, htext⟩ := siteText_plain hs h p
    simp only [hbare, hroot, hkey]
    exact ⟨t, hdraw, htext, fun hp => settled_writePlain _ _ hp hne⟩
  | single =>
    obtain ⟨t, hdraw, htext⟩ := siteText_single hs h hindent p
    simp only [hkey]
    exact ⟨t, hdraw, htext, fun _ => ⟨Bool.and_false _, rfl, rfl⟩⟩
  | double =>
    obtain ⟨t, hdraw, htext⟩ := siteText_double h hindent p hcolumn
    simp only [hkey]
    exact ⟨t, hdraw, htext, fun _ => ⟨Bool.and_false _, rfl, rfl⟩⟩

end Yaml

end GraphPaths
