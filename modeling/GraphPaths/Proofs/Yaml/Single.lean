import GraphPaths.Proofs.Yaml.Quoted
import Mathlib.Data.List.SplitBy

/-!
# Single-quoted texts read back

In single quotes a text is written run by run (`Alternating`). It is read as it was, but for the
character U+0085: it is written as it is and read as a line break (`singleRead`).
-/

namespace GraphPaths

namespace Yaml

/-! ## Runs -/

/-- Runs of characters of one class each, no two of one class next to each other. -/
inductive Alternating : List (List Char) → Prop
  | nil : Alternating []
  | cons (k : RunKind) {run : List Char} {rest : List (List Char)} (hne : run ≠ [])
      (hrun : ∀ c ∈ run, runKind c = k) (hnext : ∀ c ∈ rest.flatten.head?, runKind c ≠ k)
      (h : Alternating rest) : Alternating (run :: rest)

theorem alternating_of_isChain : ∀ {rs : List (List Char)}, [] ∉ rs →
    (∀ run ∈ rs, run.IsChain fun a b => runKind a == runKind b) →
    (rs.IsChain fun a b => ∃ ha hb, (runKind (a.getLast ha) == runKind (b.head hb)) = false) →
    Alternating rs
  | [], _, _, _ => .nil
  | run :: rest, hnil, hruns, hchain => by
    have hne : run ≠ [] := fun h => hnil (h ▸ List.mem_cons_self)
    have hsame : ∀ (c : Char) (r : List Char), (c :: r).IsChain (fun a b => runKind a == runKind b) →
        ∀ d ∈ c :: r, runKind d = runKind c := by
      intro c r
      induction r generalizing c with
      | nil => intro _ d hd; rw [List.mem_singleton.mp hd]
      | cons e r ih =>
        intro h d hd
        obtain ⟨he, hr⟩ := List.isChain_cons_cons.mp h
        rcases List.mem_cons.mp hd with rfl | hd
        · rfl
        · rw [ih e hr d hd, beq_iff_eq.mp he]
    obtain ⟨hfirst, hlater⟩ := List.isChain_cons.mp hchain
    refine .cons (runKind (run.head hne)) hne (fun c hc => ?_) (fun c hc => ?_)
      (alternating_of_isChain (fun h => hnil (List.mem_cons_of_mem _ h))
        (fun r hr => hruns r (List.mem_cons_of_mem _ hr)) hlater)
    · obtain ⟨d, r, rfl⟩ := List.exists_cons_of_ne_nil hne
      exact hsame d r (hruns _ List.mem_cons_self) c hc
    · cases rest with
      | nil => simp at hc
      | cons next rest =>
        obtain ⟨ha, hb, hdiffer⟩ := hfirst next rfl
        obtain ⟨e, next, rfl⟩ := List.exists_cons_of_ne_nil hb
        obtain rfl : e = c := by simpa using hc
        obtain ⟨d, r, rfl⟩ := List.exists_cons_of_ne_nil hne
        have hlast := hsame d r (hruns _ List.mem_cons_self) _ (List.getLast_mem ha)
        intro heq
        rw [hlast] at hdiffer
        exact absurd heq.symm (beq_eq_false_iff_ne.mp hdiffer)

/-- A text is the sum of its runs. -/
theorem flatten_runs (cs : List Char) : (runs cs).flatten = cs :=
  List.flatten_splitBy _ cs

theorem alternating_runs (cs : List Char) : Alternating (runs cs) :=
  alternating_of_isChain (List.nil_notMem_splitBy _ cs) (fun _ h => List.isChain_of_mem_splitBy h)
    (List.isChain_getLast_head_splitBy (fun a b => runKind a == runKind b) cs)

/-- No pair of neighbours is of two classes when a text is said to have none. -/
theorem isChain_of_hasPair {p q : Char → Bool} : ∀ {cs : List Char}, hasPair p q cs = false →
    cs.IsChain fun a b => ¬(p a ∧ q b)
  | [], _ => .nil
  | [a], _ => .singleton a
  | a :: b :: r, h => by
    simp only [hasPair, Bool.or_eq_false_iff] at h
    exact .cons_cons (fun hab => by simp [hab.1, hab.2] at h) (isChain_of_hasPair h.2)

theorem runKind_spaces {c : Char} : runKind c = .spaces ↔ c = ' ' := by
  unfold runKind
  split
  · next h => simpa using h
  · next h =>
    split <;> simpa using h

theorem runKind_breaks {c : Char} : runKind c = .breaks ↔ isBreak c := by
  unfold runKind
  split
  · next h =>
    rw [beq_iff_eq.mp h]
    simp [isBreak]
  · split <;> next h => simp [h]

theorem runKind_other {c : Char} : runKind c = .other ↔ c ≠ ' ' ∧ isBreak c = false := by
  unfold runKind
  split
  · next h => simp [beq_iff_eq.mp h]
  · next h =>
    split <;> next hb => simp [hb] <;> simpa using h

/-- What is read for a run of line breaks in single quotes. -/
def readBreaks (brs : List Char) : List Char :=
  if brs.head? == some '\x85' then foldedBreaks brs else brs.map readBreak

/-- What is read for the runs of a text in single quotes. -/
def singleRead (rs : List (List Char)) : List Char :=
  rs.flatMap fun run => if isBreak (run.headD ' ') then readBreaks run else run

theorem singleRead_cons {rs : List (List Char)} {run : List Char} {k : RunKind} (hne : run ≠ [])
    (hrun : ∀ c ∈ run, runKind c = k) :
    singleRead (run :: rs) = (if k = .breaks then readBreaks run else run) ++ singleRead rs := by
  obtain ⟨d, run', hd⟩ := List.exists_cons_of_ne_nil hne
  have hkind : runKind (run.headD ' ') = k := hrun _ (by rw [hd]; simp)
  rw [singleRead, List.flatMap_cons, ← hkind]
  simp only [runKind_breaks]
  rfl

/-- The characters of a text in one line of single quotes. -/
def singleLine (cs : List Char) : List Char :=
  cs.flatMap fun c => if c == '\'' then [c, c] else [c]

theorem singleLine_cons (c : Char) (cs : List Char) :
    singleLine (c :: cs) = (if c == '\'' then [c, c] else [c]) ++ singleLine cs :=
  List.flatMap_cons

theorem mem_of_mem_singleLine {cs : List Char} {c : Char} (h : c ∈ singleLine cs) : c ∈ cs := by
  obtain ⟨d, hd, hc⟩ := List.mem_flatMap.mp h
  split at hc <;> simp only [List.mem_cons, List.not_mem_nil, or_false, or_self] at hc <;> rwa [hc]

theorem singleLine_ne_nil {cs : List Char} (h : cs ≠ []) : singleLine cs ≠ [] := by
  obtain ⟨c, cs, rfl⟩ := List.exists_cons_of_ne_nil h
  rw [singleLine_cons]
  split <;> simp

theorem length_singleLine (cs : List Char) : (singleLine cs).length ≤ 2 * cs.length := by
  induction cs with
  | nil => exact Nat.le_refl 0
  | cons c cs ih =>
    rw [singleLine_cons, List.length_append, List.length_cons]
    have : (if c == '\'' then [c, c] else [c]).length ≤ 2 := by split <;> simp
    omega

/-- The characters `t`, drawn for runs, are read as `s`. -/
structure SingleText (rs : List (List Char)) (s t : List Char) : Prop where
  reads : ∀ r, r.head? ≠ some '\'' → Reads false (t ++ '\'' :: r) s (t.length + 1)
  ink : (∀ c ∈ rs.flatten.head?, runKind c = .other) → ∀ r, ∃ x u, t ++ '\'' :: r = x :: u ∧ isInk x

namespace SingleText

variable {rs : List (List Char)} {run s t : List Char}

theorem nil : SingleText [] [] [] :=
  ⟨fun _ hr => reads_singleEnd hr, fun _ r => ⟨'\'', r, rfl, by decide⟩⟩

/-- A run of characters that stand for themselves, the quote twice. -/
theorem other (h : SingleText rs s t) (hne : run ≠ [])
    (hrun : ∀ c ∈ run, isPlainChar c ∧ runKind c = .other) :
    SingleText (run :: rs) (run ++ s) (singleLine run ++ t) := by
  have hink : ∀ c ∈ run, isInk c := by
    intro c hc
    obtain ⟨hplain, hkind⟩ := hrun c hc
    rw [runKind_other] at hkind
    have hgap := isGap_of_isDrawn (isDrawn_of_isPlainChar hplain) hkind.2 hkind.1
    simp only [isGap, isLineStop, Bool.or_eq_false_iff] at hgap
    simp [isInk, isBlank, hgap]
  obtain ⟨c, run, rfl⟩ := List.exists_cons_of_ne_nil hne
  have hhead : ∀ r, ∃ u, singleLine (c :: run) ++ t ++ '\'' :: r = c :: u := by
    intro r
    rw [singleLine_cons]
    split <;> exact ⟨_, rfl⟩
  refine ⟨fun r hr => ?_, fun _ r => ?_⟩
  · generalize c :: run = run at hink
    clear hne hrun hhead
    induction run with
    | nil => exact h.reads r hr
    | cons d run ih =>
      have hlater := ih fun e he => hink e (List.mem_cons_of_mem d he)
      have hd := hink d List.mem_cons_self
      rw [singleLine_cons]
      by_cases hq : d = '\''
      · subst hq
        exact hlater.quote.congr (by simp) rfl (by simp)
      · rw [if_neg (by simpa using hq)]
        exact (hlater.raw hd hq).congr (by simp) rfl (by simp)
  · obtain ⟨u, hu⟩ := hhead r
    exact ⟨c, u, hu, hink c List.mem_cons_self⟩

/-- A run of spaces, kept. -/
theorem spaces (h : SingleText rs s t) (hne : run ≠ []) (hrun : ∀ c ∈ run, c = ' ')
    (hnext : ∀ c ∈ rs.flatten.head?, runKind c = .other) :
    SingleText (run :: rs) (run ++ s) (run ++ t) := by
  have hall : ∀ (run : List Char), (∀ c ∈ run, c = ' ') → ∀ r, r.head? ≠ some '\'' →
      Reads false (run ++ t ++ '\'' :: r) (run ++ s) ((run ++ t).length + 1) ∧
        calm (run ++ t ++ '\'' :: r) := by
    intro run hrun r hr
    induction run with
    | nil =>
      obtain ⟨x, u, hu, hx⟩ := h.ink hnext r
      refine ⟨h.reads r hr, ?_⟩
      rw [List.nil_append, hu]
      exact calm_cons hx
    | cons d run ih =>
      obtain rfl := hrun d List.mem_cons_self
      obtain ⟨hreads, hcalm⟩ := ih fun e he => hrun e (List.mem_cons_of_mem _ he)
      exact ⟨hreads.space hcalm, calm_space hcalm⟩
  refine ⟨fun r hr => (hall _ hrun r hr).1, fun hink => ?_⟩
  obtain ⟨c, run, rfl⟩ := List.exists_cons_of_ne_nil hne
  have := hink c (by simp)
  rw [hrun c List.mem_cons_self] at this
  simp [runKind] at this

/-- Line breaks before an indentation, in the place of a run. -/
theorem breaks {brs : List Char} {k : Nat} (h : SingleText rs s t) (hk : 0 < k)
    (hbrs : ∀ b ∈ brs, isBreak b) (hne : brs ≠ []) (hnext : ∀ c ∈ rs.flatten.head?, runKind c = .other)
    (hrun : ∃ c r, run = c :: r ∧ runKind c ≠ .other) :
    SingleText (run :: rs) (foldedBreaks brs ++ s) (brs ++ (List.replicate k ' ' ++ t)) := by
  obtain ⟨c, r, rfl, hc⟩ := hrun
  refine ⟨fun r hr => ?_, fun hink => absurd (hink c (by simp)) hc⟩
  obtain ⟨x, u, hu, hx⟩ := h.ink hnext r
  have hreads := h.reads r hr
  rw [hu] at hreads
  have := hreads.breaks hx hbrs hne hk
  rw [← hu] at this
  exact this.congr (by simp) rfl (by simp; omega)

end SingleText

/-! ## Writing -/

theorem draws_lineBreaks {brs : List Char} (p : Pen) (h : ∀ b ∈ brs, isBreak b) :
    Draws p brs (brs.foldl Pen.lineBreak p) := by
  induction brs generalizing p with
  | nil => exact .refl p
  | cons b brs ih =>
    exact (Draws.lineBreak p (h b List.mem_cons_self)).trans
      (ih _ fun b hb => h b (List.mem_cons_of_mem _ hb))

/-- The indentation after line breaks. -/
theorem draws_indent {p : Pen} {n : Nat} (hn : 0 < n) (hp : p.fresh) (hc : p.column = 0)
    (hs : p.spaced) : Draws p (List.replicate n ' ') (p.indent n) := by
  have hbreak : (!p.fresh || n < p.column || (p.column == n && !p.spaced)) = false := by
    simp [hp, hc, hs]
  have hspaces := draws_spaces p n
  unfold Pen.indent
  rw [hbreak, if_neg Bool.false_ne_true, if_pos (by rw [hc]; exact hn), hc]
  exact hspaces.congr rfl rfl rfl rfl

theorem foldl_lineBreak {brs : List Char} (hne : brs ≠ []) (p : Pen) :
    (brs.foldl Pen.lineBreak p).fresh ∧ (brs.foldl Pen.lineBreak p).column = 0 ∧
      (brs.foldl Pen.lineBreak p).spaced := by
  obtain ⟨front, last, rfl⟩ := (List.eq_nil_or_concat' brs).resolve_left hne
  rw [List.foldl_append]
  exact ⟨rfl, rfl, rfl⟩

/-- A run of line breaks is written so that it is read as line breaks. -/
theorem writeBreaks_draws {indent : Nat} (hindent : 0 < indent) (p : Pen) {brs : List Char}
    (hne : brs ≠ []) (hbrs : ∀ b ∈ brs, isBreak b) :
    ∃ brs', Draws p (brs' ++ List.replicate indent ' ') (writeBreaks p indent brs) ∧ brs' ≠ [] ∧
      (∀ b ∈ brs', isBreak b) ∧ foldedBreaks brs' = readBreaks brs := by
  have hdraws : ∀ q, Draws q (brs ++ List.replicate indent ' ')
      ((brs.foldl Pen.lineBreak q).indent indent) := by
    intro q
    obtain ⟨hfresh, hcolumn, hspaced⟩ := foldl_lineBreak hne q
    exact (draws_lineBreaks q hbrs).trans (draws_indent hindent hfresh hcolumn hspaced)
  unfold writeBreaks
  obtain ⟨b, brs, rfl⟩ := List.exists_cons_of_ne_nil hne
  by_cases hb : b = '\n'
  · subst hb
    refine ⟨'\n' :: '\n' :: brs, ?_, by simp, ?_, rfl⟩
    · exact (Draws.lineBreak p (by decide)).trans (hdraws _)
    · exact fun b hb => (List.mem_cons.mp hb).elim (fun h => by rw [h]; decide) (hbrs b)
  · refine ⟨b :: brs, ?_, hne, hbrs, ?_⟩
    · rw [if_neg (by simpa using hb)]
      exact hdraws p
    · unfold readBreaks
      split
      · rfl
      · next hnel =>
        have hread : readBreak b = b := if_neg (by simpa using hnel)
        rw [foldedBreaks, List.map_cons, hread]
        simp [folded, hb]

/-- Runs of plain characters in which no space stands next to a line break. -/
structure SingleRuns (rs : List (List Char)) : Prop where
  plain : ∀ c ∈ rs.flatten, isPlainChar c
  spaceBreak : rs.flatten.IsChain fun a b => ¬(a = ' ' ∧ isBreak b)
  breakSpace : rs.flatten.IsChain fun a b => ¬(isBreak a ∧ b = ' ')

/-- From a pen like this a run can be drawn: a new line may come, or the run begins with no space. -/
def Open (indent : Nat) (p : Pen) (rs : List (List Char)) : Prop :=
  p.fresh = false ∨ indent < p.column ∨ (indent ≤ p.column ∧ ∀ c ∈ rs.flatten.head?, c ≠ ' ')

/-- What is drawn for runs from a pen on is read as it should be. -/
def ReadsSingle (indent : Nat) (split first : Bool) (rs : List (List Char)) (p : Pen) : Prop :=
  ∃ t, Draws p t (writeSingleRuns p indent split first rs) ∧ SingleText rs (singleRead rs) t

section Runs

variable {indent : Nat} {split first : Bool} {p : Pen} {run : List Char} {rest : List (List Char)}

theorem SingleRuns.tail (h : SingleRuns (run :: rest)) : SingleRuns rest := by
  obtain ⟨hplain, hspaceBreak, hbreakSpace⟩ := h
  rw [List.flatten_cons] at hplain hspaceBreak hbreakSpace
  exact ⟨fun c hc => hplain c (List.mem_append_right run hc), (List.isChain_append.mp hspaceBreak).2.1,
    (List.isChain_append.mp hbreakSpace).2.1⟩

theorem SingleRuns.head (h : SingleRuns (run :: rest)) : ∀ c ∈ run, isPlainChar c :=
  fun c hc => h.plain c (by rw [List.flatten_cons]; exact List.mem_append_left _ hc)

/-- Between spaces and line breaks other characters stand. -/
theorem SingleRuns.next {k : RunKind} (h : SingleRuns (run :: rest)) (hne : run ≠ [])
    (hrun : ∀ c ∈ run, runKind c = k) (hnext : ∀ c ∈ rest.flatten.head?, runKind c ≠ k)
    (hk : k ≠ .other) : ∀ c ∈ rest.flatten.head?, runKind c = .other := by
  intro c hc
  obtain ⟨-, hspaceBreak, hbreakSpace⟩ := h
  rw [List.flatten_cons] at hspaceBreak hbreakSpace
  have hlast : run.getLast hne ∈ run.getLast? :=
    Option.mem_def.mpr (List.getLast?_eq_some_getLast hne)
  have hsb := (List.isChain_append.mp hspaceBreak).2.2 _ hlast c hc
  have hbs := (List.isChain_append.mp hbreakSpace).2.2 _ hlast c hc
  have hkind := hrun _ (List.getLast_mem hne)
  have hother := hnext c hc
  rw [runKind_other]
  cases k with
  | spaces =>
    rw [Ne, runKind_spaces] at hother
    exact ⟨hother, by simpa [runKind_spaces.mp hkind] using hsb⟩
  | breaks =>
    rw [Ne, runKind_breaks, Bool.not_eq_true] at hother
    exact ⟨fun h => hbs ⟨runKind_breaks.mp hkind, h⟩, hother⟩
  | other => contradiction

theorem open_of_other (hp : indent ≤ p.column) (h : ∀ c ∈ rest.flatten.head?, runKind c = .other) :
    Open indent p rest :=
  .inr (.inr ⟨hp, fun c hc => (runKind_other.mp (h c hc)).1⟩)

/-- Characters that are written move the pen on. -/
theorem Open.write {w : List Char} (hw : w ≠ []) (hp : Open indent p (run :: rest)) :
    Open indent (p.write w) rest := by
  have hlength : 0 < w.length := List.length_pos_iff.mpr hw
  rcases hp with hp | hp | hp
  · exact .inl hp
  · exact .inr (.inl (Nat.lt_add_right _ hp))
  · exact .inr (.inl (Nat.lt_of_le_of_lt hp.1 (Nat.lt_add_right_iff_pos.mpr hlength)))

/-- Spaces are written, or a line is folded in the place of one. -/
theorem readsSingle_spaces (hindent : 0 < indent) (hne : run ≠ []) (hrun : ∀ c ∈ run, c = ' ')
    (hother : ∀ c ∈ rest.flatten.head?, runKind c = .other) (hp : Open indent p (run :: rest))
    (ih : ∀ p, Open indent p rest → ReadsSingle indent split false rest p) :
    ReadsSingle indent split first (run :: rest) p := by
  have hkinds : ∀ c ∈ run, runKind c = .spaces := fun c hc => runKind_spaces.mpr (hrun c hc)
  have hhead : runKind (run.headD ' ') = .spaces := by
    obtain ⟨d, run, rfl⟩ := List.exists_cons_of_ne_nil hne
    exact hkinds d List.mem_cons_self
  rw [ReadsSingle, singleRead_cons hne hkinds, writeSingleRuns, hhead]
  simp only [reduceCtorEq, if_false]
  split
  · next hcond =>
    simp only [Bool.and_eq_true, beq_iff_eq] at hcond
    obtain ⟨d, rfl⟩ := List.length_eq_one_iff.mp hcond.1.1.1.1
    obtain rfl : d = ' ' := hrun d List.mem_cons_self
    have hline := draws_newLine (p := p) (n := indent) (by
      rcases hp with hp | hp | hp
      · exact .inl hp
      · exact .inr hp
      · exact absurd rfl (hp.2 ' ' rfl))
    have hcolumn : (p.indent indent).column = indent := by
      rw [hline.column, columnAfter_newLine]
    obtain ⟨t, hdraw, htext⟩ := ih _ (open_of_other (Nat.le_of_eq hcolumn.symm) hother)
    refine ⟨['\n'] ++ (List.replicate indent ' ' ++ t), hline.trans hdraw, ?_⟩
    exact htext.breaks hindent isBreak_lineFeed (by simp) hother ⟨' ', [], rfl, by decide⟩
  · obtain ⟨t, hdraw, htext⟩ := ih _ (hp.write hne)
    refine ⟨run ++ t, .trans (.write p (fun c hc => ?_) fun c hc => ?_) hdraw,
      htext.spaces hne hrun hother⟩
    · rw [hrun c hc]
      exact isDrawn_space
    · rw [hrun c hc]
      exact isBreak_space

/-- Line breaks are written so that they are read as such. -/
theorem readsSingle_breaks (hindent : 0 < indent) (hne : run ≠ []) (hrun : ∀ b ∈ run, isBreak b)
    (hother : ∀ c ∈ rest.flatten.head?, runKind c = .other)
    (ih : ∀ p, Open indent p rest → ReadsSingle indent split false rest p) :
    ReadsSingle indent split first (run :: rest) p := by
  have hkinds : ∀ b ∈ run, runKind b = .breaks := fun b hb => runKind_breaks.mpr (hrun b hb)
  obtain ⟨d, run', hd⟩ := List.exists_cons_of_ne_nil hne
  have hmem : d ∈ run := by
    rw [hd]
    exact List.mem_cons_self
  have hhead : runKind (run.headD ' ') = .breaks := by
    rw [hd]
    exact hkinds d hmem
  rw [ReadsSingle, singleRead_cons hne hkinds, writeSingleRuns, hhead]
  obtain ⟨brs, hbrsDraw, hbrsNe, hbrsBreak, hbrsRead⟩ := writeBreaks_draws hindent p hne hrun
  have hcolumn : (writeBreaks p indent run).column = indent := by
    rw [hbrsDraw.column, columnAfter_indent hbrsBreak hbrsNe]
  obtain ⟨t, hdraw, htext⟩ := ih _ (open_of_other (Nat.le_of_eq hcolumn.symm) hother)
  simp only [if_true]
  refine ⟨brs ++ (List.replicate indent ' ' ++ t), ?_, ?_⟩
  · have := hbrsDraw.trans hdraw
    rwa [List.append_assoc] at this
  · rw [← hbrsRead]
    exact htext.breaks hindent hbrsBreak hbrsNe hother ⟨d, run', hd, by simp [hkinds d hmem]⟩

/-- Other characters are written as they are, the quote twice. -/
theorem readsSingle_other (hne : run ≠ []) (hrun : ∀ c ∈ run, isPlainChar c ∧ runKind c = .other)
    (hp : Open indent p (run :: rest))
    (ih : ∀ p, Open indent p rest → ReadsSingle indent split false rest p) :
    ReadsSingle indent split first (run :: rest) p := by
  have hhead : runKind (run.headD ' ') = .other := by
    obtain ⟨d, run, rfl⟩ := List.exists_cons_of_ne_nil hne
    exact (hrun d List.mem_cons_self).2
  rw [ReadsSingle, singleRead_cons hne fun c hc => (hrun c hc).2, writeSingleRuns, hhead]
  obtain ⟨t, hdraw, htext⟩ := ih _ (hp.write (singleLine_ne_nil hne))
  simp only [reduceCtorEq, if_false]
  refine ⟨_, .trans (.write p (fun c hc => ?_) fun c hc => ?_) hdraw, htext.other hne hrun⟩
  · exact isDrawn_of_isPlainChar (hrun c (mem_of_mem_singleLine hc)).1
  · exact (runKind_other.mp (hrun c (mem_of_mem_singleLine hc)).2).2

end Runs

/-- What is drawn for runs of characters inside single quotes. -/
theorem writeSingleRuns_draws {indent : Nat} (hindent : 0 < indent) (split : Bool)
    {rs : List (List Char)} (h : Alternating rs) (hrs : SingleRuns rs) : ∀ (first : Bool) (p : Pen),
      Open indent p rs → ReadsSingle indent split first rs p := by
  induction h with
  | nil => exact fun first p _ => ⟨[], .refl p, .nil⟩
  | @cons k run rest hne hrun hnext _ ih =>
    intro first p hp
    have ih := ih hrs.tail false
    cases k with
    | spaces =>
      exact readsSingle_spaces hindent hne (fun c hc => runKind_spaces.mp (hrun c hc))
        (hrs.next hne hrun hnext (by simp)) hp ih
    | breaks =>
      exact readsSingle_breaks hindent hne (fun c hc => runKind_breaks.mp (hrun c hc))
        (hrs.next hne hrun hnext (by simp)) ih
    | other => exact readsSingle_other hne (fun c hc => ⟨hrs.head c hc, hrun c hc⟩) hp ih

end Yaml

end GraphPaths
