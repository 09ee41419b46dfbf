import GraphPaths.Proofs.Yaml.Lines

/-!
# Blocks

The items of a list and the entries of a mapping are drawn one a line, in one column (`Element`). The
first one opens a block if its column is deeper than that of the block around it, the others go on with
it (`Element.next`), and a line that is less deep ends it (`Element.block`).
-/

namespace GraphPaths

namespace Yaml

open Lexer

variable {n k : Nat} {p q s : Pen} {t u w : List Char} {ts us : List Token} {a b : Bool}

/-- What comes behind a text is a line no deeper than a column if it is one behind what follows. -/
def Lined (n : Nat) (u : List Char) : Prop :=
  ∀ {k : Nat} {r : List Char}, k ≤ n → Follows k r →
    ∃ k' r', u ++ (newLine k ++ r) = newLine k' ++ r' ∧ k' ≤ n ∧ Follows k' r'

theorem lined_nil (n : Nat) : Lined n [] :=
  fun {k r} hk hr => ⟨k, r, rfl, hk, hr⟩

theorem Tells.refl (n : Nat) (hp : Settled p) : Tells n p [] p true [] where
  draws := .refl p
  settled := hp
  noEnd := List.not_mem_nil
  lands _ _ _ _ _ _ _ hc _ _ hr hkey _ :=
    Arrives.of_same (same_of_newLine hkey (slack_none _) hc hr.begins)

/-- The one text after the other. -/
theorem Tells.trans (h : Tells n p t q a ts) (hu : Lined n u) (h' : Tells n q u s b us) :
    Tells n p (t ++ u) s (a && b) (ts ++ us) where
  draws := h.draws.trans h'.draws
  settled := h'.settled
  noEnd := by
    rw [List.mem_append, not_or]
    exact ⟨h.noEnd, h'.noEnd⟩
  lands {c} toks outers allow {key k r} hend hc hcolumn hk hr hkey hallow := by
    obtain ⟨k', r', hmore, hk', hr'⟩ := hu hk hr
    have hc' : c.rest = t ++ (u ++ (newLine k ++ r)) := by rw [hc, List.append_assoc]
    have hfirst := h.lands toks outers allow hend (by rw [hc', hmore]) hcolumn hk' hr' hkey hallow
    have hcolumn' := Cursor.column_forward hc' h.draws.drawn
    rw [hcolumn, ← h.draws.column] at hcolumn'
    have hsecond := h'.lands (ts.reverse ++ toks) outers true (by simpa using ⟨h.noEnd, hend⟩)
      (Cursor.rest_forward hc') hcolumn' hk hr (slack_none _)
      (fun _ => rfl)
    rw [List.length_append, Cursor.forward_add, List.reverse_append, List.append_assoc]
    exact hfirst.trans hsecond

/-- What stands behind an indicator of one character is told after the token of that indicator. -/
theorem Tells.behind {ch : Char} {p' : Pen} {x : Lexer} {c : Cursor} {toks : List Token}
    {outers : List Int} {allow : Bool} {r : List Char} (h : Tells n p' t q b ts)
    (hmark : Draws p [ch] p') (hc : c.rest = ch :: (t ++ (newLine k ++ r)))
    (hcolumn : c.column = p.column) (hx : Lands a x (outside c.next toks n outers allow none))
    (hend : .streamEnd ∉ toks) (hk : k ≤ n) (hr : Follows k r) (hallow : p'.fresh → allow) :
    Lands (a && b) x (outside (c.forward (ch :: t).length) (ts.reverse ++ toks) n outers true none) := by
  have hrest : c.next.rest = t ++ (newLine k ++ r) := by
    rw [Cursor.next_rest, hc]
    rfl
  have hcolumn' : c.next.column = p'.column :=
    (Cursor.column_forward (s := [ch]) hc hmark.drawn).trans (by rw [hcolumn, hmark.column])
  exact hx.trans (h.lands toks outers allow hend hrest hcolumn' hk hr (slack_none _) hallow)

/-! ## Elements -/

/-- A pen in a new line. -/
structure AtLine (n : Nat) (p : Pen) : Prop where
  column : p.column = n
  spaced : p.spaced
  fresh : p.fresh

/-- From the pen `p` in a line to the pen `q` an item or entry is drawn, the first one of which begins a
block with the token `start`. -/
structure Element (n : Nat) (start : Token) (p : Pen) (w : List Char) (q : Pen) (whole : Bool)
    (ts : List Token) : Prop where
  draws : Draws p w q
  settled : Settled q
  noEnd : .streamEnd ∉ ts
  follows : ∀ r, Follows n (w ++ r)
  lands : ∀ {x : Lexer} {d : Cursor} {toks : List Token} {m : Int} {outers : List Int}
    {key : Option PossibleKey} {k : Nat} {r : List Char}, .streamEnd ∉ toks →
    x.ready = .ok (outside d toks m outers true key) → d.rest = w ++ (newLine k ++ r) →
    d.column = n → m ≤ n → k ≤ n → Follows k r → Slack key d →
    Lands whole x (outside (d.forward w.length) (ts.reverse ++ (opening start m n ++ toks)) n
      (opened m n outers) true none)

variable {start : Token}

theorem atLine_indent (n : Nat) (hp : p.fresh = false) : AtLine n (p.indent n) := by
  unfold Pen.indent
  rw [hp]
  simp only [Bool.not_false, Bool.true_or, if_true]
  show AtLine n (if (p.lineBreak '\n').column < n then _ else _)
  split
  · refine ⟨?_, rfl, rfl⟩
    show 0 + (List.replicate (n - 0) ' ').length = n
    simp
  · next h =>
    obtain rfl : n = 0 := Nat.eq_zero_of_not_pos h
    exact ⟨rfl, rfl, rfl⟩

/-- An element in a new line. -/
theorem Element.next (hp : p.fresh = false) (h : Element n start (p.indent n) w q a ts) :
    Tells n p (newLine n ++ w) q a ts where
  draws := (draws_newLine (.inl hp)).trans h.draws
  settled := h.settled
  noEnd := h.noEnd
  lands {c} toks outers allow {key k r} hend hc hcolumn hk hr hkey hallow := by
    have hc' : c.rest = newLine n ++ (w ++ (newLine k ++ r)) := by rw [hc, List.append_assoc]
    have hbegins := (h.follows (newLine k ++ r)).begins
    have hready := ready_newLine toks n outers allow hkey hc' hbegins
    rw [unwind_of_le (Int.le_refl _)] at hready
    have hlands := h.lands hend hready (rest_newLine hc') (column_newLine hc') (Int.le_refl _) hk hr
      (slack_none _)
    have hlength : (newLine n ++ w).length = n + 1 + w.length := by
      simp only [newLine, List.length_append, List.length_cons, List.length_replicate]
    rw [hlength, Cursor.forward_add]
    simpa [opening, opened] using hlands

/-- The way to the first line of a block: a blank where the line may go on, else a new line. -/
def blockStart (p : Pen) (n : Nat) : List Char := if p.fresh then [' '] else newLine n

theorem parted_blockStart (p : Pen) (n : Nat) (u : List Char) : Parted (blockStart p n ++ u) := by
  unfold blockStart
  split
  · exact .inl rfl
  · exact .inr rfl

theorem draws_blockStart (hp : Behind n p) :
    Draws p (blockStart p (n + 2)) (p.indent (n + 2)) ∧ AtLine (n + 2) (p.indent (n + 2)) := by
  unfold blockStart
  cases hfresh : p.fresh with
  | false => exact ⟨draws_newLine (.inl hfresh), atLine_indent _ hfresh⟩
  | true =>
    have hcolumn := hp.first hfresh
    have hindent : p.indent (n + 2) = { p.write [' '] with spaced := true } := by
      have hbreak : (!p.fresh || decide (n + 2 < p.column) || (p.column == n + 2 && !p.spaced)) =
          false := by
        simp [hfresh, hcolumn]
      have hone : n + 2 - p.column = 1 := by omega
      unfold Pen.indent
      rw [hbreak, if_neg Bool.false_ne_true, if_pos (by omega), hone]
      rfl
    rw [hindent]
    refine ⟨(draws_spaces p 1).congr rfl rfl rfl rfl, ?_, rfl, hfresh⟩
    show p.column + 1 = n + 2
    omega

/-- The lexer comes to the first line of a block. -/
theorem ready_blockStart {c : Cursor} (toks : List Token) (outers : List Int) {allow : Bool}
    {key : Option PossibleKey} {r : List Char} (hp : Behind n p)
    (hc : c.rest = blockStart p (n + 2) ++ r) (hr : Begins r)
    (hcolumn : c.column = p.column) (hkey : Slack key c) (hallow : p.fresh → allow) :
    ∃ key', Slack key' (c.forward (blockStart p (n + 2)).length) ∧
      (c.forward (blockStart p (n + 2)).length).column = n + 2 ∧
      (outside c toks n outers allow key).ready =
        .ok (outside (c.forward (blockStart p (n + 2)).length) toks n outers true key') := by
  cases hfresh : p.fresh with
  | false =>
    rw [blockStart, hfresh, if_neg Bool.false_ne_true] at hc ⊢
    have hready := ready_newLine toks n outers allow hkey hc hr
    rw [unwind_of_le (by omega)] at hready
    have hlength : (newLine (n + 2)).length = n + 2 + 1 := by simp [newLine]
    rw [hlength]
    exact ⟨none, slack_none _, column_newLine hc, hready⟩
  | true =>
    rw [blockStart, hfresh, if_pos rfl] at hc ⊢
    have hat := Cursor.column_forward (s := [' ']) hc (by simpa using isDrawn_space)
    have hat : (c.forward 1).column = c.column + 1 := hat
    have hfirst := hp.first hfresh
    obtain ⟨key', hkey', hready⟩ := ready_spaces toks n outers allow (k := 1) hkey hc hr (by omega)
    rw [hallow hfresh] at hready ⊢
    exact ⟨key', hkey', by show (c.forward 1).column = _; omega, hready⟩

/-- Elements that open a block, and the line behind them that ends it. -/
theorem Element.block (hp : Behind n p) (h : Element (n + 2) start (p.indent (n + 2)) w q a ts)
    (hstart : start ≠ .streamEnd) (hu : Lined (n + 2) u) (h' : Tells (n + 2) q u s b us) :
    Tells n p (blockStart p (n + 2) ++ (w ++ u)) s (a && b) (start :: (ts ++ us ++ [.blockEnd])) where
  draws := (draws_blockStart hp).1.trans (h.draws.trans h'.draws)
  settled := h'.settled
  noEnd := by simpa using ⟨hstart.symm, h.noEnd, h'.noEnd⟩
  lands {c} toks outers allow {key k r} hend hc hcolumn hk hr hkey hallow := by
    obtain ⟨k', r', hmore, hk', hr'⟩ := hu (k := k) (by omega) hr
    have hc' : c.rest = blockStart p (n + 2) ++ (w ++ (u ++ (newLine k ++ r))) := by simpa using hc
    obtain ⟨key', hkey', hat, hready⟩ := ready_blockStart toks outers hp hc'
      (h.follows _).begins hcolumn hkey hallow
    have hrest := Cursor.rest_forward hc'
    generalize hd : c.forward (blockStart p (n + 2)).length = d at hkey' hat hready hrest
    have hfirst := h.lands hend hready (by rw [hrest, hmore]) hat (by omega) hk' hr' hkey'
    have hone : opening start n (n + 2) = [start] := if_pos (by omega)
    have hdeeper : opened n (n + 2) outers = (n : Int) :: outers := if_pos (by omega)
    rw [hone, hdeeper] at hfirst
    have hcolumn' := Cursor.column_forward hrest h.draws.drawn
    rw [hat, ← (draws_blockStart hp).2.column, ← h.draws.column] at hcolumn'
    have hrest' := Cursor.rest_forward hrest
    have hsecond := h'.lands (ts.reverse ++ ([start] ++ toks)) ((n : Int) :: outers) true
      (by simpa using ⟨h.noEnd, hstart.symm, hend⟩) hrest' hcolumn' (by omega) hr
      (slack_none _) (fun _ => rfl)
    have hclose := same_of_blockEnd (us.reverse ++ (ts.reverse ++ ([start] ++ toks)))
      (n := ((n + 2 : Nat) : Int)) outers true n (slack_none _) (Cursor.rest_forward hrest')
      hr.begins (by omega)
    have := (hfirst.trans hsecond).arrives (.of_same hclose)
    have hforward : c.forward (blockStart p (n + 2) ++ (w ++ u)).length =
        (d.forward w.length).forward u.length := by
      rw [List.length_append, List.length_append, Cursor.forward_add, Cursor.forward_add, hd]
    rw [hforward]
    simpa using this

/-! ## Items -/

theorem follows_of_start {u : List Char} (hu : Begins u)
    (h : ∀ c : Cursor, c.rest = u → c.atDocumentMark = false) (n : Nat) : Follows n u where
  begins := hu
  noMark c hc := by
    cases n with
    | zero => exact h c hc
    | succ n => exact Cursor.atDocumentMark_of_rest (x := ' ') hc (by decide) (by decide)

theorem behind_of_atLine (hp : AtLine n p) (indicator : String) (h : indicator.toList.length = 1) :
    Behind n (p.mark indicator true true) := by
  have hcolumn : (p.mark indicator true true).column = n + 1 := by
    simp only [Pen.mark, Pen.write, hp.spaced, Bool.true_or, if_true, hp.column, h]
  exact ⟨rfl, rfl, by omega, fun _ => hcolumn⟩

theorem lead_of_atLine (hp : AtLine n p) : lead p = [] :=
  if_pos hp.spaced

theorem draws_indicator (hp : AtLine n p) (indicator : String)
    (h : ∀ c ∈ indicator.toList, 32 ≤ c.toNat ∧ c.toNat ≤ 126) :
    Draws p indicator.toList (p.mark indicator true true) := by
  have := draws_mark p indicator h true
  rwa [lead_of_atLine hp] at this

theorem noEnd_opening {toks : List Token} {m : Int} (hstart : start ≠ .streamEnd)
    (h : .streamEnd ∉ toks) : .streamEnd ∉ opening start m n ++ toks := by
  unfold opening
  split
  · simpa using ⟨hstart.symm, h⟩
  · exact h

/-- An item behind its dash. -/
theorem element_item (hp : AtLine n p) (ht : Parted t) (h : Tells n (p.mark "-" true true) t q a ts) :
    Element n .blockSequenceStart p ('-' :: t) q a (.blockEntry :: ts) := by
  have hmark : Draws p ['-'] (p.mark "-" true true) :=
    draws_indicator hp "-" (isAscii_of_all (by decide))
  have hgap : ∀ r, isGap ((t ++ r).headD '\x00') := fun r => (stops_of_parted ht r).1
  refine ⟨hmark.trans h.draws, h.settled, by simpa using h.noEnd, fun r => ?_, ?_⟩
  · refine follows_of_start (begins_append (by decide)) (fun c hc => ?_) n
    rw [Cursor.atDocumentMark, atMark_of_second hc (head_ne_of_isGap (hgap r) (by decide)),
      atMark_of_first hc (by decide)]
    rfl
  · intro x d toks m outers key k r hend hx hd hcolumn hm hk hr hkey
    have htoken := token_blockEntry toks outers (n := m) hd (hgap _) (by omega) hkey
    rw [hcolumn] at htoken
    have hlands := h.behind (a := true) hmark hd (hcolumn.trans hp.column.symm)
      (Arrives.of_step (.of_indicator hx hd htoken rfl)) (by simpa using noEnd_opening (by simp) hend)
      hk hr (fun _ => rfl)
    simpa using hlands

/-! ## Entries -/

theorem follows_mark {ch : Char} {u : List Char} (h : isDrawn ch ∧ isInk ch ∧ ch ≠ '#')
    (hdash : ch ≠ '-') (hdot : ch ≠ '.') (n : Nat) : Follows n (ch :: u) :=
  follows_of_start (begins_append h) (fun _ hc => Cursor.atDocumentMark_of_rest hc hdash hdot) n

/-- An entry whose key stands behind a question mark. -/
theorem element_explicit (hp : AtLine n p) (hw : Parted w)
    (hkeyText : Tells n (p.mark "?" true true) w q a ts) (ht : Parted t)
    (h : Tells n ((q.indent n).mark ":" true true) t s b us) :
    Element n .blockMappingStart p ('?' :: (w ++ (newLine n ++ ':' :: t))) s (a && b)
      (.key :: (ts ++ .value :: us)) := by
  have hline := atLine_indent n hkeyText.settled.fresh
  have hquestion : Draws p ['?'] (p.mark "?" true true) :=
    draws_indicator hp "?" (isAscii_of_all (by decide))
  have hcolon : Draws (q.indent n) [':'] ((q.indent n).mark ":" true true) :=
    draws_indicator hline ":" (isAscii_of_all (by decide))
  have hnewLine := draws_newLine (n := n) (.inl hkeyText.settled.fresh)
  refine ⟨hquestion.trans (hkeyText.draws.trans (hnewLine.trans (hcolon.trans h.draws))), h.settled,
    by simpa using ⟨hkeyText.noEnd, h.noEnd⟩,
    fun r => follows_mark (by decide) (by decide) (by decide) n, ?_⟩
  intro x d toks m outers key k r hend hx hd hcolumn hm hk hr hkey
  have hcolonFollows : Follows n (':' :: (t ++ (newLine k ++ r))) :=
    follows_mark (by decide) (by decide) (by decide) n
  -- the question mark and the key
  have hd : d.rest = '?' :: (w ++ (newLine n ++ ':' :: (t ++ (newLine k ++ r)))) := by simpa using hd
  have htoken := token_explicitKey toks outers (n := m) hd (stops_of_parted hw _).1 (by omega) hkey
  rw [hcolumn] at htoken
  have hfirst := hkeyText.behind (a := true) hquestion hd (hcolumn.trans hp.column.symm)
    (Arrives.of_step (.of_indicator hx hd htoken rfl)) (by simpa using noEnd_opening (by simp) hend)
    (Nat.le_refl n) hcolonFollows (fun _ => rfl)
  have hrest : (d.forward ('?' :: w).length).rest = newLine n ++ ':' :: (t ++ (newLine k ++ r)) :=
    Cursor.rest_forward hd
  have hforward : d.forward ('?' :: (w ++ (newLine n ++ ':' :: t))).length =
      ((d.forward ('?' :: w).length).forward (n + 1)).forward (':' :: t).length := by
    rw [← Cursor.forward_add, ← Cursor.forward_add]
    simp only [newLine, List.length_cons, List.length_append, List.length_replicate]
    congr 1
    omega
  rw [hforward]
  generalize d.forward ('?' :: w).length = c at hfirst hrest ⊢
  generalize htoks : ts.reverse ++ .key :: (opening .blockMappingStart m n ++ toks) = toks' at hfirst
  -- the colon and the value
  have hready := ready_newLine toks' n (opened m n outers) true (slack_none c) hrest hcolonFollows.begins
  rw [unwind_of_le (Int.le_refl _)] at hready
  have hrest' := rest_newLine hrest
  have hat := column_newLine hrest
  have hvalue := token_value toks' (opened m n outers) (n := n) hrest' (stops_of_parted ht _).1
    (by rw [hat])
  have hend' : .streamEnd ∉ toks' := by
    rw [← htoks]
    simpa using ⟨hkeyText.noEnd, by simpa using noEnd_opening (by simp) hend⟩
  have hsecond := h.behind (a := true) hcolon hrest' (hat.trans hline.column.symm)
    (Arrives.of_step (.of_indicator hready hrest' hvalue rfl)) (by simpa using hend') hk hr
    (fun _ => rfl)
  simpa [← htoks] using hfirst.trans hsecond

/-! ## Keys in front of a colon -/

section Key

variable {site : Site} {c : Cursor} {toks : List Token} {m : Int} {outers : List Int} {allow : Bool}
  {key key' key'' : Option PossibleKey} {r : List Char}

theorem follows_key (hs : SiteText site w) (r : List Char) (n : Nat) :
    Follows n (w ++ ':' :: r) := by
  obtain ⟨x, u, hw, hx⟩ := hs.head
  refine follows_of_start (by rw [hw]; exact begins_append hx) (fun c hc => ?_) n
  by_cases hstyle : site.style = .plain
  · obtain ⟨hne, htraits⟩ := site.plain_of_style_eq hstyle
    have hstart := plainStart_of_plain hne htraits (hs.plain hstyle)
    rw [Cursor.atDocumentMark, Cursor.atMark, Cursor.atMark, hc, hstart.start _ (by simp),
      hstart.stop _ (by simp)]
    rfl
  · have hquote : x = '\'' ∨ x = '"' := by simpa [hw] using (hs.quoted hstyle).head
    rw [hw] at hc
    refine Cursor.atDocumentMark_of_rest hc ?_ ?_ <;> rcases hquote with rfl | rfl <;> decide

variable (toks outers allow) in
/-- The token of a text in front of a colon. -/
theorem token_site (hs : SiteText site w) (hpos : 0 < site.indent) (hindent : m + 1 ≤ site.indent)
    (hc : c.rest = w ++ ':' :: r) (hr : isGap (r.headD '\x00')) (hm : m ≤ c.column)
    (hkey : Slack key c) : (outside c toks m outers allow key).token =
      .ok (outside (c.forward w.length) (.scalar site.readBack (site.style == .plain) :: toks) m outers
        false (saved c toks.length m allow key)) := by
  by_cases hstyle : site.style = .plain
  · obtain ⟨hne, htraits⟩ := site.plain_of_style_eq hstyle
    have hstart := plainStart_of_plain hne htraits (hs.plain hstyle)
    have := token_plain toks outers allow hpos hindent hm hstart (hs.plain hstyle)
      (plainEnd_colon _ hr) hc (by simp) hkey
    rw [flatten_runs, String.ofList_toList] at this
    rw [Site.readBack, hstyle]
    exact this
  · rw [beq_eq_false_iff_ne.mpr hstyle]
    exact token_quoted (hs.quoted hstyle) hc (by simp) hkey

variable (toks outers allow key) in
/-- At the next token nothing changes but the possible key. -/
theorem ready_of_fresh (hc : Begins c.rest) (h : fresh c key = .ok key')
    (h' : fresh c key' = .ok key'') (hm : m ≤ c.column) :
    (outside c toks m outers allow key).ready = .ok (outside c toks m outers allow key'') := by
  have hplace : (outside c toks m outers allow key').place = (allow, c) :=
    place_spaces (k := 0) rfl hc
  unfold ready
  rw [dropStale_outside, h]
  show advance (outside c toks m outers allow key') = _
  rw [advance_eq, hplace]
  show (dropStale (outside c toks m outers allow key')).map _ = _
  rw [dropStale_outside, h']
  show Except.ok (unwind _ outers (outside c toks m outers allow key'')) = _
  rw [unwind_of_le hm]

variable (toks outers) in
/-- The colon behind a possible key makes it one if it is not too far back. -/
theorem lands_colon {K : PossibleKey} (t : Token) {whole : Bool} (hc : c.rest = ':' :: r)
    (hr : isGap (r.headD '\x00')) (hnumber : K.number = toks.length) (hline : K.line = c.line)
    (hindex : whole ↔ c.index - K.index ≤ 1024) (hm : m ≤ K.column) (hcolumn : K.column ≤ c.column)
    (hend : .streamEnd ∉ t :: toks) :
    Lands whole (outside c (t :: toks) m outers false (some K))
      (outside c.next (.value :: t :: .key :: (opening .blockMappingStart m K.column ++ toks)) K.column
        (opened m K.column outers) false none) := by
  have hbegins : Begins c.rest := by
    rw [hc]
    exact begins_append (by decide)
  have hsame : (K.line == c.line) = true := by rw [hline]; exact beq_self_eq_true _
  cases whole with
  | true =>
    have hnear : c.index - K.index ≤ 1024 := hindex.mp rfl
    have hfresh : fresh c (some K) = .ok (some K) := by simp [fresh, hsame, hnear]
    have hready := ready_of_fresh (t :: toks) outers false (some K) hbegins hfresh hfresh (m := m)
      (by omega)
    exact Arrives.of_step (.of_indicator hready hc (token_value_of_key hc hr hnumber hm t) rfl)
  | false =>
    have hfar : ¬c.index - K.index ≤ 1024 := fun h => by simpa using hindex.mpr h
    refine ⟨_, .refl, hend, ?_⟩
    cases hrequired : K.required with
    | true =>
      have hfresh : fresh c (some K) = .error .malformed := by simp [fresh, hfar, hrequired]
      refine .inl ⟨.malformed, ?_⟩
      unfold ready
      rw [dropStale_outside, hfresh]
      rfl
    | false =>
      have hfresh : fresh c (some K) = .ok none := by simp [fresh, hfar, hrequired]
      have hready := ready_of_fresh (t :: toks) outers false (some K) hbegins hfresh rfl (m := m)
        (by omega)
      refine .inr ⟨_, .malformed, hready, ?_, token_value_of_none hc hr⟩
      show c.rest ≠ []
      rw [hc]
      simp

/-- An entry whose key stands before a colon in one line. -/
theorem element_simple (hp : AtLine n p) (hs : SiteText site w) (hkey : site.key)
    (hindent : n < site.indent) (hdraws : Draws p w q) (ht : Parted t)
    (h : Tells n (q.mark ":" false false) t s b us) :
    Element n .blockMappingStart p (w ++ ':' :: t) s (site.fits && b)
      (.key :: .scalar site.readBack (site.style == .plain) :: .value :: us) := by
  have hcolon : Draws q [':'] (q.mark ":" false false) :=
    draws_mark_close q ":" (isAscii_of_all (by decide)) false
  refine ⟨hdraws.trans (hcolon.trans h.draws), h.settled, by simpa using h.noEnd, fun r => ?_, ?_⟩
  · rw [List.append_assoc]
    exact follows_key hs (t ++ r) n
  intro x d toks m outers key k r hend hx hd hcolumn hm hk hr hslack
  have hd : d.rest = w ++ ':' :: (t ++ (newLine k ++ r)) := by simpa using hd
  have hgap := (stops_of_parted ht (newLine k ++ r)).1
  -- the key
  have htoken := token_site toks outers true hs (m := m) (by omega) (by omega) hd hgap (by omega)
    hslack
  have hrest := Cursor.rest_forward hd
  obtain ⟨y, u, hw, -⟩ := hs.head
  have hstep : Step x (outside (d.forward w.length)
      (.scalar site.readBack (site.style == .plain) :: toks) m outers false
      (some ⟨toks.length, m == d.column, d.index, d.line, d.column⟩)) :=
    .of_token hx hd (by rw [hw]; simp) htoken hrest
  -- the colon
  have hline : (d.forward w.length).line = d.line := by
    have hnone : w.countP isBreak = 0 :=
      List.countP_eq_zero.mpr fun y hy => by rw [hs.line hkey y hy]; exact Bool.false_ne_true
    rw [Cursor.line_forward hd hdraws.drawn, hnone, Nat.add_zero]
  have hcolumn₁ := Cursor.column_forward hd hdraws.drawn
  have hlength : (d.forward w.length).column = d.column + w.length := by
    rw [hcolumn₁, columnAfter_of_line (hs.line hkey)]
  have hvalue := lands_colon toks outers (K := ⟨toks.length, m == d.column, d.index, d.line, d.column⟩)
    (.scalar site.readBack (site.style == .plain)) hrest hgap rfl hline.symm
    (by
      rw [Cursor.index_forward hd hdraws.drawn, Nat.add_sub_cancel_left]
      exact (hs.fits hkey).symm)
    (m := m) (by show m ≤ d.column; omega) (by show d.column ≤ _; omega) (by simpa using hend)
  -- the value
  rw [hcolumn] at hvalue hstep
  have hlands := h.behind hcolon hrest (hcolumn₁.trans (by rw [hdraws.column, hp.column, hcolumn])) hvalue
    (by simpa using noEnd_opening (by simp) hend) hk hr (fun hfresh => absurd hfresh (by simp [Pen.mark]))
  have hforward : d.forward (w ++ ':' :: t).length =
      (d.forward w.length).forward (':' :: t).length := by
    rw [List.length_append, Cursor.forward_add]
  rw [hforward]
  simpa using (Arrives.of_step hstep).lands hlands

end Key

end Yaml

end GraphPaths
