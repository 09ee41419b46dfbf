import GraphPaths.Proofs.Yaml.Marks
import GraphPaths.Proofs.Yaml.Outline

/-!
# From lines to tokens

A pen draws a node from the end of an indicator on, and behind the node comes a new line (`Follows`).
What is drawn there for an outline the lexer takes for its tokens, or it breaks at a key that does not
fit (`Tells`).
-/

namespace GraphPaths

namespace Yaml

open Lexer

/-- What comes in a new line behind a node: the next token, or the end of the text. -/
structure Follows (k : Nat) (r : List Char) : Prop where
  begins : Begins r
  noMark : ∀ c : Cursor, c.rest = List.replicate k ' ' ++ r → c.atDocumentMark = false

namespace Lexer

variable {c d : Cursor} {toks : List Token} {n k : Nat} {outers : List Int} {allow : Bool}
  {key : Option PossibleKey} {r : List Char} {x : Lexer}

/-- A token in front of a new line. -/
theorem arrives_token {w : List Char} {t : Token}
    (hx : x.ready = .ok (outside d toks n outers allow key)) (hd : d.rest = w ++ (newLine k ++ r))
    (hw : ∀ x ∈ w, isDrawn x) (hne : w ≠ []) (hn : n < d.column) (hr : Follows k r) (hkey : Slack key d)
    (htoken : (outside d toks n outers allow key).token =
      .ok (outside (d.forward w.length) (t :: toks) n outers false (saved d toks.length n allow key))) :
    Arrives x (outside (d.forward w.length) (t :: toks) n outers true none) := by
  have hrest := Cursor.rest_forward hd
  have hsaved : Slack (saved d toks.length n allow key) (d.forward w.length) :=
    (slack_saved hkey (by omega) toks.length).forward hd hw
  have hstep : Step x
      (outside (d.forward w.length) (t :: toks) n outers false (saved d toks.length n allow key)) :=
    .of_token hx hd hne htoken hrest
  exact (Arrives.of_step hstep).trans
    (.of_same (same_of_newLine hsaved (slack_none _) hrest hr.begins))

theorem head_newLine (k : Nat) (r : List Char) : (newLine k ++ r).head? = some '\n' :=
  rfl

theorem arrives_quoted {t : List Char} {u : String} (ht : Quoted t u) (hdrawn : ∀ x ∈ t, isDrawn x)
    (hx : x.ready = .ok (outside d toks n outers allow key)) (hd : d.rest = t ++ (newLine k ++ r))
    (hn : n < d.column) (hr : Follows k r) (hkey : Slack key d) :
    Arrives x (outside (d.forward t.length) (.scalar u false :: toks) n outers true none) := by
  have hne : t ≠ [] := by
    rintro rfl
    simpa using ht.head
  exact arrives_token hx hd hdrawn hne hn hr hkey
    (token_quoted ht hd (by rw [head_newLine]; simp) hkey)

theorem drawn_of_plainText {indent : Nat} {rs : List (List Char)} {t : List Char}
    (h : PlainText indent rs t) : ∀ x ∈ t, isDrawn x := by
  induction h with
  | one hw => exact hw.drawn
  | kept hw hs hspaces h ih =>
    intro x hx
    rcases List.mem_append.mp hx with hx | hx
    · exact hw.drawn x hx
    · rcases List.mem_append.mp hx with hx | hx
      · rw [hspaces x hx]
        exact isDrawn_space
      · exact ih x hx
  | folded hw h ih =>
    intro x hx
    rcases List.mem_append.mp hx with hx | hx
    · exact hw.drawn x hx
    · rcases List.mem_append.mp hx with hx | hx
      · exact drawn_newLine _ x hx
      · exact ih x hx

theorem arrives_plain {indent : Nat} {cs t : List Char} (hne : cs ≠ []) (hplain : (Traits.of cs).plain)
    (ht : PlainText indent (runs cs) t) (hindent : n < indent)
    (hx : x.ready = .ok (outside d toks n outers allow key)) (hd : d.rest = t ++ (newLine k ++ r))
    (hn : n < d.column) (hk : k ≤ n) (hr : Follows k r) (hkey : Slack key d) :
    Arrives x
      (outside (d.forward t.length) (.scalar (String.ofList cs) true :: toks) n outers true none) := by
  have hend : PlainEnd ((n : Int) + 1) (newLine k ++ r) true (k + 1) := by
    refine plainEnd_newLine (by omega) ?_ ?_ hr.noMark
    · intro h
      have := (hr.begins ' ' h).2.1
      exact absurd this (by decide)
    · intro y hy
      have := (hr.begins y hy).2.1
      simp only [isInk, Bool.and_eq_true, Bool.not_eq_true'] at this
      exact this.2
  have htoken := token_plain toks outers allow (by omega) (by omega) (by omega)
    (plainStart_of_plain hne hplain ht) ht hend hd
    (by rw [head_newLine]; simp) hkey
  rw [flatten_runs] at htoken
  have hdrawn := drawn_of_plainText ht
  have hrest := Cursor.rest_forward hd
  have hsaved : Slack (saved d toks.length n allow key) (d.forward t.length) :=
    (slack_saved hkey (by omega) toks.length).forward hd hdrawn
  have hlength : t ≠ [] := by
    obtain ⟨y, u, rfl, -⟩ := ht.head
    simp
  have hstep : Step x (outside (d.forward (t.length + (k + 1)))
      (.scalar (String.ofList cs) true :: toks) n outers true (saved d toks.length n allow key)) := by
    have hd' : d.rest = (t ++ newLine k) ++ r := by rw [hd, List.append_assoc]
    refine .of_token hx hd' (by simp [hlength]) htoken ?_
    show (d.forward (t.length + (k + 1))).rest = r
    rw [Cursor.forward_add]
    exact rest_newLine hrest
  rw [Cursor.forward_add] at hstep
  exact (Arrives.of_step hstep).trans (.of_same (same_behind_newLine hsaved hrest hr.begins))

/-- The token of a text in front of a new line. -/
theorem arrives_site {s : Site} {t : List Char} (hs : SiteText s t) (hdrawn : ∀ x ∈ t, isDrawn x)
    (hindent : n < s.indent) (hx : x.ready = .ok (outside d toks n outers allow key))
    (hd : d.rest = t ++ (newLine k ++ r)) (hn : n < d.column) (hk : k ≤ n) (hr : Follows k r)
    (hkey : Slack key d) : Arrives x (outside (d.forward t.length)
      (.scalar s.readBack (s.style == .plain) :: toks) n outers true none) := by
  by_cases hstyle : s.style = .plain
  · obtain ⟨hne, htraits⟩ := s.plain_of_style_eq hstyle
    have := arrives_plain hne htraits (hs.plain hstyle) hindent hx hd hn hk hr hkey
    rw [String.ofList_toList] at this
    rw [Site.readBack, hstyle]
    exact this
  · have := arrives_quoted (hs.quoted hstyle) hdrawn hx hd hn hr hkey
    rwa [beq_eq_false_iff_ne.mpr hstyle]

end Lexer

/-! ## Nodes in one line -/

/-- From the pen `p` to the pen `q` a text is drawn that the lexer, in a block of the column `n`, takes
for some tokens, or breaks at. -/
structure Tells (n : Nat) (p : Pen) (t : List Char) (q : Pen) (whole : Bool) (ts : List Token) :
    Prop where
  draws : Draws p t q
  settled : Settled q
  noEnd : .streamEnd ∉ ts
  lands : ∀ {c : Cursor} (toks : List Token) (outers : List Int) (allow : Bool)
    {key : Option PossibleKey} {k : Nat} {r : List Char}, .streamEnd ∉ toks →
    c.rest = t ++ (newLine k ++ r) → c.column = p.column → k ≤ n → Follows k r → Slack key c →
    (p.fresh → allow) → Lands whole (outside c toks n outers allow key)
      (outside (c.forward t.length) (ts.reverse ++ toks) n outers true none)

/-- A pen behind an indicator in a line of a block of the column `n`. -/
structure Behind (n : Nat) (p : Pen) : Prop where
  spaced : p.spaced = false
  closed : p.openEnded = false
  deep : n < p.column
  first : p.fresh → p.column = n + 1

/-- The text of a node begins with a blank or a new line. -/
def Parted (t : List Char) : Prop := t.head? = some ' ' ∨ t.head? = some '\n'

variable {n : Nat} {p q : Pen} {w : List Char} {ts : List Token}

theorem begins_append {a : Char} {u : List Char} (h : isDrawn a ∧ isInk a ∧ a ≠ '#') :
    Begins (a :: u) := by
  intro x hx
  obtain rfl : a = x := by simpa using hx
  exact h

theorem head_of_plainStart (h : PlainStart w) :
    ∃ a u, w = a :: u ∧ isDrawn a ∧ isInk a ∧ a ≠ '#' := by
  obtain ⟨a, u, rfl, hdrawn, hgap, hlead, -⟩ := h.head
  refine ⟨a, u, rfl, hdrawn, ?_, ?_⟩
  · simp only [isGap, isLineStop, Bool.or_eq_false_iff] at hgap
    simp [isInk, isBlank, hgap]
  · rintro rfl
    exact absurd hlead (by decide)

/-- One token behind a blank. -/
theorem tells_of_arrives (hp : Behind n p) (hdraws : Draws p (lead p ++ w) q)
    (hq : Settled q)
    (hw : ∃ a u, w = a :: u ∧ isDrawn a ∧ isInk a ∧ a ≠ '#') (hend : .streamEnd ∉ ts)
    (h : ∀ {x : Lexer} {d : Cursor} {toks : List Token} {outers : List Int} {allow : Bool}
      {key : Option PossibleKey} {k : Nat} {r : List Char},
      x.ready = .ok (outside d toks n outers allow key) → d.rest = w ++ (newLine k ++ r) →
      n < d.column → k ≤ n → Follows k r → Slack key d →
      Arrives x (outside (d.forward w.length) (ts.reverse ++ toks) n outers true none)) :
    Tells n p (' ' :: w) q true ts where
  draws := by
    rw [lead, hp.spaced] at hdraws
    exact hdraws
  settled := hq
  noEnd := hend
  lands {c} toks outers allow {key k r} hend hc hcolumn hk hr hkey _ := by
    obtain ⟨a, u, rfl, ha⟩ := hw
    have hbegins : Begins (a :: u ++ (newLine k ++ r)) := begins_append ha
    have hspace : c.rest = List.replicate 1 ' ' ++ (a :: u ++ (newLine k ++ r)) := hc
    have hat : (c.forward 1).column = c.column + 1 :=
      Cursor.column_forward (c := c) (s := [' ']) (r := a :: u ++ (newLine k ++ r)) hc
        (by simpa using isDrawn_space)
    have hdeep := hp.deep
    obtain ⟨key', hkey', hready⟩ := ready_spaces toks n outers allow hkey hspace hbegins
      (by omega)
    have hrest : (c.forward 1).rest = a :: u ++ (newLine k ++ r) := by
      rw [Cursor.forward_rest, hc]
      rfl
    exact h (d := c.forward 1) hready hrest (by omega) hk hr hkey'

/-- What is drawn for a text begins with a character that begins a token. -/
theorem SiteText.head {s : Site} (hs : SiteText s w) :
    ∃ a u, w = a :: u ∧ isDrawn a ∧ isInk a ∧ a ≠ '#' := by
  by_cases hstyle : s.style = .plain
  · obtain ⟨hne, htraits⟩ := s.plain_of_style_eq hstyle
    exact head_of_plainStart (plainStart_of_plain hne htraits (hs.plain hstyle))
  · have hhead := (hs.quoted hstyle).head
    cases w with
    | nil => simp at hhead
    | cons a u =>
      refine ⟨a, u, rfl, ?_⟩
      rcases hhead with h | h
      · obtain rfl : a = '\'' := by simpa using h
        decide
      · obtain rfl : a = '"' := by simpa using h
        decide

theorem tells_text {s : Site} (hs : SiteText s w) (hkey : s.key = false) (hindent : n < s.indent)
    (hp : Behind n p) (hdraws : Draws p (lead p ++ w) q) (hq : Settled q) :
    Tells n p (' ' :: w) q s.fits [.scalar s.readBack (s.style == .plain)] := by
  have hfits : s.fits = true := by rw [Site.fits, hkey]; rfl
  have hdrawn : ∀ x ∈ w, isDrawn x := fun x hx => hdraws.drawn x (List.mem_append_right _ hx)
  rw [hfits]
  exact tells_of_arrives hp hdraws hq hs.head (by simp) fun hx hd hn hk hr hkey =>
    arrives_site hs hdrawn hindent hx hd hn hk hr hkey

theorem tells_plain {indent : Nat} {cs : List Char} (hne : cs ≠ []) (hplain : (Traits.of cs).plain)
    (hw : PlainText indent (runs cs) w) (hindent : n < indent) (hp : Behind n p)
    (hdraws : Draws p (lead p ++ w) q) (hq : Settled q) :
    Tells n p (' ' :: w) q true [.scalar (String.ofList cs) true] :=
  tells_of_arrives hp hdraws hq (head_of_plainStart (plainStart_of_plain hne hplain hw)) (by simp)
    fun hx hd hn hk hr hkey => arrives_plain hne hplain hw hindent hx hd hn hk hr hkey

/-- Empty brackets. -/
theorem tells_brackets {indicator : String} {start stop : Token}
    (h : (indicator = "[]" ∧ start = .flowSequenceStart ∧ stop = .flowSequenceEnd) ∨
      (indicator = "\x7b\x7d" ∧ start = .flowMappingStart ∧ stop = .flowMappingEnd))
    (hp : Behind n p) :
    Tells n p (' ' :: indicator.toList) (p.mark indicator true false) true [start, stop] := by
  have hascii : ∀ c ∈ indicator.toList, 32 ≤ c.toNat ∧ c.toNat ≤ 126 := by
    rcases h with ⟨rfl, -⟩ | ⟨rfl, -⟩ <;> exact isAscii_of_all (by decide)
  have hchars : ∃ a b, indicator.toList = [a, b] ∧ isDrawn a ∧ isInk a ∧ a ≠ '#' ∧
      ((a = '[' ∧ b = ']' ∧ start = .flowSequenceStart ∧ stop = .flowSequenceEnd) ∨
        (a = '\x7b' ∧ b = '\x7d' ∧ start = .flowMappingStart ∧ stop = .flowMappingEnd)) := by
    rcases h with ⟨rfl, rfl, rfl⟩ | ⟨rfl, rfl, rfl⟩
    · exact ⟨'[', ']', by decide⟩
    · exact ⟨'\x7b', '\x7d', by decide⟩
  obtain ⟨a, b, hab, hdrawn, hink, hsharp, hkind⟩ := hchars
  have hdraws := draws_mark p _ hascii false
  rw [hab] at hdraws ⊢
  refine tells_of_arrives hp hdraws ⟨Bool.and_false _, rfl, rfl⟩ ⟨a, [b], rfl, hdrawn, hink, hsharp⟩
    ?_ fun hx hd hn hk hr hkey => ?_
  · rcases h with ⟨-, rfl, rfl⟩ | ⟨-, rfl, rfl⟩ <;> simp
  obtain ⟨key', hkey', harrives⟩ := arrives_brackets hkind hd hkey (by omega) hx
  exact harrives.trans (.of_same (same_of_newLine hkey' (slack_none _) (Cursor.rest_forward hd) hr.begins))

/-! ## Anchors and aliases -/

/-- The name of an anchor or an alias. -/
structure IsName (word : List Char) : Prop where
  ne : word ≠ []
  chars : ∀ x ∈ word, isNameChar x

theorem isAscii_of_isNameChar {x : Char} (h : isNameChar x) : 32 ≤ x.toNat ∧ x.toNat ≤ 126 := by
  simp only [isNameChar, Bool.or_eq_true, Bool.and_eq_true, decide_eq_true_eq, beq_iff_eq,
    Text.charLe_iff, Text.charEq_iff, Char.reduceToNat] at h
  omega

theorem isAscii_marked {a name : String} (ha : ∀ c ∈ a.toList, 32 ≤ c.toNat ∧ c.toNat ≤ 126)
    (hname : IsName name.toList) : ∀ c ∈ (a ++ name).toList, 32 ≤ c.toNat ∧ c.toNat ≤ 126 := by
  intro c hc
  rw [String.toList_append] at hc
  exact (List.mem_append.mp hc).elim (ha c) fun hc => isAscii_of_isNameChar (hname.chars c hc)

theorem stops_of_parted {u : List Char} (h : Parted u) (r : List Char) :
    isGap ((u ++ r).headD '\x00') ∧ ∀ x ∈ (u ++ r).head?, isNameChar x = false := by
  cases u with
  | nil => simp [Parted] at h
  | cons a u =>
    have : a = ' ' ∨ a = '\n' := by simpa [Parted] using h
    rcases this with rfl | rfl <;> exact ⟨rfl, by simp; decide⟩

/-- An alias. -/
theorem tells_alias {name : String} (hname : IsName name.toList) (hp : Behind n p) :
    Tells n p (' ' :: '*' :: name.toList) (p.mark ("*" ++ name) true false) true [.alias name] := by
  have hascii := isAscii_marked (a := "*") (isAscii_of_all (by decide)) hname
  have hdraws := draws_mark p _ hascii false
  rw [String.toList_append] at hdraws
  refine tells_of_arrives hp hdraws ⟨Bool.and_false _, rfl, rfl⟩ ⟨'*', name.toList, rfl, by decide⟩
    (by simp) fun {x d toks outers allow key k r} hx hd hn hk hr hkey => ?_
  have hstop := stops_of_parted (u := newLine k) (.inr rfl) r
  have htoken := token_alias toks n outers allow hd hname.ne hname.chars hstop.1 hstop.2 hkey
  rw [String.ofList_toList] at htoken
  exact arrives_token hx hd (fun y hy => hdraws.drawn y (List.mem_append_right _ hy)) (by simp) hn hr
    hkey htoken

theorem behind_mark {indicator : String} (hp : Behind n p) :
    Behind n (p.mark indicator true false) where
  spaced := rfl
  closed := rfl
  deep := by
    have := hp.deep
    unfold Pen.mark Pen.write
    split <;> exact Nat.lt_of_lt_of_le this (Nat.le_add_right _ _)
  first h := absurd h (by simp [Pen.mark])

/-- An anchor in front of a node. -/
theorem tells_anchor {name : String} {t : List Char} {whole : Bool} (hname : IsName name.toList)
    (hp : Behind n p) (ht : Parted t)
    (h : Tells n (p.mark ("&" ++ name) true false) t q whole ts) :
    Tells n p (' ' :: '&' :: (name.toList ++ t)) q whole (.anchor name :: ts) := by
  have hascii := isAscii_marked (a := "&") (isAscii_of_all (by decide)) hname
  have hmark := draws_mark p _ hascii false
  rw [lead, hp.spaced, String.toList_append] at hmark
  have hmark : Draws p (' ' :: '&' :: name.toList) (p.mark ("&" ++ name) true false) := hmark
  refine ⟨hmark.trans h.draws, h.settled, by simpa using h.noEnd, ?_⟩
  intro c toks outers allow key k r hend hc hcolumn hk hr hkey _
  have hbegins : Begins ('&' :: (name.toList ++ (t ++ (newLine k ++ r)))) := begins_append (by decide)
  have hspace : c.rest = List.replicate 1 ' ' ++ '&' :: (name.toList ++ (t ++ (newLine k ++ r))) := by
    simpa using hc
  have hat : (c.forward 1).column = c.column + 1 :=
    Cursor.column_forward (c := c) (s := [' ']) hspace (by simpa using isDrawn_space)
  have hdeep := hp.deep
  obtain ⟨key', hkey', hready⟩ := ready_spaces toks n outers allow hkey hspace hbegins
    (by omega)
  have hrest : (c.forward 1).rest = '&' :: (name.toList ++ (t ++ (newLine k ++ r))) := by
    rw [Cursor.forward_rest, hspace]
    rfl
  have hstop := stops_of_parted ht (newLine k ++ r)
  have htoken := token_anchor toks n outers allow hrest hname.ne hname.chars hstop.1 hstop.2
    hkey'
  rw [String.ofList_toList, ← Cursor.forward_add] at htoken
  have hbehind : c.rest = (' ' :: '&' :: name.toList) ++ (t ++ (newLine k ++ r)) := by simpa using hc
  have hlength : (' ' :: '&' :: name.toList).length = 1 + (name.toList.length + 1) := by
    simp only [List.length_cons]
    omega
  have hnext := Cursor.rest_forward hbehind
  have hcolumn' := Cursor.column_forward hbehind hmark.drawn
  rw [hcolumn, ← hmark.column] at hcolumn'
  have hsaved : Slack (saved (c.forward 1) toks.length n allow key')
      (c.forward (1 + (name.toList.length + 1))) := by
    rw [Cursor.forward_add]
    refine (slack_saved hkey' (by omega) toks.length).forward (s := '&' :: name.toList) hrest ?_
    exact fun y hy => hmark.drawn y (List.mem_cons_of_mem _ hy)
  rw [hlength] at hnext hcolumn'
  have hstep : Step (outside c toks n outers allow key)
      (outside (c.forward (1 + (name.toList.length + 1))) (.anchor name :: toks) n outers false
        (saved (c.forward 1) toks.length n allow key')) :=
    .of_token (w := '&' :: name.toList) hready hrest (by simp) htoken hnext
  have hinner := h.lands (.anchor name :: toks) outers false (by simpa using hend)
    hnext hcolumn' hk hr hsaved (fun hfresh => absurd hfresh (by simp [Pen.mark]))
  have hforward : c.forward (' ' :: '&' :: (name.toList ++ t)).length =
      (c.forward (1 + (name.toList.length + 1))).forward t.length := by
    rw [← Cursor.forward_add]
    simp only [List.length_cons, List.length_append]
    congr 1
    omega
  rw [hforward, List.reverse_cons, List.append_assoc]
  exact (Arrives.of_step hstep).lands hinner

end Yaml

end GraphPaths
