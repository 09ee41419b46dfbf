import GraphPaths.Proofs.Yaml.Quoted
import GraphPaths.Proofs.Yaml.Scan

/-!
# The lexer between tokens

Outside brackets a lexer is told by its cursor, its tokens and its blocks (`outside`), for a possible
key that the indentation does not require is forgotten in the next line (`Slack`). The lemmas here say
what the next token is by the characters that come next.
-/

namespace GraphPaths

namespace Yaml

/-- The start of a token: no gap, no comment. -/
def Begins (r : List Char) : Prop := ∀ x ∈ r.head?, isDrawn x ∧ isInk x ∧ x ≠ '#'

namespace Lexer

/-- A lexer outside brackets. -/
def outside (c : Cursor) (toks : List Token) (n : Int) (outers : List Int) (allow : Bool)
    (key : Option PossibleKey) : Lexer :=
  ⟨c, toks, toks.length, n, outers, allow, key, []⟩

/-- A possible key, if there is one, is not required and stands in no later line. -/
def Slack (key : Option PossibleKey) (c : Cursor) : Prop :=
  ∀ k ∈ key, k.required = false ∧ k.line ≤ c.line

variable {c : Cursor} {toks : List Token} {n : Int} {outers : List Int} {allow : Bool}
  {key : Option PossibleKey} {r : List Char} {k : Nat}

theorem slack_none (c : Cursor) : Slack none c :=
  nofun

/-- The lines of drawn characters only grow. -/
theorem Slack.forward {s : List Char} (h : Slack key c) (hc : c.rest = s ++ r)
    (hd : ∀ x ∈ s, isDrawn x) : Slack key (c.forward s.length) := by
  intro k hk
  rw [Cursor.line_forward hc hd]
  exact ⟨(h k hk).1, Nat.le_add_right_of_le (h k hk).2⟩

theorem fresh_of_slack (h : Slack key c) : ∃ key', fresh c key = .ok key' ∧ Slack key' c := by
  cases key with
  | none => exact ⟨none, rfl, h⟩
  | some k =>
    unfold fresh
    simp only [(h k rfl).1]
    split
    · exact ⟨some k, rfl, h⟩
    · exact ⟨none, rfl, slack_none c⟩

/-- A key that is not required is forgotten in a later line. -/
theorem fresh_of_later {d : Cursor} (h : Slack key c) (hd : c.line < d.line) :
    fresh d key = .ok none := by
  cases key with
  | none => rfl
  | some k =>
    have hline : (k.line == d.line) = false := by
      have := (h k rfl).2
      rw [beq_eq_false_iff_ne]
      omega
    unfold fresh
    simp only [hline, (h k rfl).1, Bool.false_and]
    rfl

theorem dropStale_outside : (outside c toks n outers allow key).dropStale =
    (fresh c key).map fun key => outside c toks n outers allow key := by
  show (fresh c key >>= fun key => .ok (outside c toks n outers allow key)) = _
  cases fresh c key <;> rfl

/-! ## The next token's place -/

theorem begun_of_rest (h : ∀ x ∈ c.rest.head?, isDrawn x) : begun c = c := by
  have hpeek : (c.peek == '\ufeff') = false := by
    rw [Cursor.peek]
    cases hc : c.rest with
    | nil => rfl
    | cons x r =>
      have hx := h x (by rw [hc]; rfl)
      rw [beq_eq_false_iff_ne]
      rintro rfl
      simp [isDrawn] at hx
  simp [begun, hpeek]

theorem skip_of_rest (inFlow : Bool) (fuel : Nat) (allow : Bool)
    (hc : c.rest = List.replicate k ' ' ++ r) (hr : Begins r) :
    skip inFlow (fuel + 1) allow c = (allow, c.forward k) := by
  have hspaces : c.skipSpaces = c.forward k := by
    unfold Cursor.skipSpaces Cursor.skipWhile
    rw [Cursor.takeWhile_of_rest hc (fun x hx => by rw [List.eq_of_mem_replicate hx]; rfl),
      List.length_replicate]
    intro x hx
    have := (hr x hx).2.1
    simp only [isInk, isBlank, Bool.and_eq_true, Bool.not_eq_true', Bool.or_eq_false_iff] at this
    exact this.1.1
  have hrest : (c.forward k).rest = r := by
    have := Cursor.rest_forward hc
    rwa [List.length_replicate] at this
  have hpeek : ((c.forward k).peek == '#') = false := by
    rw [Cursor.peek, hrest]
    cases r with
    | nil => rfl
    | cons x r => simpa using (hr x rfl).2.2
  have hbreak : (c.forward k).lineBreak = none := Cursor.lineBreak_of_none fun x hx => by
    rw [hrest] at hx
    have := (hr x hx).2.1
    simp only [isInk, Bool.and_eq_true, Bool.not_eq_true'] at this
    exact this.2
  have hcomment : (c.forward k).skipComment = c.forward k := by
    unfold Cursor.skipComment
    rw [hpeek]
    rfl
  rw [skip]
  simp only [hspaces, hcomment, hbreak]

theorem place_spaces (hc : c.rest = List.replicate k ' ' ++ r) (hr : Begins r) :
    (outside c toks n outers allow key).place = (allow, c.forward k) := by
  have hbegun : begun c = c := begun_of_rest fun x hx => by
    rw [hc] at hx
    cases k with
    | zero => exact (hr x hx).1
    | succ k =>
      obtain rfl : ' ' = x := by simpa [List.replicate_succ] using hx
      exact isDrawn_space
  unfold place
  show skip false ((begun c).rest.length + 1) allow (begun c) = _
  rw [hbegun, skip_of_rest false _ allow hc hr]

theorem place_newLine (hc : c.rest = newLine k ++ r) (hr : Begins r) :
    (outside c toks n outers allow key).place = (true, c.forward (k + 1)) := by
  have hbegun : begun c = c := begun_of_rest fun x hx => by
    rw [hc] at hx
    obtain rfl : '\n' = x := by simpa [newLine] using hx
    decide
  have hspaces : c.skipSpaces = c := by
    unfold Cursor.skipSpaces Cursor.skipWhile
    rw [Cursor.takeWhile_of_rest (s := []) hc (by simp) (by simp)]
    rfl
  have hcomment : c.skipComment = c := by
    unfold Cursor.skipComment
    rw [Cursor.peek_of_rest hc]
    rfl
  have hbreak := Cursor.lineBreak_of_rest hc (by decide) (by decide)
  have hnext : c.next.rest = List.replicate k ' ' ++ r := by
    rw [Cursor.next_rest, hc]
    rfl
  unfold place
  show skip false ((begun c).rest.length + 1) allow (begun c) = _
  rw [hbegun, skip]
  simp only [hspaces, hcomment, hbreak]
  rw [hc, newLine, List.cons_append, List.length_cons, skip_of_rest false _ _ hnext hr,
    Bool.not_false, Bool.or_true]
  rfl

/-! ## The state at the next token -/

theorem unwind_of_le {column : Int} (h : n ≤ column) :
    unwind column outers (outside c toks n outers allow key) =
      outside c toks n outers allow key := by
  cases outers with
  | nil => rfl
  | cons outer rest => exact if_neg (by simpa [outside] using h)

theorem unwind_of_lt {column outer : Int} (h : column < n) :
    unwind column (outer :: outers) (outside c toks n (outer :: outers) allow key) =
      unwind column outers (outside c (.blockEnd :: toks) outer outers allow key) :=
  if_pos h

variable (toks n outers allow) in
/-- Blanks are passed. -/
theorem ready_spaces (hkey : Slack key c) (hc : c.rest = List.replicate k ' ' ++ r) (hr : Begins r)
    (hn : n ≤ (c.forward k).column) : ∃ key', Slack key' (c.forward k) ∧
      (outside c toks n outers allow key).ready =
        .ok (outside (c.forward k) toks n outers allow key') := by
  obtain ⟨key₁, hfresh₁, hkey₁⟩ := fresh_of_slack hkey
  have hforward : Slack key₁ (c.forward k) := by
    have := hkey₁.forward hc fun x hx => by rw [List.eq_of_mem_replicate hx]; exact isDrawn_space
    rwa [List.length_replicate] at this
  obtain ⟨key₂, hfresh₂, hkey₂⟩ := fresh_of_slack hforward
  refine ⟨key₂, hkey₂, ?_⟩
  have hplace : (outside c toks n outers allow key₁).place = _ := place_spaces hc hr
  unfold ready
  rw [dropStale_outside, hfresh₁]
  show advance (outside c toks n outers allow key₁) = _
  rw [advance_eq, hplace]
  show (dropStale (outside (c.forward k) toks n outers allow key₁)).map _ = _
  rw [dropStale_outside, hfresh₂]
  show Except.ok (unwind _ outers (outside (c.forward k) toks n outers allow key₂)) = _
  rw [unwind_of_le hn]

variable (toks n outers allow) in
/-- A new line allows a key and ends the blocks that are indented more. -/
theorem ready_newLine (hkey : Slack key c) (hc : c.rest = newLine k ++ r) (hr : Begins r) :
    (outside c toks n outers allow key).ready =
      .ok (unwind k outers (outside (c.forward (k + 1)) toks n outers true none)) := by
  obtain ⟨key₁, hfresh₁, hkey₁⟩ := fresh_of_slack hkey
  have hplace : (outside c toks n outers allow key₁).place = _ := place_newLine hc hr
  unfold ready
  rw [dropStale_outside, hfresh₁]
  show advance (outside c toks n outers allow key₁) = _
  rw [advance_eq, hplace]
  show (dropStale (outside (c.forward (k + 1)) toks n outers true key₁)).map _ = _
  rw [dropStale_outside, fresh_of_later hkey₁ (line_newLine hc)]
  show Except.ok (unwind _ outers (outside (c.forward (k + 1)) toks n outers true none)) = _
  rw [column_newLine hc]

/-- In front of a new line a slack key and whether keys are allowed do not matter. -/
theorem same_of_newLine {allow' : Bool} {key' : Option PossibleKey} (hkey : Slack key c)
    (hkey' : Slack key' c) (hc : c.rest = newLine k ++ r) (hr : Begins r) :
    Same (outside c toks n outers allow key) (outside c toks n outers allow' key') :=
  ⟨by rw [ready_newLine toks n outers allow hkey hc hr, ready_newLine toks n outers allow' hkey' hc hr],
    List.suffix_refl _⟩

variable (toks outers allow) in
/-- In front of a new line that is indented less a block can be ended. -/
theorem same_of_blockEnd (outer : Int) (hkey : Slack key c) (hc : c.rest = newLine k ++ r)
    (hr : Begins r) (hk : (k : Int) < n) :
    Same (outside c toks n (outer :: outers) allow key)
      (outside c (.blockEnd :: toks) outer outers allow none) := by
  refine ⟨?_, List.suffix_cons _ _⟩
  rw [ready_newLine toks n _ allow hkey hc hr, ready_newLine _ outer outers allow (slack_none c) hc hr,
    unwind_of_lt hk]

/-- A line end that was passed already does not matter. -/
theorem same_behind_newLine (hkey : Slack key c) (hc : c.rest = newLine k ++ r) (hr : Begins r) :
    Same (outside (c.forward (k + 1)) toks n outers true key) (outside c toks n outers true none) := by
  refine ⟨?_, List.suffix_refl _⟩
  have hrest := rest_newLine hc
  have hplace : (outside (c.forward (k + 1)) toks n outers true none).place = _ :=
    place_spaces (k := 0) hrest hr
  have hfirst : (outside (c.forward (k + 1)) toks n outers true key).ready =
      (outside (c.forward (k + 1)) toks n outers true none).advance := by
    unfold ready
    rw [dropStale_outside, fresh_of_later hkey (line_newLine hc)]
    rfl
  rw [ready_newLine toks n outers true (slack_none c) hc hr, hfirst, advance_eq, hplace]
  show Except.ok (unwind (c.forward (k + 1)).column outers
    (outside (c.forward (k + 1)) toks n outers true none)) = _
  rw [column_newLine hc]

end Lexer

end Yaml

end GraphPaths
