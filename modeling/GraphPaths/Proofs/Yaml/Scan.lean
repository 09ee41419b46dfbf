import GraphPaths.Proofs.Yaml.Cursor
import GraphPaths.Proofs.Outcome
import Mathlib.Logic.Relation

/-!
# Runs of the lexer

A lexer goes on token by token (`Step`). What it gives depends on a state only through the state at the
next token (`ready`), so that `Arrives x y` says that from `x` a lexer comes to a state as good as `y`,
and `Breaks x` that it comes to a place where no token can be told. `Lands b x y` is the one or the
other.
-/

namespace GraphPaths

namespace Yaml

namespace Lexer

/-- The lexer at the next token, where keys that are none any more are forgotten first. -/
def ready (x : Lexer) : Except LoadError Lexer := x.dropStale >>= advance

/-- One token is taken. -/
def Step (x z : Lexer) : Prop :=
  ∃ y, x.ready = .ok y ∧ y.cursor.rest ≠ [] ∧ y.token = .ok z ∧
    z.cursor.rest.length < y.cursor.rest.length

/-- The first lexer goes on as the second, which may have some more tokens already. -/
def Same (z y : Lexer) : Prop := z.ready = y.ready ∧ z.reversed <:+ y.reversed

/-- From one state a lexer arrives at another. -/
def Arrives (x y : Lexer) : Prop := ∃ z, Relation.ReflTransGen Step x z ∧ Same z y

/-- From a state a lexer comes to a place where no token can be told, and not to the end before. -/
def Breaks (x : Lexer) : Prop :=
  ∃ z, Relation.ReflTransGen Step x z ∧ .streamEnd ∉ z.reversed ∧
    ((∃ e, z.ready = .error e) ∨
      ∃ y e, z.ready = .ok y ∧ y.cursor.rest ≠ [] ∧ y.token = .error e)

/-- From one state a lexer comes to another, or breaks. -/
def Lands (whole : Bool) (x y : Lexer) : Prop := if whole then Arrives x y else Breaks x

variable {x y z : Lexer} {a b : Bool}

theorem Same.refl (x : Lexer) : Same x x :=
  ⟨rfl, List.suffix_refl _⟩

theorem Same.trans (h : Same x y) (h' : Same y z) : Same x z :=
  ⟨h.1.trans h'.1, h.2.trans h'.2⟩

theorem Arrives.of_same (h : Same x y) : Arrives x y :=
  ⟨x, .refl, h⟩

theorem Arrives.of_step (h : Step x y) : Arrives x y :=
  ⟨y, .single h, .refl y⟩

theorem Step.of_ready (h : Step y z) (hready : x.ready = y.ready) : Step x z := by
  obtain ⟨w, hw, hstep⟩ := h
  exact ⟨w, hready.trans hw, hstep⟩

/-- One token of some characters. -/
theorem Step.of_token {w u : List Char} (hready : x.ready = .ok y) (hy : y.cursor.rest = w ++ u)
    (hw : w ≠ []) (htoken : y.token = .ok z) (hz : z.cursor.rest = u) : Step x z := by
  have hlength := List.length_pos_iff.mpr hw
  refine ⟨y, hready, ?_, htoken, ?_⟩
  · rw [hy]
    simp [hw]
  · rw [hz, hy, List.length_append]
    omega

/-- One token of a single character. -/
theorem Step.of_indicator {ch : Char} {u : List Char} (hready : x.ready = .ok y)
    (hy : y.cursor.rest = ch :: u) (htoken : y.token = .ok z) (hz : z.cursor = y.cursor.next) :
    Step x z := by
  refine .of_token (w := [ch]) (u := u) hready hy (List.cons_ne_nil ch []) htoken ?_
  rw [hz, Cursor.next_rest, hy]
  rfl

theorem Arrives.trans (h : Arrives x y) (h' : Arrives y z) : Arrives x z := by
  obtain ⟨u, hu, hsame⟩ := h
  obtain ⟨w, hw, hsame'⟩ := h'
  rcases Relation.ReflTransGen.cases_head hw with rfl | ⟨v, hv, hvw⟩
  · exact ⟨u, hu, hsame.trans hsame'⟩
  · exact ⟨w, hu.trans (.head (hv.of_ready hsame.1) hvw), hsame'⟩

theorem Arrives.breaks (h : Arrives x y) (h' : Breaks y) : Breaks x := by
  obtain ⟨u, hu, hsame⟩ := h
  obtain ⟨w, hw, hend, hstuck⟩ := h'
  rcases Relation.ReflTransGen.cases_head hw with rfl | ⟨v, hv, hvw⟩
  · refine ⟨u, hu, fun h => hend (hsame.2.subset h), ?_⟩
    rwa [hsame.1]
  · exact ⟨w, hu.trans (.head (hv.of_ready hsame.1) hvw), hend, hstuck⟩

theorem Lands.trans (h : Lands a x y) (h' : Lands b y z) : Lands (a && b) x z := by
  cases a with
  | false => exact h
  | true =>
    cases b with
    | false => exact Arrives.breaks h h'
    | true => exact Arrives.trans h h'

theorem Arrives.lands (h : Arrives x y) (h' : Lands b y z) : Lands b x z :=
  Lands.trans (a := true) h h'

theorem Lands.arrives (h : Lands b x y) (h' : Arrives y z) : Lands b x z := by
  have := Lands.trans (b := true) h h'
  rwa [Bool.and_true] at this

/-! ## The end -/

theorem unwind_cursor (column : Int) : ∀ (outers : List Int) (x : Lexer),
    (unwind column outers x).cursor = x.cursor
  | [], x => rfl
  | outer :: rest, x => by
    rw [unwind]
    split
    · rw [unwind_cursor column rest]
      rfl
    · rfl

/-- Passing what is between tokens takes no characters back. -/
theorem rest_skip (inFlow : Bool) : ∀ (fuel : Nat) (allow : Bool) (c : Cursor),
    (skip inFlow fuel allow c).2.rest.length ≤ c.rest.length
  | 0, _, _ => Nat.le_refl _
  | fuel + 1, allow, c => by
    have hforward : ∀ (c : Cursor) (n : Nat), (c.forward n).rest.length ≤ c.rest.length := by
      intro c n
      rw [Cursor.forward_rest, List.length_drop]
      exact Nat.sub_le _ _
    have hnext : ∀ c : Cursor, c.next.rest.length ≤ c.rest.length := fun c => hforward c 1
    have hblank : c.skipSpaces.skipComment.rest.length ≤ c.rest.length := by
      unfold Cursor.skipComment
      split
      · exact Nat.le_trans (hforward _ _) (hforward _ _)
      · exact hforward _ _
    have hbreak : ∀ (c d : Cursor) (b : Char), c.lineBreak = some (b, d) →
        d.rest.length ≤ c.rest.length := by
      intro c d b h
      unfold Cursor.lineBreak at h
      split at h
      · obtain ⟨-, rfl⟩ := Prod.mk.inj (Option.some.inj h)
        exact hforward _ _
      · split at h
        · obtain ⟨-, rfl⟩ := Prod.mk.inj (Option.some.inj h)
          exact hnext _
        · split at h
          · obtain ⟨-, rfl⟩ := Prod.mk.inj (Option.some.inj h)
            exact hnext _
          · cases h
      · cases h
    rw [skip]
    split
    · next b d h => exact Nat.le_trans (rest_skip inFlow fuel _ d) (Nat.le_trans (hbreak _ _ _ h) hblank)
    · exact hblank

theorem cursor_dropStale (h : x.dropStale = .ok y) : y.cursor = x.cursor := by
  obtain ⟨outer, -, h⟩ := bind_eq_ok.mp h
  obtain ⟨key, -, h⟩ := bind_eq_ok.mp h
  rw [← Except.ok.inj h]

theorem cursor_endBlocks (x : Lexer) (column : Int) : (x.endBlocks column).cursor = x.cursor := by
  unfold endBlocks
  split
  · rfl
  · exact unwind_cursor column _ x

/-- The cursor behind a byte order mark at the start of a text. -/
def begun (c : Cursor) : Cursor := if c.index == 0 && c.peek == '\ufeff' then c.next else c

/-- The place of the next token, and whether a key may start there. -/
def place (x : Lexer) : Bool × Cursor :=
  skip x.inFlow ((begun x.cursor).rest.length + 1) x.allowKey (begun x.cursor)

theorem advance_eq (x : Lexer) : x.advance =
    (dropStale { x with cursor := x.place.2, allowKey := x.place.1 }).map
      fun y => y.endBlocks x.place.2.column := by
  show (dropStale { x with cursor := x.place.2, allowKey := x.place.1 } >>=
    fun y => .ok (y.endBlocks x.place.2.column)) = _
  cases dropStale { x with cursor := x.place.2, allowKey := x.place.1 } <;> rfl

theorem rest_place (x : Lexer) : x.place.2.rest.length ≤ x.cursor.rest.length := by
  refine Nat.le_trans (rest_skip _ _ _ _) ?_
  unfold begun
  split
  · rw [Cursor.next_rest, List.length_drop]
    exact Nat.sub_le _ _
  · exact Nat.le_refl _

theorem rest_ready (h : x.ready = .ok y) : y.cursor.rest.length ≤ x.cursor.rest.length := by
  obtain ⟨x', hx', h⟩ := bind_eq_ok.mp h
  rw [advance_eq] at h
  obtain ⟨w, hw, rfl⟩ := map_eq_ok.mp h
  rw [cursor_endBlocks, cursor_dropStale hw, ← cursor_dropStale hx']
  exact rest_place x'

theorem finish_of_ready {fuel : Nat} (hready : x.ready = .ok y) :
    x.finish (fuel + 1) = match (if y.cursor.rest.isEmpty then do
        let y ← (y.endBlocks (-1)).dropKey
        return (true, y.push .streamEnd)
      else do
        let y ← y.token
        return (false, y) : Except LoadError (Bool × Lexer)) with
      | .error e => (x.dropStale.toOption.getD x).broken (x.dropStale.toOption.getD x).settled e
      | .ok (true, y) => y.reversed.reverse
      | .ok (false, y) => finish fuel y := by
  obtain ⟨x', hx', hy⟩ := bind_eq_ok.mp hready
  rw [finish, hx']
  simp only [hy]
  rfl

theorem finish_step {fuel : Nat} (h : Step x z) : x.finish (fuel + 1) = z.finish fuel := by
  obtain ⟨y, hready, hne, htoken, -⟩ := h
  rw [finish_of_ready hready]
  simp only [List.isEmpty_eq_false_iff.mpr hne, htoken]
  rfl

theorem finish_steps (h : Relation.ReflTransGen Step x z) :
    ∀ {fuel : Nat}, x.cursor.rest.length < fuel →
      ∃ fuel', z.cursor.rest.length < fuel' ∧ x.finish fuel = z.finish fuel' := by
  induction h using Relation.ReflTransGen.head_induction_on with
  | refl => exact fun hfuel => ⟨_, hfuel, rfl⟩
  | @head x y hstep _ ih =>
    intro fuel hfuel
    obtain ⟨fuel, rfl⟩ := Nat.exists_eq_succ_of_ne_zero (Nat.ne_zero_of_lt hfuel)
    obtain ⟨w, hready, -, -, hless⟩ := id hstep
    have := rest_ready hready
    obtain ⟨fuel', hfuel', heq⟩ := @ih fuel (by omega)
    exact ⟨fuel', hfuel', (finish_step hstep).trans heq⟩

/-- The tokens of a text whose end is reached. -/
theorem finish_of_arrives {w : Lexer} (h : Arrives x y) (hready : y.ready = .ok w)
    (hend : w.cursor.rest = []) (hkey : (w.endBlocks (-1)).dropKey = .ok z) {fuel : Nat}
    (hfuel : x.cursor.rest.length < fuel) : x.finish fuel = (z.push .streamEnd).reversed.reverse := by
  obtain ⟨u, hu, hsame⟩ := h
  obtain ⟨fuel', hfuel', heq⟩ := finish_steps hu hfuel
  obtain ⟨fuel', rfl⟩ := Nat.exists_eq_succ_of_ne_zero (Nat.ne_zero_of_lt hfuel')
  rw [heq, finish_of_ready (hsame.1.trans hready)]
  simp only [hend, hkey]
  rfl

theorem not_mem_broken {t : Token} (h : t ∉ x.reversed) (ht : ∀ e, t ≠ .broken e) (n : Nat)
    (e : LoadError) : t ∉ x.broken n e := by
  unfold broken
  rw [List.mem_append, List.mem_reverse, List.mem_singleton, not_or]
  exact ⟨fun hmem => h (List.mem_of_mem_drop hmem), ht e⟩

/-- A text that cannot be told to its end has no last token. -/
theorem not_mem_finish_of_breaks (h : Breaks x) {fuel : Nat} (hfuel : x.cursor.rest.length < fuel) :
    .streamEnd ∉ x.finish fuel := by
  obtain ⟨z, hz, hend, hstuck⟩ := h
  obtain ⟨fuel', hfuel', heq⟩ := finish_steps hz hfuel
  obtain ⟨fuel', rfl⟩ := Nat.exists_eq_succ_of_ne_zero (Nat.ne_zero_of_lt hfuel')
  rw [heq]
  have hbroken : ∀ {x' : Lexer}, z.dropStale = .ok x' → x'.reversed = z.reversed := by
    intro x' h
    obtain ⟨outer, -, h⟩ := bind_eq_ok.mp h
    obtain ⟨key, -, h⟩ := bind_eq_ok.mp h
    rw [← Except.ok.inj h]
  rcases hstuck with ⟨e, he⟩ | ⟨y, e, hready, hne, htoken⟩
  · rw [finish]
    cases hx' : z.dropStale with
    | error e' => exact not_mem_broken hend (by simp) _ _
    | ok x' =>
      have hadvance : x'.advance = .error e := by
        unfold ready at he
        rw [hx'] at he
        exact he
      simp only [hadvance]
      exact not_mem_broken (by rwa [hbroken hx']) (by simp) _ _
  · rw [finish_of_ready hready]
    obtain ⟨x', hx', -⟩ := bind_eq_ok.mp hready
    simp only [List.isEmpty_eq_false_iff.mpr hne, htoken, hx']
    exact not_mem_broken (by rw [← hbroken hx'] at hend; exact hend) (by simp) _ _

end Lexer

end Yaml

end GraphPaths
