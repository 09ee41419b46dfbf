import GraphPaths.Graphql.Parser
import Mathlib

/-!
# What readers read

`Reads r ts P rest` says that a reader that stands before the tokens `ts` succeeds, leaves `rest`
and gives a result with a property, wherever the tokens stand in their text. Readers that follow one
another are read off by `Reads.bind`; a reader goes on only if the next token is no fault
(`goesOn`).
-/

namespace GraphPaths

namespace Graphql

variable {α β : Type} {P : α → Prop} {Q : β → Prop} {ts rest : List Token}

/-- A reader before some tokens gives a result with a property and leaves the rest. -/
def Reads (r : Reader α) (ts : List Token) (P : α → Prop) (rest : List Token) : Prop :=
  ∀ ls, ls.map Lexeme.token = ts →
    ∃ a ls', r ls = .ok (a, ls') ∧ P a ∧ ls'.map Lexeme.token = rest

/-- Whether there is a next token and it is no fault. -/
def goesOn : List Token → Bool
  | [] | .broken _ :: _ => false
  | _ => true

theorem reads_pure {a : α} (h : P a) : Reads (pure a) ts P ts :=
  fun ls hls => ⟨a, ls, rfl, h, hls⟩

/-- One reader after another. -/
theorem Reads.bind {r : Reader α} {f : α → Reader β} {mid : List Token} (h : Reads r ts P mid)
    (hf : ∀ a, P a → Reads (f a) mid Q rest) : Reads (r >>= f) ts Q rest := by
  intro ls hls
  obtain ⟨a, ls', hr, ha, hls'⟩ := h ls hls
  obtain ⟨b, ls'', hb, hQ, hls''⟩ := hf a ha ls' hls'
  refine ⟨b, ls'', ?_, hQ, hls''⟩
  show (r ls >>= fun x => f x.1 x.2) = _
  rw [hr]
  exact hb

theorem Reads.mono {r : Reader α} {P' : α → Prop} (h : Reads r ts P rest)
    (hP : ∀ a, P a → P' a) : Reads r ts P' rest := by
  intro ls hls
  obtain ⟨a, ls', hr, ha, hls'⟩ := h ls hls
  exact ⟨a, ls', hr, hP a ha, hls'⟩

/-! ## Single tokens -/

variable {t : Token}

theorem reads_peek : Reads peek (t :: rest) (fun l => l.token = t) (t :: rest) := by
  intro ls hls
  cases ls with
  | nil => contradiction
  | cons l ls => exact ⟨l, l :: ls, rfl, (List.cons.inj hls).1, hls⟩

theorem peekSecond_cons (l l' : Lexeme) (ls : List Lexeme) :
    peekSecond (l :: l' :: ls) = (match l'.token with
      | .broken f => (throw (⟨.lexical f, l'.left⟩ : SyntaxStop) : Reader Lexeme)
      | _ => pure l') (l :: l' :: ls) :=
  rfl

theorem reads_advance (h : goesOn rest) : Reads advance (t :: rest) (fun _ => True) rest := by
  intro ls hls
  match ls, hls with
  | l :: [], hls =>
    obtain ⟨-, rfl⟩ := List.cons.inj hls
    contradiction
  | l :: l' :: ls, hls =>
    obtain ⟨-, rfl⟩ := List.cons.inj hls
    have hsecond : peekSecond (l :: l' :: ls) = .ok (l', l :: l' :: ls) := by
      rw [peekSecond_cons]
      cases hl : l'.token with
      | broken f => simp [goesOn, hl] at h
      | _ => rfl
    refine ⟨(), l' :: ls, ?_, trivial, rfl⟩
    show (peekSecond (l :: l' :: ls) >>= _) = _
    rw [hsecond]
    rfl

theorem reads_sees (p : Punctuator) :
    Reads (sees p) (t :: rest) (fun b => b = (t == .punct p)) (t :: rest) :=
  reads_peek.bind fun l hl => reads_pure (by rw [hl])

/-- A punctuator that comes next is left out. -/
theorem reads_accept {p : Punctuator} (h : goesOn rest) :
    Reads (accept p) (.punct p :: rest) (fun b => b = true) rest := by
  refine (reads_sees p).bind fun b hb => ?_
  rw [hb, beq_self_eq_true, if_pos rfl]
  exact (reads_advance h).bind fun _ _ => reads_pure rfl

/-- A punctuator that does not come next is not missed. -/
theorem reads_accept_other {p : Punctuator} (h : t ≠ .punct p) :
    Reads (accept p) (t :: rest) (fun b => b = false) (t :: rest) := by
  refine (reads_sees p).bind fun b hb => ?_
  rw [hb, beq_eq_false_iff_ne.mpr h]
  exact reads_pure rfl

theorem reads_expect {p : Punctuator} (h : goesOn rest) :
    Reads (expect p) (.punct p :: rest) (fun _ => True) rest := by
  refine (reads_sees p).bind fun b hb => ?_
  rw [hb, beq_self_eq_true, if_pos rfl]
  exact reads_advance h

theorem reads_name {s : String} (h : goesOn rest) :
    Reads name (.name s :: rest) (fun n => n = s) rest := by
  refine reads_peek.bind fun l hl => ?_
  rw [hl]
  exact (reads_advance h).bind fun _ _ => reads_pure rfl

/-! ## Rows of items -/

section Rows

variable {ι : Type} {item : Reader α} {closing : Punctuator} {tokens : ι → List Token}
  {R : ι → α → Prop} {follows : Token → Bool}

/-- Items are read up to a token that may follow them, and each starts with such a token. -/
structure ReadsItems (item : Reader α) (closing : Punctuator) (tokens : ι → List Token)
    (R : ι → α → Prop) (follows : Token → Bool) (is : List ι) : Prop where
  closes : follows (.punct closing)
  reads : ∀ i ∈ is, ∀ t rest, follows t → Reads item (tokens i ++ t :: rest) (R i) (t :: rest)
  starts : ∀ i ∈ is, ∃ t ts, tokens i = t :: ts ∧ follows t ∧ t ≠ .punct closing

theorem ReadsItems.tail {i : ι} {is : List ι}
    (h : ReadsItems item closing tokens R follows (i :: is)) :
    ReadsItems item closing tokens R follows is :=
  ⟨h.closes, fun j hj => h.reads j (List.mem_cons_of_mem i hj),
    fun j hj => h.starts j (List.mem_cons_of_mem i hj)⟩

/-- After items there comes a token that may follow them. -/
theorem ReadsItems.next {is : List ι} (h : ReadsItems item closing tokens R follows is)
    (rest : List Token) :
    ∃ t ts, is.flatMap tokens ++ .punct closing :: rest = t :: ts ∧ follows t := by
  cases is with
  | nil => exact ⟨_, _, rfl, h.closes⟩
  | cons i is =>
    obtain ⟨t, ts, hi, ht, -⟩ := h.starts i List.mem_cons_self
    exact ⟨t, _, by rw [List.flatMap_cons, hi]; rfl, ht⟩

/-- The first of some items. -/
theorem ReadsItems.head {i : ι} {is : List ι}
    (h : ReadsItems item closing tokens R follows (i :: is)) :
    Reads item ((i :: is).flatMap tokens ++ .punct closing :: rest) (R i)
      (is.flatMap tokens ++ .punct closing :: rest) := by
  obtain ⟨t, ts, hnext, ht⟩ := h.tail.next rest
  rw [List.flatMap_cons, List.append_assoc, hnext]
  exact h.reads i List.mem_cons_self t ts ht

/-- Items up to a closing punctuator, told from it by what they start with. -/
theorem reads_untilClosed (hrest : goesOn rest) :
    ∀ (is : List ι) (fuel : Nat), ReadsItems item closing tokens R follows is → is.length < fuel →
      Reads (untilClosed item closing fuel) (is.flatMap tokens ++ .punct closing :: rest)
        (List.Forall₂ R is) rest
  | [], fuel + 1, _, _ => by
    refine (reads_accept hrest).bind fun b hb => ?_
    rw [hb, if_pos rfl]
    exact reads_pure .nil
  | i :: is, fuel + 1, h, hfuel => by
    obtain ⟨t, ts, hi, -, hne⟩ := h.starts i List.mem_cons_self
    have hfirst : (i :: is).flatMap tokens ++ .punct closing :: rest =
        t :: (ts ++ (is.flatMap tokens ++ .punct closing :: rest)) := by
      rw [List.flatMap_cons, hi]
      simp
    have hother : Reads (accept closing) ((i :: is).flatMap tokens ++ .punct closing :: rest)
        (fun b => b = false) ((i :: is).flatMap tokens ++ .punct closing :: rest) := by
      rw [hfirst]
      exact reads_accept_other hne
    refine hother.bind fun b hb => ?_
    rw [hb]
    refine h.head.bind fun a ha => ?_
    refine (reads_untilClosed hrest is fuel h.tail (by simpa using hfuel)).bind fun as has => ?_
    exact reads_pure (.cons ha has)

/-- A single item before a closing punctuator. -/
theorem reads_single {t : Token} {ts : List Token} (ht : t ≠ .punct closing)
    (h : Reads item (t :: ts) P (.punct closing :: rest)) (hrest : goesOn rest) (fuel : Nat) :
    Reads (untilClosed item closing (fuel + 2)) (t :: ts) (fun xs => ∃ x, P x ∧ xs = [x]) rest := by
  refine (reads_accept_other ht).bind fun b hb => ?_
  rw [hb]
  refine h.bind fun x hx => ?_
  have hclose : Reads (untilClosed item closing (fuel + 1)) (.punct closing :: rest)
      (fun xs => xs = []) rest := by
    refine (reads_accept hrest).bind fun b hb => ?_
    rw [hb, if_pos rfl]
    exact reads_pure rfl
  exact hclose.bind fun xs hxs => reads_pure ⟨x, hx, by rw [hxs]⟩

/-- The tokens of items between punctuators, of which there are none without items. -/
def between (opening closing : Punctuator) (tokens : ι → List Token) : List ι → List Token
  | [] => []
  | i :: is => .punct opening :: (i :: is).flatMap tokens ++ [.punct closing]

/-- Items between punctuators, or nothing. -/
theorem reads_optionalMany {opening : Punctuator} {is : List ι}
    (h : ReadsItems item closing tokens R follows is)
    (hgoes : ∀ t ts, follows t → goesOn (t :: ts)) (ht : t ≠ .punct opening)
    (hrest : goesOn (t :: rest)) {fuel : Nat} (hfuel : is.length < fuel + 1) :
    Reads (optionalMany fuel opening item closing)
      (between opening closing tokens is ++ t :: rest) (List.Forall₂ R is) (t :: rest) := by
  cases is with
  | nil =>
    refine (reads_sees opening).bind fun b hb => ?_
    rw [hb, beq_eq_false_iff_ne.mpr ht]
    exact reads_pure .nil
  | cons i is =>
    have hbetween : between opening closing tokens (i :: is) ++ t :: rest =
        .punct opening :: ((i :: is).flatMap tokens ++ .punct closing :: t :: rest) := by
      simp [between]
    rw [hbetween]
    refine (reads_sees opening).bind fun b hb => ?_
    rw [hb, beq_self_eq_true, if_pos rfl]
    have hgoing : goesOn ((i :: is).flatMap tokens ++ .punct closing :: t :: rest) := by
      obtain ⟨t', ts', hnext, ht'⟩ := h.next (t :: rest)
      rw [hnext]
      exact hgoes t' ts' ht'
    refine (reads_expect hgoing).bind fun _ _ => h.head.bind fun a ha => ?_
    refine (reads_untilClosed hrest is fuel h.tail ?_).bind fun as has => ?_
    · simpa using hfuel
    · exact reads_pure (.cons ha has)

end Rows

end Graphql

end GraphPaths
