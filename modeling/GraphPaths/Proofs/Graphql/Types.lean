import GraphPaths.Proofs.Graphql.Reading
import GraphPaths.Proofs.Graphql.Tokens

/-!
# Types in the notation of the language

A type of a schema is written as a row of tokens (`TypeExpr.tokens`). The text of the type is read
into these tokens (`lexes_type`), and the tokens into the type (`reads_typeExpr`), as far as there
is room for the lists inside one another.
-/

namespace GraphPaths

namespace Graphql

/-- Whether a type can be written: named types have names, and null is not excluded twice. -/
def TypeExpr.isWritable : TypeExpr → Bool
  | .named name => isName name
  | .list item => item.isWritable
  | .nonNull inner => !inner.isNonNull && inner.isWritable

/-- How many lists stand inside one another. -/
def TypeExpr.depth : TypeExpr → Nat
  | .named _ => 0
  | .list item => item.depth + 1
  | .nonNull inner => inner.depth

/-- The tokens of a type. -/
def TypeExpr.tokens : TypeExpr → List Token
  | .named name => [.name name]
  | .list item => .punct .bracketL :: item.tokens ++ [.punct .bracketR]
  | .nonNull inner => inner.tokens ++ [.punct .bang]

/-! ## From texts to tokens -/

theorem lexes_type : ∀ {t : TypeExpr} {cs : List Char} {ts : List Token}, t.isWritable →
    endsName cs → Lexes cs ts → Lexes (t.text.toList ++ cs) (t.tokens ++ ts)
  | .named name, cs, ts, ht, hcs, h => lexes_name ht hcs h
  | .list item, cs, ts, ht, _, h => by
    have hclose : Lexes (']' :: cs) (.punct .bracketR :: ts) := lexes_punct rfl h
    have hopen := lexes_punct (c := '[') (p := .bracketL) rfl (lexes_type (t := item) ht rfl hclose)
    simpa [TypeExpr.text, TypeExpr.tokens] using hopen
  | .nonNull inner, cs, ts, ht, _, h => by
    have hbang : Lexes ('!' :: cs) (.punct .bang :: ts) := lexes_punct rfl h
    have hinner : inner.isWritable := by
      simp only [TypeExpr.isWritable, Bool.and_eq_true] at ht
      exact ht.2
    simpa [TypeExpr.text, TypeExpr.tokens] using lexes_type (t := inner) hinner rfl hbang

/-! ## From tokens to types -/

variable {t : Token} {rest more : List Token} {P : TypeExpr → Prop}

theorem reads_marked {type : TypeExpr} (ht : t ≠ .punct .bang) :
    Reads (marked type) (t :: rest) (fun x => x = type) (t :: rest) := by
  refine (reads_accept_other ht).bind fun b hb => ?_
  rw [hb]
  exact reads_pure rfl

theorem reads_marked_bang {type : TypeExpr} (h : goesOn rest) :
    Reads (marked type) (.punct .bang :: rest) (fun x => x = .nonNull type) rest := by
  refine (reads_accept h).bind fun b hb => ?_
  rw [hb]
  exact reads_pure rfl

/-- A named type is read up to what decides whether null is excluded. -/
theorem reads_named {name : String} (room : Nat) (hgoes : goesOn more)
    (h : Reads (marked (.named name)) more P rest) :
    Reads (typeExpr room) ((TypeExpr.named name).tokens ++ more) P rest := by
  have hother : Reads (accept .bracketL) (.name name :: more) (fun b => b = false)
      (.name name :: more) := reads_accept_other nofun
  cases room with
  | zero =>
    refine hother.bind fun b hb => ?_
    rw [hb]
    exact (reads_name hgoes).bind fun n hn => hn ▸ h
  | succ room =>
    refine hother.bind fun b hb => ?_
    rw [hb]
    exact (reads_name hgoes).bind fun n hn => hn ▸ h

/-- Every type starts with a token that goes on. -/
theorem goesOn_tokens : ∀ (type : TypeExpr) (more : List Token), goesOn (type.tokens ++ more)
  | .named _, _ => rfl
  | .list _, _ => rfl
  | .nonNull inner, more => by
    simpa [TypeExpr.tokens] using goesOn_tokens inner (.punct .bang :: more)

/-- A list is read up to what decides whether null is excluded. -/
theorem reads_list {item : TypeExpr} {room : Nat} (hgoes : goesOn more)
    (hitem : Reads (typeExpr room) (item.tokens ++ .punct .bracketR :: more) (fun x => x = item)
      (.punct .bracketR :: more))
    (h : Reads (marked (.list item)) more P rest) :
    Reads (typeExpr (room + 1)) ((TypeExpr.list item).tokens ++ more) P rest := by
  have htokens : (TypeExpr.list item).tokens ++ more =
      .punct .bracketL :: (item.tokens ++ .punct .bracketR :: more) := by
    simp [TypeExpr.tokens]
  rw [htokens]
  refine (reads_accept (goesOn_tokens item _)).bind fun b hb => ?_
  rw [hb, if_pos rfl]
  refine hitem.bind fun x hx => (reads_expect hgoes).bind fun _ _ => ?_
  rw [hx]
  exact h

/-- The tokens of a type are read as the type. -/
theorem reads_typeExpr : ∀ (type : TypeExpr) {room : Nat} {t : Token} {rest : List Token},
    type.isWritable → type.depth ≤ room → t ≠ .punct .bang → goesOn (t :: rest) →
      Reads (typeExpr room) (type.tokens ++ t :: rest) (fun x => x = type) (t :: rest)
  | .named _, room, _, _, _, _, ht, hgoes => reads_named room hgoes (reads_marked ht)
  | .list item, room + 1, t, rest, hw, hroom, ht, hgoes => by
    have hitem : Reads (typeExpr room) (item.tokens ++ .punct .bracketR :: t :: rest)
        (fun x => x = item) (.punct .bracketR :: t :: rest) :=
      reads_typeExpr item hw (Nat.le_of_succ_le_succ hroom) nofun rfl
    exact reads_list hgoes hitem (reads_marked ht)
  | .nonNull (.named name), room, t, rest, _, _, _, hgoes => by
    have hmarked : Reads (marked (.named name)) (.punct .bang :: t :: rest)
        (fun x => x = .nonNull (.named name)) (t :: rest) := reads_marked_bang hgoes
    simpa [TypeExpr.tokens] using reads_named room rfl hmarked
  | .nonNull (.list item), room + 1, t, rest, hw, hroom, _, hgoes => by
    have hitem : Reads (typeExpr room)
        (item.tokens ++ .punct .bracketR :: .punct .bang :: t :: rest) (fun x => x = item)
        (.punct .bracketR :: .punct .bang :: t :: rest) :=
      reads_typeExpr item hw (Nat.le_of_succ_le_succ hroom) nofun rfl
    have hmarked : Reads (marked (.list item)) (.punct .bang :: t :: rest)
        (fun x => x = .nonNull (.list item)) (t :: rest) := reads_marked_bang hgoes
    simpa [TypeExpr.tokens] using reads_list rfl hitem hmarked
  | .nonNull (.nonNull _), _, _, _, hw, _, _, _ => by
    simp [TypeExpr.isWritable, TypeExpr.isNonNull] at hw

end Graphql

end GraphPaths
