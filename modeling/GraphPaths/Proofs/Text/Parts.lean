import GraphPaths.Text.Line
import Mathlib

/-!
# Parts of a text

`splitAt` parts a text at every occurrence of a character (`splitAt_of_notMem`, `splitAt_append`), so
that no part has one (`notMem_of_mem_splitAt`). There is always a part (`splitAt_ne_nil`).
-/

namespace GraphPaths.Text

variable {sep : Char}

theorem splitAt_ne_nil : ∀ cs : List Char, splitAt sep cs ≠ []
  | [] => nofun
  | c :: cs => by
    unfold splitAt
    split
    · exact nofun
    · split <;> exact nofun

theorem splitAt_cons (c : Char) (cs : List Char) : splitAt sep (c :: cs) =
    if c = sep then [] :: splitAt sep cs else (splitAt sep cs).modifyHead (c :: ·) := by
  rw [splitAt]
  cases h : splitAt sep cs with
  | nil => exact absurd h (splitAt_ne_nil cs)
  | cons part parts => simp

/-- The parts of a text do not have what parts them. -/
theorem notMem_of_mem_splitAt : ∀ {cs : List Char}, ∀ part ∈ splitAt sep cs, sep ∉ part
  | [], part, h => by
    obtain rfl := List.mem_singleton.mp h
    exact List.not_mem_nil
  | c :: cs, part, h => by
    have ih := @notMem_of_mem_splitAt cs
    rw [splitAt_cons] at h
    split at h
    · exact (List.mem_cons.mp h).elim (fun heq => heq ▸ List.not_mem_nil) (ih part)
    · next hc =>
      obtain ⟨p, ps, hsplit⟩ := List.exists_cons_of_ne_nil (splitAt_ne_nil cs)
      rw [hsplit] at h ih
      rcases List.mem_cons.mp h with rfl | h
      · simpa [Ne.symm hc] using ih p List.mem_cons_self
      · exact ih part (List.mem_cons_of_mem p h)

/-- A text without the character is one part. -/
theorem splitAt_of_notMem : ∀ {cs : List Char}, sep ∉ cs → splitAt sep cs = [cs]
  | [], _ => rfl
  | c :: cs, h => by
    rw [List.mem_cons, not_or] at h
    rw [splitAt_cons, if_neg (Ne.symm h.1), splitAt_of_notMem h.2]
    rfl

/-- What stands in front of the first occurrence is the first part. -/
theorem splitAt_append (rest : List Char) : ∀ {cs : List Char}, sep ∉ cs →
    splitAt sep (cs ++ sep :: rest) = cs :: splitAt sep rest
  | [], _ => by rw [List.nil_append, splitAt_cons, if_pos rfl]
  | c :: cs, h => by
    rw [List.mem_cons, not_or] at h
    rw [List.cons_append, splitAt_cons, if_neg (Ne.symm h.1), splitAt_append rest h.2]
    rfl

end GraphPaths.Text
