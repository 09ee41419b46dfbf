import GraphPaths.Json.Printer
import GraphPaths.Json.Reader
import GraphPaths.Proofs.Text.Digits

/-!
# The grammar of JSON

The values of RFC 8259, character by character: `IsValue` for all of them, `IsNumber` and `IsString`
for two kinds of scalars. A text between quotes is a string whatever characters it is made of
(`isString_quote`), since each is written as characters that may stand in a string
(`isChars_escape`).
-/

namespace GraphPaths

namespace Json

open Text (IsDigits)

/-! ## Scalars -/

/-- A whole number: a nought, or digits that start with another one. -/
inductive IsWhole : List Char → Prop
  | nought : IsWhole ['0']
  | digits {c : Char} {cs : List Char} (hc : c ≠ '0') (h : IsDigits (c :: cs)) : IsWhole (c :: cs)

/-- The fraction of a number. -/
inductive IsFraction : List Char → Prop
  | none : IsFraction []
  | some {cs : List Char} (hne : cs ≠ []) (h : IsDigits cs) : IsFraction ('.' :: cs)

/-- The exponent of a number. -/
inductive IsExponent : List Char → Prop
  | none : IsExponent []
  | some {e : Char} {sign cs : List Char} (he : e ∈ ['e', 'E']) (hs : sign ∈ [[], ['+'], ['-']])
      (hne : cs ≠ []) (h : IsDigits cs) : IsExponent (e :: (sign ++ cs))

/-- A number without a sign. -/
inductive IsUnsigned : List Char → Prop
  | parts {whole fraction exponent : List Char} (hw : IsWhole whole) (hf : IsFraction fraction)
      (he : IsExponent exponent) : IsUnsigned (whole ++ fraction ++ exponent)

/-- A number. -/
inductive IsNumber : List Char → Prop
  | unsigned {cs : List Char} (h : IsUnsigned cs) : IsNumber cs
  | negative {cs : List Char} (h : IsUnsigned cs) : IsNumber ('-' :: cs)

/-- Characters between quotes. -/
inductive IsChars : List Char → Prop
  | nil : IsChars []
  | unescaped {c : Char} {cs : List Char} (hc : 0x20 ≤ c.toNat ∧ c ≠ '"' ∧ c ≠ '\\')
      (h : IsChars cs) : IsChars (c :: cs)
  | escaped {c : Char} {cs : List Char} (hc : c ∈ ['"', '\\', '/', 'b', 'f', 'n', 'r', 't'])
      (h : IsChars cs) : IsChars ('\\' :: c :: cs)
  | unit {hex cs : List Char} (hlength : hex.length = 4)
      (hhex : ∀ c ∈ hex, (Text.hexDigit c).isSome) (h : IsChars cs) :
      IsChars ('\\' :: 'u' :: (hex ++ cs))

/-- A string. -/
inductive IsString : List Char → Prop
  | quoted {cs : List Char} (h : IsChars cs) : IsString ('"' :: cs ++ ['"'])

/-! ## Values -/

/-- Characters that may stand between the parts of a value. -/
def IsSpace (cs : List Char) : Prop := ∀ c ∈ cs, c ∈ [' ', '\t', '\n', '\r']

mutual

/-- A value. -/
inductive IsValue : List Char → Prop
  | null : IsValue ['n', 'u', 'l', 'l']
  | true : IsValue ['t', 'r', 'u', 'e']
  | false : IsValue ['f', 'a', 'l', 's', 'e']
  | number {cs : List Char} (h : IsNumber cs) : IsValue cs
  | string {cs : List Char} (h : IsString cs) : IsValue cs
  | noItems {ws : List Char} (h : IsSpace ws) : IsValue ('[' :: ws ++ [']'])
  | items {cs : List Char} (h : IsItems cs) : IsValue ('[' :: cs ++ [']'])
  | noMembers {ws : List Char} (h : IsSpace ws) : IsValue ('\x7b' :: ws ++ ['\x7d'])
  | members {cs : List Char} (h : IsMembers cs) : IsValue ('\x7b' :: cs ++ ['\x7d'])

/-- The items of an array, at least one. -/
inductive IsItems : List Char → Prop
  | last {before cs after : List Char} (hb : IsSpace before) (h : IsValue cs) (ha : IsSpace after) :
      IsItems (before ++ cs ++ after)
  | more {before cs after rest : List Char} (hb : IsSpace before) (h : IsValue cs)
      (ha : IsSpace after) (hrest : IsItems rest) : IsItems (before ++ cs ++ after ++ ',' :: rest)

/-- The members of an object, at least one. -/
inductive IsMembers : List Char → Prop
  | last {before key middle cs after : List Char} (hb : IsSpace before) (hkey : IsString key)
      (hm : IsSpace middle) (h : IsValue cs) (ha : IsSpace after) :
      IsMembers (before ++ key ++ ':' :: middle ++ cs ++ after)
  | more {before key middle cs after rest : List Char} (hb : IsSpace before) (hkey : IsString key)
      (hm : IsSpace middle) (h : IsValue cs) (ha : IsSpace after) (hrest : IsMembers rest) :
      IsMembers (before ++ key ++ ':' :: middle ++ cs ++ after ++ ',' :: rest)

end

/-! ## Strings -/

theorem isChars_unitEscape (n : Nat) {cs : List Char} (h : IsChars cs) :
    IsChars (unitEscape n ++ cs) :=
  .unit (Text.length_hexPadded false 4 n) (fun _ hc => Text.isSome_hexDigit_of_mem hc) h

/-- A character is written as an escape of one letter, as itself, or by its code units. -/
theorem escapeChar_cases (c : Char) :
    (∃ l ∈ ['"', '\\', '/', 'b', 'f', 'n', 'r', 't'],
      escaped l = some c ∧ escapeChar c = ['\\', l]) ∨
    ((0x20 ≤ c.toNat ∧ c ≠ '"' ∧ c ≠ '\\') ∧ escapeChar c = [c]) ∨
    (c.toNat < 0x10000 ∧ escapeChar c = unitEscape c.toNat) ∨
    (0x10000 ≤ c.toNat ∧ escapeChar c = unitEscape (0xD800 + (c.toNat - 0x10000) / 0x400) ++
      unitEscape (0xDC00 + (c.toNat - 0x10000) % 0x400)) := by
  have hletter : ∀ d l, l ∈ ['"', '\\', '/', 'b', 'f', 'n', 'r', 't'] → escaped l = some d →
      escapeChar d = ['\\', l] → (c == d) = true →
      ∃ l ∈ ['"', '\\', '/', 'b', 'f', 'n', 'r', 't'],
        escaped l = some c ∧ escapeChar c = ['\\', l] := by
    intro d l hl hd hwritten hc
    obtain rfl := beq_iff_eq.mp hc
    exact ⟨l, hl, hd, hwritten⟩
  by_cases hquote : (c == '"') = true
  · exact .inl (hletter _ '"' (by decide) rfl rfl hquote)
  by_cases hbackslash : (c == '\\') = true
  · exact .inl (hletter _ '\\' (by decide) rfl rfl hbackslash)
  by_cases hline : (c == '\n') = true
  · exact .inl (hletter _ 'n' (by decide) rfl rfl hline)
  by_cases hreturn : (c == '\r') = true
  · exact .inl (hletter _ 'r' (by decide) rfl rfl hreturn)
  by_cases htab : (c == '\t') = true
  · exact .inl (hletter _ 't' (by decide) rfl rfl htab)
  by_cases hback : (c == '\x08') = true
  · exact .inl (hletter _ 'b' (by decide) rfl rfl hback)
  by_cases hfeed : (c == '\x0c') = true
  · exact .inl (hletter _ 'f' (by decide) rfl rfl hfeed)
  unfold escapeChar
  rw [if_neg hquote, if_neg hbackslash, if_neg hline, if_neg hreturn, if_neg htab, if_neg hback,
    if_neg hfeed]
  split
  · next hplain =>
    have hle : ' ' ≤ c := by simpa using (Bool.and_eq_true_iff.mp hplain).1
    exact .inr (.inl ⟨⟨hle, by simpa using hquote, by simpa using hbackslash⟩, rfl⟩)
  split
  · next hunit => exact .inr (.inr (.inl ⟨hunit, rfl⟩))
  · next hunit => exact .inr (.inr (.inr ⟨Nat.not_lt.mp hunit, rfl⟩))

/-- A character is written as characters that may stand between quotes. -/
theorem isChars_escape (c : Char) {cs : List Char} (h : IsChars cs) :
    IsChars (escapeChar c ++ cs) := by
  obtain ⟨l, hl, -, hc⟩ | ⟨hplain, hc⟩ | ⟨-, hc⟩ | ⟨-, hc⟩ := escapeChar_cases c <;> rw [hc]
  · exact .escaped hl h
  · exact .unescaped hplain h
  · exact isChars_unitEscape c.toNat h
  · rw [List.append_assoc]
    exact isChars_unitEscape _ (isChars_unitEscape _ h)

/-- A text in quotes is a string. -/
theorem isString_quote (s : String) : IsString (quote s).toList := by
  have hchars : ∀ cs : List Char, IsChars (cs.flatMap escapeChar) := by
    intro cs
    induction cs with
    | nil => exact .nil
    | cons c cs ih => exact isChars_escape c ih
  unfold quote
  rw [String.toList_ofList]
  exact .quoted (hchars s.toList)

end Json

end GraphPaths
