import GraphPaths.Text.Capital

/-!
# Letter case

Words are compared without regard to case in two ways. `lower` puts every capital in lower case; a
capital I with a dot becomes two characters, and a capital sigma at the end of a word the final
sigma. `fold` changes ASCII capitals and maps the characters whose case folding is ASCII: the long s,
the Kelvin sign, the sharp s and the Latin ligatures.
-/

namespace GraphPaths.Text

/-- The lower case of an ASCII capital; any other character is its own. -/
def lowerChar (c : Char) : Char :=
  if 'A' ≤ c ∧ c ≤ 'Z' then Char.ofNat (c.toNat + 32) else c

/-- Whether a character is a letter with case. -/
def isCased (c : Char) : Bool :=
  ('A' ≤ c && c ≤ 'Z') || ('a' ≤ c && c ≤ 'z') || c == '\u0130' || (smallLetter? c).isSome
    || isSmallLetter c

/-- Whether a character inside a word is passed over when letters with case are looked for: marks,
points and apostrophes. -/
def isCaseIgnorable (c : Char) : Bool :=
  "'.:^`\u00a8\u00ad\u00af\u00b4\u00b7\u00b8\u2018\u2019".toList.contains c
    || ('\u0300' ≤ c && c ≤ '\u036f')

/-- Whether the first letter of a text, if it starts with one, has case. -/
def startsCased (cs : List Char) : Bool :=
  ((cs.dropWhile isCaseIgnorable).head?.map isCased).getD false

/-- The lower case of a character between others; those before are given last first. -/
def lowerIn (before : List Char) (c : Char) (after : List Char) : List Char :=
  if c.toNat < 128 then [lowerChar c]
  else if c == '\u0130' then ['i', '\u0307']
  else if c == '\u03a3' && startsCased before && !startsCased after then ['\u03c2']
  else [(smallLetter? c).getD c]

/-- The rest of a text in lower case; what came before is given last first. -/
def lowerFrom (before : List Char) : List Char → List Char
  | [] => []
  | c :: r => lowerIn before c r ++ lowerFrom (c :: before) r

/-- A text in lower case. -/
def lower (s : String) : String := String.ofList (lowerFrom [] s.toList)

/-- The capital of an ASCII letter; any other character is its own. -/
def upperChar (c : Char) : Char :=
  if 'a' ≤ c ∧ c ≤ 'z' then Char.ofNat (c.toNat - 32) else c

/-- A text with its ASCII letters as capitals. -/
def upper (s : String) : String := String.ofList (s.toList.map upperChar)

/-- The characters beyond ASCII whose folding is an ASCII text. -/
def asciiFoldings : List (Char × String) :=
  [('\xdf', "ss"), ('\u017f', "s"), ('\u1e9e', "ss"), ('\u212a', "k"), ('\ufb00', "ff"),
   ('\ufb01', "fi"), ('\ufb02', "fl"), ('\ufb03', "ffi"), ('\ufb04', "ffl"), ('\ufb05', "st"),
   ('\ufb06', "st")]

/-- A text folded for a comparison with an ASCII text without regard to case. -/
def fold (s : String) : String :=
  String.ofList (s.toList.flatMap fun c =>
    match asciiFoldings.lookup c with
    | some t => t.toList
    | none => [lowerChar c])

end GraphPaths.Text
