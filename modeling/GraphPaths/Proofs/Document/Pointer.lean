import GraphPaths.Proofs.Graphql.Tokens
import GraphPaths.Proofs.Text.Parts
import GraphPaths.Proofs.Value.Record
import GraphPaths.Text.Utf8

/-!
# Pointers into a document

A reference to a part of the same document is a hash and a pointer behind it, in which any byte may
stand as two hexadecimal digits after a per cent sign. A pointer is a row of tokens with a slash in
front of each; inside a token `~1` is a slash and `~0` a tilde. A token leads to the member of a
mapping that has it as its key, or to the item of a list with that number (`Value.resolve?`).

A text of name characters stands for itself in a pointer (`ofReference_names`), and what is found
under one text after another is what the pointer of these texts leads to (`resolve?_of_at?`).
-/

namespace GraphPaths

/-! ## The tokens of a reference -/

namespace Pointer

/-- The bytes of what follows the hash, each as itself or in hexadecimal. -/
def bytes : List Char → Option (List Nat)
  | [] => some []
  | '%' :: high :: low :: r => do
    let a ← Text.hexDigit high
    let b ← Text.hexDigit low
    let rest ← bytes r
    return (16 * a + b) :: rest
  | c :: r => if c == '%' || 128 ≤ c.toNat then none else (bytes r).map (c.toNat :: ·)

/-- A token with its escapes read. -/
def unescape : List Char → Option (List Char)
  | [] => some []
  | '~' :: '0' :: r => (unescape r).map ('~' :: ·)
  | '~' :: '1' :: r => (unescape r).map ('/' :: ·)
  | c :: r => if c == '~' then none else (unescape r).map (c :: ·)

/-- The tokens of a pointer; the empty pointer has none. -/
def tokens : List Char → Option (List String)
  | [] => some []
  | c :: r =>
    if c == '/' then (Text.splitAt '/' r).mapM fun part => (unescape part).map String.ofList
    else none

/-- The tokens of a reference. -/
def ofReference (reference : String) : Option (List String) :=
  match reference.toList with
  | '#' :: r => (bytes r).bind fun bs => (Text.Utf8.decode bs).toOption.bind fun s => tokens s.toList
  | _ => none

/-- The number that a token is the numeral of, without noughts in front. -/
def index? (token : String) : Option Nat :=
  let n := Nat.ofDigitChars 10 token.toList 0
  if Text.decimal n == token then some n else none

end Pointer

/-! ## What a reference leads to -/

namespace Value

/-- What a token leads to. -/
def step? (v : Value) (token : String) : Option Value :=
  match v.items? with
  | some xs => (Pointer.index? token).bind fun i => xs[i]?
  | none => v.get? token

/-- What tokens lead to, one after another. -/
def pointed? : Value → List String → Option Value
  | v, [] => some v
  | v, token :: rest => (v.step? token).bind fun w => w.pointed? rest

/-- The part of a document that a reference leads to. -/
def resolve? (document reference : Value) : Option Value :=
  (reference.text?.bind Pointer.ofReference).bind document.pointed?

theorem step?_of_get? {v w : Value} {key : String} (h : v.get? key = some w) :
    v.step? key = some w := by
  have hitems : v.items? = none := by
    unfold get? entries? at h
    unfold items?
    cases hbare : v.bare <;> simp [hbare] at h ⊢
  rw [step?, hitems]
  exact h

theorem pointed?_of_at? : ∀ {path : List String} {v w : Value}, v.at? path = some w →
    v.pointed? path = some w
  | [], _, _, h => h
  | key :: path, v, w, h => by
    obtain ⟨u, hu, h⟩ := Option.bind_eq_some_iff.mp h
    rw [pointed?, step?_of_get? hu]
    exact pointed?_of_at? h

/-- What is found under one text after another is what their pointer leads to. -/
theorem resolve?_of_at? {document w : Value} {reference : String} {path : List String}
    (href : Pointer.ofReference reference = some path) (h : document.at? path = some w) :
    document.resolve? (.text reference) = some w := by
  rw [resolve?, text?, Option.bind_some, href]
  exact pointed?_of_at? h

end Value

/-! ## Characters that stand for themselves -/

namespace Text.Utf8

/-- A byte below 128 is the character of its number. -/
theorem decodeFrom_ascii : ∀ (cs acc : List Char) (position : Nat), (∀ c ∈ cs, c.toNat < 128) →
    decodeFrom cs.length position acc (cs.map Char.toNat) = .ok (acc.reverse ++ cs)
  | [], acc, _, _ => by rw [List.append_nil]; rfl
  | c :: cs, acc, position, h => by
    have hlength : lengthOf c.toNat = 1 := by
      have := h c List.mem_cons_self
      rw [lengthOf, if_pos (by omega)]
    have hcode : Char.ofNat (code (c.toNat :: (cs.map Char.toNat).take 0)) = c := by
      rw [List.take_zero, code, Char.ofNat_toNat]
    have ih := decodeFrom_ascii cs (c :: acc) (position + 1) fun d hd =>
      h d (List.mem_cons_of_mem c hd)
    rw [List.length_cons, List.map_cons, decodeFrom]
    simp only [hlength, hcode]
    rw [List.reverse_cons, List.append_assoc] at ih
    exact ih

/-- Bytes below 128 are decoded one by one. -/
theorem decode_ascii {cs : List Char} (h : ∀ c ∈ cs, c.toNat < 128) :
    decode (cs.map Char.toNat) = .ok (String.ofList cs) := by
  have := decodeFrom_ascii cs [] 0 h
  rw [decode, List.length_map, this]
  rfl

end Text.Utf8

namespace Pointer

/-- Whether a character stands for itself in a reference. -/
def isPlain (c : Char) : Bool := c == '/' || Graphql.isNameChar c

theorem isPlain_facts {c : Char} (h : isPlain c) : c.toNat < 128 ∧ c ≠ '%' ∧ c ≠ '~' := by
  have hlt : c.toNat < 128 := by
    simp only [isPlain, Graphql.isNameChar, Graphql.isNameStart, Graphql.isDigit, Bool.or_eq_true,
      Bool.and_eq_true, decide_eq_true_eq, beq_iff_eq, Text.charLe_iff, Text.charEq_iff,
      Char.reduceToNat] at h
    omega
  refine ⟨hlt, ?_⟩
  exact Text.forall_ascii (fun c => isPlain c → c ≠ '%' ∧ c ≠ '~') (by decide +kernel) hlt h

theorem bytes_plain : ∀ {cs : List Char}, (∀ c ∈ cs, isPlain c) → bytes cs = some (cs.map Char.toNat)
  | [], _ => rfl
  | c :: cs, h => by
    obtain ⟨hlt, hpercent, -⟩ := isPlain_facts (h c List.mem_cons_self)
    have hcond : (c == '%' || decide (128 ≤ c.toNat)) = false := by simp [hpercent, hlt]
    have ih := bytes_plain fun d hd => h d (List.mem_cons_of_mem c hd)
    unfold bytes
    split
    · contradiction
    · next heq => exact absurd (List.cons.inj heq).1 hpercent
    · next heq =>
      obtain ⟨rfl, rfl⟩ := List.cons.inj heq
      rw [if_neg (by simp [hcond]), ih]
      rfl

theorem unescape_plain : ∀ {cs : List Char}, (∀ c ∈ cs, isPlain c) → unescape cs = some cs
  | [], _ => rfl
  | c :: cs, h => by
    obtain ⟨-, -, htilde⟩ := isPlain_facts (h c List.mem_cons_self)
    have ih := unescape_plain fun d hd => h d (List.mem_cons_of_mem c hd)
    unfold unescape
    split
    · contradiction
    · next heq => exact absurd (List.cons.inj heq).1 htilde
    · next heq => exact absurd (List.cons.inj heq).1 htilde
    · next heq =>
      obtain ⟨rfl, rfl⟩ := List.cons.inj heq
      rw [if_neg (by simpa using htilde), ih]
      rfl

/-- A token of name characters has no slash and needs no escapes. -/
theorem token_facts {token : String} (h : token.toList.all Graphql.isNameChar) :
    '/' ∉ token.toList ∧ unescape token.toList = some token.toList := by
  have hall := List.all_eq_true.mp h
  exact ⟨fun hslash => absurd (hall _ hslash) (by decide),
    unescape_plain fun c hc => by simp [isPlain, hall c hc]⟩

/-- The characters of a pointer with these tokens, where none needs an escape. -/
def chars (path : List String) : List Char := path.flatMap fun token => '/' :: token.toList

/-- The tokens of the pointer of some texts of name characters. -/
theorem tokens_chars : ∀ (path : List String), (∀ token ∈ path, token.toList.all Graphql.isNameChar) →
    tokens (chars path) = some path := by
  have hparts : ∀ (path : List String) (token : String),
      (∀ t ∈ token :: path, t.toList.all Graphql.isNameChar) →
      ((Text.splitAt '/' (token.toList ++ chars path)).mapM fun part =>
        (unescape part).map String.ofList) = some (token :: path) := by
    intro path
    induction path with
    | nil =>
      intro token h
      obtain ⟨hslash, hread⟩ := token_facts (h token List.mem_cons_self)
      rw [chars, List.flatMap_nil, List.append_nil, Text.splitAt_of_notMem hslash]
      simp [hread]
    | cons next path ih =>
      intro token h
      obtain ⟨hslash, hread⟩ := token_facts (h token List.mem_cons_self)
      have hrest := ih next fun t ht => h t (List.mem_cons_of_mem token ht)
      have hchars : chars (next :: path) = '/' :: (next.toList ++ chars path) := rfl
      rw [hchars, Text.splitAt_append _ hslash, List.mapM_cons, hrest, hread]
      simp
  intro path h
  cases path with
  | nil => rfl
  | cons token path => exact hparts path token h

/-- Texts of name characters are the tokens of the reference that they are written in. -/
theorem ofReference_names {path : List String}
    (h : ∀ token ∈ path, token.toList.all Graphql.isNameChar) :
    ofReference (String.ofList ('#' :: chars path)) = some path := by
  have hplain : ∀ c ∈ chars path, isPlain c := by
    intro c hc
    obtain ⟨token, htoken, hc⟩ := List.mem_flatMap.mp hc
    rcases List.mem_cons.mp hc with rfl | hc
    · rfl
    · simp [isPlain, List.all_eq_true.mp (h token htoken) c hc]
  have hascii : ∀ c ∈ chars path, c.toNat < 128 := fun c hc => (isPlain_facts (hplain c hc)).1
  unfold ofReference
  rw [String.toList_ofList]
  show (bytes (chars path)).bind _ = _
  rw [bytes_plain hplain, Option.bind_some, Text.Utf8.decode_ascii hascii]
  show tokens (String.ofList (chars path)).toList = _
  rw [String.toList_ofList]
  exact tokens_chars path h

end Pointer

end GraphPaths
