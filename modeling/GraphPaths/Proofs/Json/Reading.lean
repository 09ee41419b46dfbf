import GraphPaths.Proofs.Json.Scalar
import GraphPaths.Proofs.Value.Record

/-!
# What is read from JSON

A value is read back from its text, without its labels, if the keys of its mappings are texts, none
of them twice, and its numbers are those of the format (`read_text`). A list is read item by item
and a mapping entry by entry (`items_comma`, `entries_comma`): rows of texts that are read as values
are read as the row of the values (`items_row`, `entries_row`).
-/

namespace GraphPaths

namespace Json

/-! ## Steps through a row -/

section

variable {fuel : Nat} {cs r r' : List Char} {v : Value} (hv : value fuel cs = .ok (v, r))
include hv

/-- After an item and a comma there is another item. -/
theorem items_comma (acc : List Value) (hr : skipSpace r = ',' :: r') :
    items (fuel + 1) acc cs = items fuel (v :: acc) (skipSpace r') := by
  rw [items, hv]
  simp only [bind, Except.bind, hr]

/-- An item and a bracket end a list. -/
theorem items_close (acc : List Value) (hr : skipSpace r = ']' :: r') :
    items (fuel + 1) acc cs = .ok (acc.reverse ++ [v], r') := by
  rw [items, hv]
  simp only [bind, Except.bind, hr, List.reverse_cons]
  rfl

variable {key : String} {ks ks' cs' : List Char} (hkey : string ks = .ok (key, ks'))
  (hcolon : skipSpace ks' = ':' :: cs') (hcs : skipSpace cs' = cs)
include hkey hcolon hcs

/-- After an entry and a comma there is another entry. -/
theorem entries_comma (acc : List (Value × Value)) (hr : skipSpace r = ',' :: r') :
    entries (fuel + 1) acc ('"' :: ks) = entries fuel ((.text key, v) :: acc) (skipSpace r') := by
  rw [entries]
  simp only [hkey, bind, Except.bind, hcolon, hcs, hv, hr]

/-- An entry and a bracket end a mapping. -/
theorem entries_close (acc : List (Value × Value)) (hr : skipSpace r = '\x7d' :: r') :
    entries (fuel + 1) acc ('"' :: ks) = .ok (acc.reverse ++ [(.text key, v)], r') := by
  rw [entries]
  simp only [hkey, bind, Except.bind, hcolon, hcs, hv, hr, List.reverse_cons]
  rfl

end

/-! ## Rows -/

/-- White space is skipped up to what is none. -/
theorem skipSpace_append {space cs : List Char} (h : IsSpace space) {c : Char}
    (hc : c ∉ [' ', '\t', '\n', '\r']) : skipSpace (space ++ c :: cs) = c :: cs := by
  have hspace : ∀ d ∈ space, isSpace d = true := by
    intro d hd
    have := h d hd
    simp only [List.mem_cons, List.not_mem_nil, or_false] at this
    rcases this with rfl | rfl | rfl | rfl <;> decide
  have hnone : ¬isSpace c = true := by
    simpa [isSpace, or_assoc] using hc
  unfold skipSpace
  rw [List.dropWhile_append_of_pos hspace, List.dropWhile_cons_of_neg hnone]

theorem ReadsAs.skipSpace_append {text : String} {v : Value} (h : ReadsAs text v)
    {space : List Char} (hs : IsSpace space) (cs : List Char) :
    skipSpace (space ++ (text.toList ++ cs)) = text.toList ++ cs := by
  obtain ⟨c, text, htext, hc⟩ := h.exists_cons
  rw [htext]
  exact Json.skipSpace_append hs (by simp_all)

/-- A number ends where a comma, white space or a closing bracket follows. -/
theorem endsNumber_append {space : List Char} (h : IsSpace space) {c : Char}
    (hc : c ∈ [',', ']', '\x7d']) (cs : List Char) : EndsNumber (space ++ c :: cs) := by
  have hends : ∀ d ∈ [' ', '\t', '\n', '\r', ',', ']', '\x7d'],
      d.isDigit = false ∧ d ∉ ['.', 'e', 'E'] := by
    intro d hd
    simp only [List.mem_cons, List.not_mem_nil, or_false] at hd
    rcases hd with rfl | rfl | rfl | rfl | rfl | rfl | rfl <;> decide
  intro d hd
  refine hends d ?_
  cases space with
  | nil =>
    obtain rfl := Option.some.inj hd
    exact List.mem_append_right [' ', '\t', '\n', '\r'] hc
  | cons e space =>
    obtain rfl := Option.some.inj hd
    exact List.mem_append_left [',', ']', '\x7d'] (h e List.mem_cons_self)

/-- The parts of a row after the first, each behind a comma and white space, and what follows. -/
def rowTail (space : List Char) : List String → List Char → List Char
  | [], cs => cs
  | part :: parts, cs => ',' :: (space ++ (part.toList ++ rowTail space parts cs))

theorem toList_intercalate (space part : String) (cs : List Char) : ∀ parts : List String,
    (("," ++ space).intercalate (part :: parts)).toList ++ cs =
      part.toList ++ rowTail space.toList parts cs := by
  intro parts
  induction parts generalizing part with
  | nil => rw [String.intercalate_singleton, rowTail]
  | cons next parts ih =>
    rw [String.intercalate_cons_cons, String.toList_append, List.append_assoc, ih, rowTail]
    simp

/-- A text is read as an entry of a mapping. -/
def ReadsAsEntry (text : String) (e : Value × Value) : Prop :=
  ∃ key value : String, text = quote key ++ ": " ++ value ∧ e.1 = .text key ∧ ReadsAs value e.2

/-- An entry starts with a quote, and behind the key and a colon there is the value. -/
theorem toList_entry (key value : String) (cs : List Char) :
    (quote key ++ ": " ++ value).toList ++ cs = '"' :: (key.toList.flatMap escapeChar ++
      '"' :: ([] ++ ':' :: ([' '] ++ (value.toList ++ cs)))) := by
  unfold quote
  simp

theorem ReadsAsEntry.exists_cons {text : String} {e : Value × Value} (h : ReadsAsEntry text e) :
    ∃ cs, text.toList = '"' :: cs := by
  obtain ⟨key, value, rfl, -⟩ := h
  exact ⟨_, (List.append_nil _).symm.trans (toList_entry key value [])⟩

section

variable {space after : List Char} (hs : IsSpace space) (ha : IsSpace after) (rest : List Char)
include hs ha

/-- A row of texts is read as the items of a list. -/
theorem items_row {part : String} {parts : List String} {v : Value} {vs : List Value}
    (hv : ReadsAs part v) (hvs : List.Forall₂ ReadsAs parts vs) {fuel : Nat} (acc : List Value)
    (hfuel : 2 * (part.toList ++ rowTail space parts []).length < fuel) :
    items fuel acc (part.toList ++ rowTail space parts (after ++ ']' :: rest)) =
      .ok (acc.reverse ++ v :: vs, rest) := by
  induction hvs generalizing part v fuel acc with
  | nil =>
    rw [List.length_append] at hfuel
    obtain ⟨fuel, rfl⟩ := Nat.exists_eq_succ_of_ne_zero (Nat.ne_zero_of_lt hfuel)
    have hread := hv fuel (after ++ ']' :: rest) (by omega) (endsNumber_append ha (by decide) rest)
    exact items_close hread acc (skipSpace_append ha (by decide))
  | @cons next w parts vs hw _ ih =>
    simp only [rowTail, List.length_append, List.length_cons] at hfuel
    obtain ⟨fuel, rfl⟩ := Nat.exists_eq_succ_of_ne_zero (Nat.ne_zero_of_lt hfuel)
    have hread := hv fuel (rowTail space (next :: parts) (after ++ ']' :: rest)) (by omega)
      (endsNumber_append isSpace_nil (by decide) _)
    rw [items_comma hread acc (skipSpace_append isSpace_nil (by decide)), hw.skipSpace_append hs,
      ih hw (v :: acc) (by rw [List.length_append]; omega), List.reverse_cons, List.append_assoc]
    rfl

/-- A row of texts is read as the entries of a mapping. -/
theorem entries_row {part : String} {parts : List String} {e : Value × Value}
    {es : List (Value × Value)} (he : ReadsAsEntry part e)
    (hes : List.Forall₂ ReadsAsEntry parts es) {fuel : Nat} (acc : List (Value × Value))
    (hfuel : 2 * (part.toList ++ rowTail space parts []).length < fuel) :
    entries fuel acc (part.toList ++ rowTail space parts (after ++ '\x7d' :: rest)) =
      .ok (acc.reverse ++ e :: es, rest) := by
  induction hes generalizing part e fuel acc with
  | nil =>
    obtain ⟨key, text, rfl, hkey, hv⟩ := he
    rw [toList_entry] at hfuel ⊢
    simp only [List.length_append, List.length_cons] at hfuel
    obtain ⟨fuel, rfl⟩ := Nat.exists_eq_succ_of_ne_zero (Nat.ne_zero_of_lt hfuel)
    have hread := hv fuel (after ++ '\x7d' :: rest) (by omega)
      (endsNumber_append ha (by decide) rest)
    rw [rowTail, entries_close hread (string_quote key _) (skipSpace_append isSpace_nil (by decide))
      (hv.skipSpace_append isSpace_blank _) acc (skipSpace_append ha (by decide)), ← hkey]
  | @cons next e' parts es he' _ ih =>
    obtain ⟨k, v⟩ := e
    obtain ⟨key, text, rfl, hkey, hv⟩ := he
    obtain rfl : k = .text key := hkey
    obtain ⟨cs, hcs⟩ := he'.exists_cons
    have hnext : ∀ cs', skipSpace (space ++ (next.toList ++ cs')) = next.toList ++ cs' := by
      intro cs'
      rw [hcs]
      exact skipSpace_append hs (by decide)
    rw [toList_entry] at hfuel ⊢
    simp only [rowTail, List.length_append, List.length_cons] at hfuel
    obtain ⟨fuel, rfl⟩ := Nat.exists_eq_succ_of_ne_zero (Nat.ne_zero_of_lt hfuel)
    have hread := hv fuel (rowTail space (next :: parts) (after ++ '\x7d' :: rest)) (by omega)
      (endsNumber_append isSpace_nil (by decide) _)
    rw [entries_comma hread (string_quote key _) (skipSpace_append isSpace_nil (by decide))
      (hv.skipSpace_append isSpace_blank _) acc (skipSpace_append isSpace_nil (by decide)), hnext,
      ih he' ((.text key, v) :: acc) (by rw [List.length_append]; omega), List.reverse_cons,
      List.append_assoc]
    rfl

end

/-! ## Values -/

/-- Whether keys are texts, none of them twice. -/
def areNames (ks : List Value) : Bool :=
  ks.all (fun k => k.text?.isSome) && decide (ks.filterMap Value.text?).Nodup

theorem areNames_iff {ks : List Value} :
    areNames ks ↔ ∃ names : List String, names.Nodup ∧ ks = names.map Value.text := by
  have htexts : (∀ k ∈ ks, k.text?.isSome) → ks = (ks.filterMap Value.text?).map Value.text := by
    intro h
    induction ks with
    | nil => rfl
    | cons k ks ih =>
      obtain ⟨hk, hks⟩ := List.forall_mem_cons.mp h
      cases k with
      | text s => exact congrArg (Value.text s :: ·) (ih hks)
      | _ => contradiction
  have hnames : ∀ names : List String, (names.map Value.text).filterMap Value.text? = names := by
    intro names
    rw [List.filterMap_map]
    exact List.filterMap_some
  unfold areNames
  rw [Bool.and_eq_true, List.all_eq_true, decide_eq_true_eq]
  constructor
  · exact fun ⟨hall, hnodup⟩ => ⟨_, hnodup, htexts hall⟩
  · rintro ⟨names, hnodup, rfl⟩
    rw [hnames]
    exact ⟨List.forall_mem_map.mpr fun _ _ => rfl, hnodup⟩

end Json

/-- Whether a value is read back from its text. -/
def Value.isReadable (v : Value) : Bool := v.all Json.hasReading Json.areNames

namespace Json

theorem value_list {fuel : Nat} {r cs rest : List Char} {xs : List Value} (hr : skipSpace r = cs)
    (hclose : ∀ r', cs ≠ ']' :: r') (h : items fuel [] cs = .ok (xs, rest)) :
    value (fuel + 1) ('[' :: r) = .ok (.list xs, rest) := by
  rw [value]
  split
  · next heq => exact absurd (hr.symm.trans heq) (hclose _)
  · rw [hr, h]
    rfl

theorem value_map {fuel : Nat} {r cs rest : List Char} {es : List (Value × Value)}
    (hr : skipSpace r = cs) (hclose : ∀ r', cs ≠ '\x7d' :: r')
    (h : entries fuel [] cs = .ok (es, rest)) :
    value (fuel + 1) ('\x7b' :: r) = .ok (.map (Value.ofEntries es), rest) := by
  rw [value]
  split
  · next heq => exact absurd (hr.symm.trans heq) (hclose _)
  · rw [hr, h]
    rfl

theorem length_rowTail (space : List Char) (parts : List String) (cs : List Char) :
    (rowTail space parts cs).length = (rowTail space parts []).length + cs.length := by
  induction parts with
  | nil => simp [rowTail]
  | cons part parts ih =>
    simp only [rowTail, List.length_cons, List.length_append, ih]
    omega

/-- The characters of a list or a mapping, and what follows. -/
theorem toList_bracket_append (opening closing part : String) (parts : List String) (level : Nat)
    (cs : List Char) : (bracket opening closing level (part :: parts)).toList ++ cs =
      opening.toList ++ ((newLine (level + 1)).toList ++ (part.toList ++
        rowTail (newLine (level + 1)).toList parts
          ((newLine level).toList ++ (closing.toList ++ cs)))) := by
  rw [toList_bracket, ← toList_intercalate]
  simp only [String.toList_append, List.append_assoc]

/-- A key that is a text loses only its labels. -/
theorem plain_of_bare {k : Value} {s : String} (h : k.bare = .text s) : k.plain = .text s := by
  induction k using Value.bare.induct with
  | case1 l v ih => exact ih h
  | case2 v hv =>
    cases v with
    | shared l w => exact absurd rfl (hv l w)
    | text t => exact h
    | _ => contradiction

/-- Entries whose keys are names are the fields of a record. -/
theorem exists_fields_plainEntries : ∀ {es : List (Value × Value)} {names : List String},
    Value.keys es = names.map Value.text → ∃ fields : List (String × Value),
      Value.map (Value.plainEntries es) = .record fields ∧ fields.map Prod.fst = names
  | [], [], _ => ⟨[], rfl, rfl⟩
  | (k, v) :: es, name :: names, h => by
    obtain ⟨hk, hes⟩ := List.cons.inj h
    obtain ⟨fields, hfields, hnames⟩ := @exists_fields_plainEntries es names hes
    refine ⟨(name, v.plain) :: fields, ?_, by rw [List.map_cons, hnames]⟩
    rw [Value.plainEntries, Value.map.inj hfields, plain_of_bare hk]
    rfl

theorem readsAs_noItems : ReadsAs "[]" (.list []) := by
  intro fuel rest hfuel _
  obtain ⟨fuel, rfl⟩ := Nat.exists_eq_succ_of_ne_zero (n := fuel) (by rintro rfl; contradiction)
  rfl

theorem readsAs_noEntries : ReadsAs "\x7b\x7d" (.map []) := by
  intro fuel rest hfuel _
  obtain ⟨fuel, rfl⟩ := Nat.exists_eq_succ_of_ne_zero (n := fuel) (by rintro rfl; contradiction)
  rfl

/-- The characters of a row are fewer than those of the list or mapping. -/
theorem length_row_lt {opening closing part : String} {parts : List String} {level fuel : Nat}
    (hopening : opening ≠ "")
    (h : 2 * (bracket opening closing level (part :: parts)).toList.length ≤ fuel) :
    ∃ fuel', fuel = fuel' + 1 ∧
      2 * (part.toList ++ rowTail (newLine (level + 1)).toList parts []).length < fuel' := by
  have hlength := congrArg List.length (toList_bracket_append opening closing part parts level [])
  have hpos : 0 < opening.toList.length :=
    List.length_pos_iff.mpr fun h => hopening (String.toList_inj.mp h)
  rw [List.append_nil, List.length_append, List.length_append, List.length_append,
    length_rowTail] at hlength
  rw [List.length_append]
  exact ⟨fuel - 1, by omega, by omega⟩

theorem readsAs_list {level : Nat} {part : String} {parts : List String} {v : Value}
    {vs : List Value} (hv : ReadsAs part v) (hvs : List.Forall₂ ReadsAs parts vs) :
    ReadsAs (bracket "[" "]" level (part :: parts)) (.list (v :: vs)) := by
  intro fuel rest hfuel _
  obtain ⟨fuel, rfl, hrow⟩ := length_row_lt (by decide) hfuel
  have hitems := items_row (isSpace_newLine (level + 1)) (isSpace_newLine level) rest hv hvs [] hrow
  rw [toList_bracket_append]
  refine value_list (hv.skipSpace_append (isSpace_newLine (level + 1)) _) (fun r h => ?_) hitems
  obtain ⟨c, cs, hc, hstarts⟩ := hv.exists_cons
  rw [hc] at h
  rw [(List.cons.inj h).1] at hstarts
  exact absurd hstarts (by decide)

theorem readsAs_map {level : Nat} {part : String} {parts : List String} {e : Value × Value}
    {es : List (Value × Value)} (he : ReadsAsEntry part e)
    (hes : List.Forall₂ ReadsAsEntry parts es) :
    ReadsAs (bracket "\x7b" "\x7d" level (part :: parts)) (.map (Value.ofEntries (e :: es))) := by
  intro fuel rest hfuel _
  obtain ⟨fuel, rfl, hrow⟩ := length_row_lt (by decide) hfuel
  have hentries := entries_row (isSpace_newLine (level + 1)) (isSpace_newLine level) rest he hes []
    hrow
  obtain ⟨cs, hcs⟩ := he.exists_cons
  rw [toList_bracket_append]
  refine value_map ?_ (fun r h => ?_) hentries
  · rw [hcs]
    exact skipSpace_append (isSpace_newLine (level + 1)) (by decide)
  · rw [hcs] at h
    exact absurd (List.cons.inj h).1 (by decide)

mutual

/-- A value is read back from its text, without its labels. -/
theorem readsAs_write : ∀ {level : Nat} {v : Value} {text : String}, write level v = .ok text →
    v.all hasReading areNames → ReadsAs text v.plain
  | _, .null, _, h, _ => by
    obtain rfl := Except.ok.inj h
    exact readsAs_word ['n', 'u', 'l', 'l'] (by simp [wordValues_eq, Value.plain])
  | _, .bool b, _, h, _ => by
    obtain rfl := Except.ok.inj h
    cases b with
    | false => exact readsAs_word ['f', 'a', 'l', 's', 'e'] (by simp [wordValues_eq, Value.plain])
    | true => exact readsAs_word ['t', 'r', 'u', 'e'] (by simp [wordValues_eq, Value.plain])
  | _, .int i, _, h, _ => readsAs_integer h
  | _, .float x, _, h, hv => by
    obtain rfl := Except.ok.inj h
    exact readsAs_number hv
  | _, .text s, _, h, _ => by
    obtain rfl := Except.ok.inj h
    exact readsAs_quote s
  | _, .list [], _, h, _ => by
    obtain rfl := Except.ok.inj h
    exact readsAs_noItems
  | level, .list (x :: xs), _, h, hv => by
    obtain ⟨hx, hxs⟩ := Bool.and_eq_true_iff.mp hv
    obtain ⟨first, hfirst, h⟩ := bind_eq_ok.mp h
    obtain ⟨rest, hrest, h⟩ := bind_eq_ok.mp h
    obtain rfl := Except.ok.inj h
    exact readsAs_list (readsAs_write hfirst hx) (readsAs_writeItems hrest hxs)
  | level, .map es, _, h, hv => by
    obtain ⟨hkeys, hes⟩ := Bool.and_eq_true_iff.mp hv
    obtain ⟨names, hnodup, hnames⟩ := areNames_iff.mp hkeys
    obtain ⟨fields, hfields, rfl⟩ := exists_fields_plainEntries hnames
    obtain ⟨parts, hparts, h⟩ := bind_eq_ok.mp h
    obtain rfl := Except.ok.inj h
    have hrow := readsAs_writeEntries hparts hnames hes
    have hdistinct := Value.ofEntries_of_nodup hnodup
    rw [show fields.map _ = _ from (Value.map.inj hfields).symm] at hdistinct
    show ReadsAs _ (.map (Value.plainEntries es))
    generalize Value.plainEntries es = plain at hrow hdistinct
    cases hrow with
    | nil => exact readsAs_noEntries
    | cons he hes => exact hdistinct ▸ readsAs_map he hes
  | _, .shared _ v, _, h, hv => readsAs_write (v := v) h hv

theorem readsAs_writeItems : ∀ {level : Nat} {xs : List Value} {texts : List String},
    writeItems level xs = .ok texts → Value.allItems hasReading areNames xs →
      List.Forall₂ ReadsAs texts (Value.plainItems xs)
  | _, [], _, h, _ => by
    obtain rfl := Except.ok.inj h
    exact .nil
  | _, x :: xs, _, h, hv => by
    obtain ⟨hx, hxs⟩ := Bool.and_eq_true_iff.mp hv
    obtain ⟨first, hfirst, h⟩ := bind_eq_ok.mp h
    obtain ⟨rest, hrest, h⟩ := bind_eq_ok.mp h
    obtain rfl := Except.ok.inj h
    exact .cons (readsAs_write hfirst hx) (readsAs_writeItems hrest hxs)

theorem readsAs_writeEntries : ∀ {level : Nat} {es : List (Value × Value)}
    {names texts : List String}, writeEntries level es = .ok texts → Value.keys es = names.map Value.text →
      Value.allEntries hasReading areNames es →
        List.Forall₂ ReadsAsEntry texts (Value.plainEntries es)
  | _, [], _, _, h, _, _ => by
    obtain rfl := Except.ok.inj h
    exact .nil
  | _, (k, v) :: es, name :: names, _, h, hnames, hv => by
    obtain ⟨hk, hnames⟩ := List.cons.inj hnames
    obtain ⟨hv, hes⟩ := Bool.and_eq_true_iff.mp hv
    obtain ⟨key, hkey, h⟩ := bind_eq_ok.mp h
    obtain ⟨first, hfirst, h⟩ := bind_eq_ok.mp h
    obtain ⟨rest, hrest, h⟩ := bind_eq_ok.mp h
    obtain rfl := Except.ok.inj h
    obtain rfl : name = key := by
      unfold keyText at hkey
      rw [show k.bare = .text name from hk] at hkey
      exact Except.ok.inj hkey
    exact .cons ⟨name, first, rfl, plain_of_bare hk, readsAs_write hfirst hv⟩
      (readsAs_writeEntries hrest hnames hes)

end

/-- What is read back can be written. -/
theorem isWritable_of_isReadable {v : Value} (h : v.isReadable) : v.isWritable := by
  refine Value.all_mono (fun v hv => ?_) (fun ks hks => ?_) h
  · cases v with
    | float x => rfl
    | _ => exact hv
  · obtain ⟨names, -, rfl⟩ := areNames_iff.mp hks
    exact List.all_eq_true.mpr (List.forall_mem_map.mpr fun _ _ => rfl)

/-- The text of a value is read as the value without its labels, if its keys are texts, none of them
twice in a mapping, and its numbers are those of the format. -/
theorem read_text {v : Value} {text : String} (h : Json.text v = .ok text) (hv : v.isReadable) :
    read text = .ok v.plain := by
  have hreads := readsAs_write h hv
  have hskip := hreads.skipSpace_append isSpace_nil []
  have hread := hreads (2 * text.toList.length + 2) [] (by omega) nofun
  obtain ⟨c, cs, htext, hc⟩ := hreads.exists_cons
  rw [List.append_nil] at hskip hread
  rw [List.nil_append] at hskip
  have hmark : (text.toList.head? == some '\ufeff') = false := by
    rw [htext]
    simp_all
  have hdocument : document text.toList = .ok v.plain := by
    unfold document
    rw [hmark, hskip, hread]
    rfl
  unfold read
  simp only [hdocument]

end Json

end GraphPaths
