import GraphPaths.Proofs.Json.Number

/-!
# What JSON is written

A value can be written if none of its parts is a date, a moment, a run of bytes, a set, an enclosing
value or a number with too many digits (`exists_write_iff`), and what is written keeps the grammar
of JSON if all its numbers are finite (`isValue_write`).

`Value.all` says what holds of the parts of a value: of those that have no parts themselves, and of
the keys of each mapping.
-/

namespace GraphPaths

namespace Value

/-- The keys of entries. -/
def keys (es : List (Value × Value)) : List Value := es.map fun e => e.1.bare

mutual

/-- Whether `p` holds of the parts of a value that have no parts, and `q` of the keys of each
mapping. -/
def all (p : Value → Bool) (q : List Value → Bool) : Value → Bool
  | .list xs => allItems p q xs
  | .map es => q (keys es) && allEntries p q es
  | .shared _ v => v.all p q
  | v => p v

/-- Whether the parts of all items are so. -/
def allItems (p : Value → Bool) (q : List Value → Bool) : List Value → Bool
  | [] => true
  | x :: xs => x.all p q && allItems p q xs

/-- Whether the parts of the values of all entries are so. -/
def allEntries (p : Value → Bool) (q : List Value → Bool) : List (Value × Value) → Bool
  | [] => true
  | (_, v) :: es => v.all p q && allEntries p q es

end

mutual

/-- What follows for parts and for keys follows for all of them. -/
theorem all_mono {p p' : Value → Bool} {q q' : List Value → Bool} (hp : ∀ v, p v → p' v)
    (hq : ∀ ks, q ks → q' ks) : ∀ {v : Value}, v.all p q → v.all p' q'
  | .list xs, h => @allItems_mono p p' q q' hp hq xs h
  | .map es, h => by
    obtain ⟨hkeys, hes⟩ := Bool.and_eq_true_iff.mp h
    exact Bool.and_eq_true_iff.mpr ⟨hq _ hkeys, allEntries_mono hp hq hes⟩
  | .shared _ v, h => all_mono hp hq (v := v) h
  | .null, h | .bool _, h | .int _, h | .float _, h | .text _, h | .date _, h | .moment _, h
  | .bytes _, h | .set _, h | .again _, h => hp _ h

theorem allItems_mono {p p' : Value → Bool} {q q' : List Value → Bool} (hp : ∀ v, p v → p' v)
    (hq : ∀ ks, q ks → q' ks) : ∀ {xs : List Value}, allItems p q xs → allItems p' q' xs
  | [], _ => rfl
  | x :: xs, h => by
    obtain ⟨hx, hxs⟩ := Bool.and_eq_true_iff.mp h
    exact Bool.and_eq_true_iff.mpr ⟨all_mono hp hq hx, allItems_mono hp hq hxs⟩

theorem allEntries_mono {p p' : Value → Bool} {q q' : List Value → Bool} (hp : ∀ v, p v → p' v)
    (hq : ∀ ks, q ks → q' ks) :
    ∀ {es : List (Value × Value)}, allEntries p q es → allEntries p' q' es
  | [], _ => rfl
  | (_, v) :: es, h => by
    obtain ⟨hv, hes⟩ := Bool.and_eq_true_iff.mp h
    exact Bool.and_eq_true_iff.mpr ⟨all_mono hp hq hv, allEntries_mono hp hq hes⟩

end

variable {p : Value → Bool} {q : List Value → Bool}

theorem all_bare (v : Value) : v.bare.all p q = v.all p q := by
  induction v using bare.induct with
  | case1 l v ih => exact ih
  | case2 v hv =>
    have hbare : v.bare = v := by
      unfold bare
      split
      · next l w => exact absurd rfl (hv l w)
      · rfl
    rw [hbare]

theorem all_list {xs : List Value} : (Value.list xs).all p q ↔ ∀ x ∈ xs, x.all p q := by
  show allItems p q xs ↔ _
  induction xs with
  | nil => simp [allItems]
  | cons x xs ih => simp [allItems, ih]

theorem all_map {es : List (Value × Value)} :
    (Value.map es).all p q ↔ q (keys es) ∧ ∀ e ∈ es, e.2.all p q := by
  have hentries : allEntries p q es ↔ ∀ e ∈ es, e.2.all p q := by
    induction es with
    | nil => simp [allEntries]
    | cons e es ih => simp [allEntries, ih]
  rw [← hentries, ← Bool.and_eq_true]
  exact Iff.rfl

end Value

namespace Json

/-- Whether a value without parts has a form in JSON. -/
def hasForm : Value → Bool
  | .null | .bool _ | .float _ | .text _ => true
  | .int i => decide ((Nat.toDigits 10 i.natAbs).length ≤ digitLimit)
  | _ => false

/-- Whether a value is no number that the grammar of JSON leaves out. -/
def isExact : Value → Bool
  | .float x => x.isFinite
  | _ => true

end Json

/-- Whether a value can be written as JSON. -/
def Value.isWritable (v : Value) : Bool := v.all Json.hasForm fun ks => ks.all Json.hasForm

/-- Whether all numbers of a value are finite; keys, which are written as texts, do not count. -/
def Value.isExact (v : Value) : Bool := v.all Json.isExact fun _ => true

namespace Json

/-! ## Values that can be written -/

theorem exists_integer_iff {i : Int} : (∃ text, integer i = .ok text) ↔ hasForm (.int i) := by
  simp [integer_eq_ok, hasForm]

theorem exists_keyText_iff {k : Value} : (∃ text, keyText k = .ok text) ↔ hasForm k.bare := by
  unfold keyText
  cases k.bare with
  | int i => exact exists_integer_iff
  | _ => simp [hasForm]

mutual

/-- A value can be written if its parts and keys have a form. -/
theorem exists_write_iff : ∀ (level : Nat) (v : Value),
    (∃ text, write level v = .ok text) ↔ v.all hasForm fun ks => ks.all hasForm
  | _, .int i => exists_integer_iff
  | _, .null | _, .bool _ | _, .float _ | _, .text _ => by simp [write, Value.all, hasForm]
  | _, .date _ | _, .moment _ | _, .bytes _ | _, .set _ | _, .again _ => by
    simp [write, Value.all, hasForm]
  | _, .list [] => by simp [write, Value.all, Value.allItems]
  | level, .list (x :: xs) => by
    simp only [write, Value.all, Value.allItems, Bool.and_eq_true]
    rw [exists_bind_iff fun _ => exists_bind_iff fun _ => exists_pure_iff, exists_write_iff,
      exists_writeItems_iff, and_true]
  | level, .map es => by
    simp only [write, Value.all, Bool.and_eq_true]
    rw [exists_bind_iff fun _ => exists_pure_iff, exists_writeEntries_iff, and_true]
  | level, .shared _ v => exists_write_iff level v

theorem exists_writeItems_iff : ∀ (level : Nat) (xs : List Value),
    (∃ texts, writeItems level xs = .ok texts) ↔
      Value.allItems hasForm (fun ks => ks.all hasForm) xs
  | _, [] => by simp [writeItems, Value.allItems]
  | level, x :: xs => by
    simp only [writeItems, Value.allItems, Bool.and_eq_true]
    rw [exists_bind_iff fun _ => exists_bind_iff fun _ => exists_pure_iff, exists_write_iff,
      exists_writeItems_iff, and_true]

theorem exists_writeEntries_iff : ∀ (level : Nat) (es : List (Value × Value)),
    (∃ texts, writeEntries level es = .ok texts) ↔
      (Value.keys es).all hasForm ∧ Value.allEntries hasForm (fun ks => ks.all hasForm) es
  | _, [] => by simp [writeEntries, Value.allEntries, Value.keys]
  | level, (k, v) :: es => by
    simp only [writeEntries, Value.allEntries, Value.keys, List.map_cons, List.all_cons,
      Bool.and_eq_true]
    rw [exists_bind_iff fun _ => exists_bind_iff fun _ => exists_bind_iff fun _ => exists_pure_iff,
      exists_keyText_iff, exists_write_iff, exists_writeEntries_iff, and_true, and_and_and_comm,
      and_assoc]
    exact Iff.rfl

end

/-! ## Rows of parts -/

/-- What stands on a new line stands behind white space. -/
theorem isSpace_newLine (level : Nat) : IsSpace (newLine level).toList := by
  intro c hc
  unfold newLine at hc
  rw [String.toList_append] at hc
  rcases List.mem_append.mp hc with hc | hc
  · rw [List.mem_singleton.mp hc]
    decide
  · rw [String.toList_ofList] at hc
    rw [List.eq_of_mem_replicate hc]
    decide

theorem isSpace_nil : IsSpace [] := nofun

theorem isSpace_blank : IsSpace [' '] :=
  fun _ hc => List.mem_singleton.mp hc ▸ List.mem_cons_self

theorem isItems_row {space after : String} (hs : IsSpace space.toList)
    (ha : IsSpace after.toList) : ∀ (part : String) (parts : List String),
      (∀ p ∈ part :: parts, IsValue p.toList) →
        IsItems (space ++ ("," ++ space).intercalate (part :: parts) ++ after).toList
  | part, [], h => by
    rw [String.intercalate_singleton, String.toList_append, String.toList_append]
    exact .last hs (h part List.mem_cons_self) ha
  | part, next :: parts, h => by
    have hrest := isItems_row hs ha next parts fun p hp => h p (List.mem_cons_of_mem part hp)
    have := IsItems.more hs (h part List.mem_cons_self) isSpace_nil hrest
    rw [String.intercalate_cons_cons]
    simpa using this

/-- The text of an entry: a key in quotes and a value. -/
def IsEntry (text : String) : Prop :=
  ∃ key value : String, text = quote key ++ ": " ++ value ∧ IsValue value.toList

theorem isMembers_row {space after : String} (hs : IsSpace space.toList)
    (ha : IsSpace after.toList) : ∀ (part : String) (parts : List String),
      (∀ p ∈ part :: parts, IsEntry p) →
        IsMembers (space ++ ("," ++ space).intercalate (part :: parts) ++ after).toList
  | part, [], h => by
    obtain ⟨key, value, rfl, hvalue⟩ := h part List.mem_cons_self
    have := IsMembers.last hs (isString_quote key) isSpace_blank hvalue ha
    rw [String.intercalate_singleton]
    simpa using this
  | part, next :: parts, h => by
    have hrest := isMembers_row hs ha next parts fun p hp => h p (List.mem_cons_of_mem part hp)
    obtain ⟨key, value, rfl, hvalue⟩ := h part List.mem_cons_self
    have := IsMembers.more hs (isString_quote key) isSpace_blank hvalue isSpace_nil
      hrest
    rw [String.intercalate_cons_cons]
    simpa using this

theorem toList_bracket (opening closing : String) (level : Nat) (parts : List String) :
    (bracket opening closing level parts).toList = opening.toList ++
      (newLine (level + 1) ++ ("," ++ newLine (level + 1)).intercalate parts
        ++ newLine level).toList ++ closing.toList := by
  unfold bracket
  simp only [String.toList_append, List.append_assoc]

/-! ## Values that keep the grammar -/

mutual

/-- The text of a value without infinite numbers is a value of JSON. -/
theorem isValue_write : ∀ {level : Nat} {v : Value} {text : String},
    write level v = .ok text → v.all isExact (fun _ => true) → IsValue text.toList
  | _, .null, _, h, _ => by
    obtain rfl := Except.ok.inj h
    exact .null
  | _, .bool b, _, h, _ => by
    obtain rfl := Except.ok.inj h
    cases b with
    | false => exact .false
    | true => exact .true
  | _, .int i, _, h, _ => .number (isNumber_integer h)
  | _, .float x, _, h, hv => by
    obtain rfl := Except.ok.inj h
    exact .number (isNumber_number hv)
  | _, .text s, _, h, _ => by
    obtain rfl := Except.ok.inj h
    exact .string (isString_quote s)
  | _, .list [], _, h, _ => by
    obtain rfl := Except.ok.inj h
    exact .noItems isSpace_nil
  | level, .list (x :: xs), _, h, hv => by
    obtain ⟨hx, hxs⟩ := Bool.and_eq_true_iff.mp hv
    obtain ⟨first, hfirst, h⟩ := bind_eq_ok.mp h
    obtain ⟨rest, hrest, h⟩ := bind_eq_ok.mp h
    obtain rfl := Except.ok.inj h
    rw [toList_bracket]
    refine .items (isItems_row (isSpace_newLine _) (isSpace_newLine _) first rest ?_)
    exact List.forall_mem_cons.mpr ⟨isValue_write hfirst hx, isValue_writeItems hrest hxs⟩
  | level, .map es, _, h, hv => by
    obtain ⟨parts, hparts, h⟩ := bind_eq_ok.mp h
    obtain rfl := Except.ok.inj h
    have hentries := isEntry_writeEntries hparts (Bool.and_eq_true_iff.mp hv).2
    cases parts with
    | nil =>
      rw [if_pos List.isEmpty_nil]
      exact .noMembers isSpace_nil
    | cons part parts =>
      rw [if_neg (by simp), toList_bracket]
      exact .members (isMembers_row (isSpace_newLine _) (isSpace_newLine _) part parts hentries)
  | _, .shared _ v, _, h, hv => isValue_write (v := v) h hv

theorem isValue_writeItems : ∀ {level : Nat} {xs : List Value} {texts : List String},
    writeItems level xs = .ok texts → Value.allItems isExact (fun _ => true) xs →
      ∀ text ∈ texts, IsValue text.toList
  | _, [], _, h, _ => by
    obtain rfl := Except.ok.inj h
    exact nofun
  | _, x :: xs, _, h, hv => by
    obtain ⟨hx, hxs⟩ := Bool.and_eq_true_iff.mp hv
    obtain ⟨first, hfirst, h⟩ := bind_eq_ok.mp h
    obtain ⟨rest, hrest, h⟩ := bind_eq_ok.mp h
    obtain rfl := Except.ok.inj h
    exact List.forall_mem_cons.mpr ⟨isValue_write hfirst hx, isValue_writeItems hrest hxs⟩

theorem isEntry_writeEntries : ∀ {level : Nat} {es : List (Value × Value)} {texts : List String},
    writeEntries level es = .ok texts → Value.allEntries isExact (fun _ => true) es →
      ∀ text ∈ texts, IsEntry text
  | _, [], _, h, _ => by
    obtain rfl := Except.ok.inj h
    exact nofun
  | _, (k, v) :: es, _, h, hv => by
    obtain ⟨hv, hes⟩ := Bool.and_eq_true_iff.mp hv
    obtain ⟨key, -, h⟩ := bind_eq_ok.mp h
    obtain ⟨first, hfirst, h⟩ := bind_eq_ok.mp h
    obtain ⟨rest, hrest, h⟩ := bind_eq_ok.mp h
    obtain rfl := Except.ok.inj h
    exact List.forall_mem_cons.mpr
      ⟨⟨key, first, rfl, isValue_write hfirst hv⟩, isEntry_writeEntries hrest hes⟩

end

/-- A value has a text in JSON if it can be written. -/
theorem exists_text_iff (v : Value) : (∃ text, Json.text v = .ok text) ↔ v.isWritable :=
  exists_write_iff 0 v

/-- The text of a value keeps the grammar if the numbers are finite. -/
theorem isValue_text {v : Value} {text : String} (h : Json.text v = .ok text) (hv : v.isExact) :
    IsValue text.toList :=
  isValue_write h hv

end Json

end GraphPaths
