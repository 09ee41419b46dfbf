import GraphPaths.CommandLine
import GraphPaths.Proofs.SchemaFiles.Listed

/-!
# Schema paths on the command line

Each parameter of a command has the values that its own arguments give (`settingsOf_eq_ok`). So
arguments that list the paths of the schema in another order, or some of them more than once, give
the same values to every other parameter and the same paths of the schema (`exists_settleAll`), and
every command comes to the same.
-/

namespace GraphPaths

namespace CommandLine

variable {t : FileTree} {env : List (String × String)} {command : List String}

/-! ## Parameters that are found -/

theorem mem_of_findParameter {ps : List Parameter} {p : Parameter} {spelling : String}
    (h : findParameter ps spelling = some p) : p ∈ ps :=
  List.mem_of_find?_eq_some h

theorem fst_of_withNext {p : Parameter} {spelling : String} {rest others : List String}
    {given : List Given} (h : withNext p spelling rest = .ok (given, others)) :
    ∀ g ∈ given, g.1 = p := by
  unfold withNext at h
  split at h
  · obtain ⟨rfl, -⟩ := Prod.mk.inj (Except.ok.inj h)
    simp
  · contradiction

theorem mem_of_readShort {ps : List Parameter} : ∀ {cs : List Char} {rest others : List String}
    {given : List Given}, readShort ps cs rest = .ok (given, others) → ∀ g ∈ given, g.1 ∈ ps
  | [], rest, others, given, h => by
    obtain ⟨rfl, -⟩ := Prod.mk.inj (Except.ok.inj h)
    exact nofun
  | c :: more, rest, others, given, h => by
    simp only [readShort] at h
    split at h
    · contradiction
    · next p hp =>
      have hmem := mem_of_findParameter hp
      split at h
      · obtain ⟨⟨given', others'⟩, hmore, heq⟩ := map_eq_ok.mp h
        obtain ⟨rfl, -⟩ := Prod.mk.inj heq
        exact List.forall_mem_cons.mpr ⟨hmem, mem_of_readShort hmore⟩
      · split at h
        · intro g hg
          exact fst_of_withNext h g hg ▸ hmem
        · obtain ⟨rfl, -⟩ := Prod.mk.inj (Except.ok.inj h)
          simpa using hmem

theorem mem_of_readOne {ps : List Parameter} {arg : String} {rest others : List String}
    {given : List Given} (h : readOne ps arg rest = .ok (given, others)) : ∀ g ∈ given, g.1 ∈ ps := by
  unfold readOne at h
  split at h
  next spelling value hvalue =>
  simp only at h
  split at h
  · next p hp =>
    have hmem : p ∈ ps := by
      split at hp
      · exact mem_of_findParameter hp
      · contradiction
    split at h
    · obtain ⟨rfl, -⟩ := Prod.mk.inj (Except.ok.inj h)
      simpa using hmem
    · contradiction
    · obtain ⟨rfl, -⟩ := Prod.mk.inj (Except.ok.inj h)
      simpa using hmem
    · intro g hg
      exact fst_of_withNext h g hg ▸ hmem
  · split at h
    · contradiction
    · exact mem_of_readShort h

theorem mem_of_readFrom {ps : List Parameter} {mixed : Bool} : ∀ {fuel : Nat}
    {args others : List String} {given : List Given},
    readFrom ps mixed fuel args = .ok (given, others) → ∀ g ∈ given, g.1 ∈ ps
  | 0, args, others, given, h => by
    obtain ⟨rfl, -⟩ := Prod.mk.inj (Except.ok.inj h)
    exact nofun
  | fuel + 1, [], others, given, h => by
    obtain ⟨rfl, -⟩ := Prod.mk.inj (Except.ok.inj h)
    exact nofun
  | fuel + 1, arg :: rest, others, given, h => by
    unfold readFrom at h
    split at h
    · obtain ⟨rfl, -⟩ := Prod.mk.inj (Except.ok.inj h)
      exact nofun
    · split at h
      · obtain ⟨⟨given₁, rest'⟩, hfirst, h⟩ := bind_eq_ok.mp h
        obtain ⟨⟨given₂, others'⟩, hrest, h⟩ := bind_eq_ok.mp h
        obtain ⟨rfl, -⟩ := Prod.mk.inj (Except.ok.inj h)
        exact fun g hg => (List.mem_append.mp hg).elim (mem_of_readOne hfirst g)
          (mem_of_readFrom hrest g)
      · split at h
        · obtain ⟨⟨given', others'⟩, hrest, heq⟩ := map_eq_ok.mp h
          obtain ⟨rfl, -⟩ := Prod.mk.inj heq
          exact mem_of_readFrom hrest
        · obtain ⟨rfl, -⟩ := Prod.mk.inj (Except.ok.inj h)
          exact nofun

/-- Only parameters of the command are found. -/
theorem mem_of_readArguments {ps : List Parameter} {mixed : Bool} {args others : List String}
    {given : List Given} (h : readArguments ps mixed args = .ok (given, others)) :
    ∀ g ∈ given, g.1 ∈ ps :=
  mem_of_readFrom h

/-! ## Settings -/

/-- The texts that a parameter was given. -/
def textsOf (given : List Given) (p : Parameter) : List String :=
  (given.filter fun g => g.1 == p).map Prod.snd

/-- There are settings if all values are right and no parameter stands for something else. -/
theorem settingsOf_eq_ok {given : List Given} : ∀ {ps : List Parameter} {s : Settings},
    settingsOf t env command given ps = .ok s ↔ List.Forall₂ (fun p e =>
      p.name = e.1 ∧ valuesOf t env command p (textsOf given p) = .ok e.2 ∧
        (p.shortcut = none ∨ e.2 = [])) ps s
  | [], s => by
    rw [List.forall₂_nil_left_iff]
    exact ⟨fun h => (Except.ok.inj h).symm, fun h => congrArg Except.ok h.symm⟩
  | p :: ps, s => by
    rw [List.forall₂_cons_left_iff]
    constructor
    · intro h
      obtain ⟨values, hvalues, h⟩ := bind_eq_ok.mp h
      have hvalues : valuesOf t env command p (textsOf given p) = .ok values :=
        mapError_eq_ok.mp hvalues
      have hgoes : p.shortcut = none ∨ values = [] := by
        cases hshortcut : p.shortcut with
        | none => exact .inl rfl
        | some shortcut =>
          cases values with
          | nil => exact .inr rfl
          | cons v vs =>
            simp only [hshortcut] at h
            contradiction
      split at h
      · contradiction
      · obtain ⟨settings, hsettings, h⟩ := bind_eq_ok.mp h
        obtain rfl := Except.ok.inj h
        exact ⟨_, _, ⟨rfl, hvalues, hgoes⟩, settingsOf_eq_ok.mp hsettings, rfl⟩
    · rintro ⟨⟨name, values⟩, settings, ⟨rfl, hvalues, hshortcut⟩, hsettings, rfl⟩
      refine bind_eq_ok.mpr ⟨values, mapError_eq_ok.mpr hvalues, ?_⟩
      split
      · next shortcut v vs hsome =>
        rw [hsome] at hshortcut
        exact nomatch hshortcut
      · exact bind_eq_ok.mpr ⟨settings, settingsOf_eq_ok.mpr hsettings, rfl⟩

/-- The values of parameters with different names are found under these names. -/
theorem all_of_forall₂ {R : Parameter → List String → Prop} : ∀ {ps : List Parameter} {s : Settings},
    List.Forall₂ (fun p e => p.name = e.1 ∧ R p e.2) ps s → (ps.map Parameter.name).Nodup →
      (∀ p ∈ ps, R p (s.all p.name)) ∧ ∀ name ∉ ps.map Parameter.name, s.all name = []
  | [], [], .nil, _ => ⟨nofun, fun _ _ => rfl⟩
  | p :: ps, (_, values) :: s, .cons ⟨rfl, hvalues⟩ hrest, hnodup => by
    obtain ⟨hp, hps⟩ := List.nodup_cons.mp hnodup
    obtain ⟨hall, hnone⟩ := all_of_forall₂ hrest hps
    have hfirst : Settings.all ((p.name, values) :: s) p.name = values := by
      unfold Settings.all
      rw [List.lookup_cons_self]
      rfl
    have hother : ∀ name ≠ p.name, Settings.all ((p.name, values) :: s) name = Settings.all s name := by
      intro name hne
      unfold Settings.all
      rw [lookup_cons_of_ne hne]
    refine ⟨fun q hq => ?_, fun name hname => ?_⟩
    · rcases List.mem_cons.mp hq with rfl | hq
      · exact hfirst.symm ▸ hvalues
      · rw [hother _ fun heq => hp (heq ▸ List.mem_map_of_mem hq)]
        exact hall q hq
    · rw [List.map_cons, List.mem_cons, not_or] at hname
      rw [hother _ hname.1]
      exact hnone name hname.2

/-! ## The order of parameters -/

theorem firsts_foldl : ∀ (ps acc : List Parameter), acc.Nodup →
    (ps.foldl (fun acc p => if acc.contains p then acc else acc ++ [p]) acc).Nodup ∧
      ∀ p, p ∈ ps.foldl (fun acc p => if acc.contains p then acc else acc ++ [p]) acc ↔
        p ∈ acc ∨ p ∈ ps
  | [], acc, h => ⟨h, fun p => by simp⟩
  | p :: ps, acc, h => by
    rw [List.foldl_cons]
    split
    · next hp =>
      replace hp : p ∈ acc := by simpa using hp
      obtain ⟨hnodup, hmem⟩ := firsts_foldl ps acc h
      refine ⟨hnodup, fun q => (hmem q).trans ?_⟩
      rw [List.mem_cons]
      constructor
      · exact Or.imp_right .inr
      · rintro (hq | rfl | hq)
        · exact .inl hq
        · exact .inl hp
        · exact .inr hq
    · next hp =>
      replace hp : p ∉ acc := by simpa using hp
      obtain ⟨hnodup, hmem⟩ := firsts_foldl ps (acc ++ [p])
        (h.append (List.nodup_singleton p) (by simpa using hp))
      refine ⟨hnodup, fun q => (hmem q).trans ?_⟩
      simp [or_assoc]

/-- Each parameter of a command is looked at once. -/
theorem perm_inspectionOrder {ps : List Parameter} {given : List Given} (hps : ps.Nodup)
    (hgiven : ∀ g ∈ given, g.1 ∈ ps) : (inspectionOrder ps given).Perm ps := by
  obtain ⟨hnodup, hmem⟩ := firsts_foldl (given.map Prod.fst ++ ps) [] List.nodup_nil
  have hfirsts : (firsts (given.map Prod.fst ++ ps)).Perm ps := by
    refine (List.perm_ext_iff_of_nodup hnodup hps).mpr fun p => (hmem p).trans ?_
    simp only [List.not_mem_nil, false_or, List.mem_append, List.mem_map]
    exact ⟨fun h => h.elim (fun ⟨g, hg, heq⟩ => heq ▸ hgiven g hg) id, .inr⟩
  have hnot : ∀ p : Parameter, p.shortcut.isNone = !p.shortcut.isSome := fun p => by
    cases p.shortcut <;> rfl
  unfold inspectionOrder
  simp only [hnot]
  exact (List.filter_append_perm _ _).trans hfirsts

/-! ## Settings of a command -/

/-- The settings of a command have the values of its parameters, and no others. -/
structure Settled (t : FileTree) (env : List (String × String)) (command : List String)
    (ps : List Parameter) (given : List Given) (s : Settings) : Prop where
  values : ∀ p ∈ ps, valuesOf t env command p (textsOf given p) = .ok (s.all p.name)
  goes : ∀ p ∈ ps, p.shortcut = none ∨ s.all p.name = []
  others : ∀ name ∉ ps.map Parameter.name, s.all name = []

section

variable {ps : List Parameter} {args : List String} {given : List Given} {s : Settings}

theorem settleAll_eq_ok : settleAll t env command ps args = .ok s ↔
    ∃ given, readArguments ps true args = .ok (given, []) ∧
      settingsOf t env command given (inspectionOrder ps given) = .ok s := by
  unfold settleAll settle
  constructor
  · intro h
    obtain ⟨⟨settings, others⟩, h, hnone⟩ := bind_eq_ok.mp h
    obtain ⟨⟨given, others'⟩, hread, h⟩ := bind_eq_ok.mp h
    obtain ⟨settings', hsettings, h⟩ := bind_eq_ok.mp h
    obtain ⟨rfl, rfl⟩ := Prod.mk.inj (Except.ok.inj h)
    cases others' with
    | nil =>
      obtain rfl := Except.ok.inj hnone
      exact ⟨given, mapError_eq_ok.mp hread, hsettings⟩
    | cons other others => exact nomatch hnone
  · rintro ⟨given, hread, hsettings⟩
    exact bind_eq_ok.mpr ⟨(s, []), bind_eq_ok.mpr ⟨(given, []), mapError_eq_ok.mpr hread,
      bind_eq_ok.mpr ⟨s, hsettings, rfl⟩⟩, rfl⟩

/-- The values that parameters are settled to are those that their arguments give. -/
theorem settled_of_settingsOf (hnames : (ps.map Parameter.name).Nodup)
    (hgiven : ∀ g ∈ given, g.1 ∈ ps)
    (h : settingsOf t env command given (inspectionOrder ps given) = .ok s) :
    Settled t env command ps given s := by
  have hperm := perm_inspectionOrder hnames.of_map hgiven
  have hnodup : ((inspectionOrder ps given).map Parameter.name).Nodup :=
    ((hperm.map _).nodup_iff).mpr hnames
  obtain ⟨hall, hnone⟩ := all_of_forall₂ (R := fun p values =>
    valuesOf t env command p (textsOf given p) = .ok values ∧ (p.shortcut = none ∨ values = []))
    (settingsOf_eq_ok.mp h) hnodup
  refine ⟨fun p hp => (hall p (hperm.mem_iff.mpr hp)).1,
    fun p hp => (hall p (hperm.mem_iff.mpr hp)).2, fun name hname => hnone name ?_⟩
  rwa [(hperm.map _).mem_iff]

/-- Parameters can be settled if each of them can. -/
theorem exists_settingsOf (h : ∀ p ∈ ps, ∃ values,
    valuesOf t env command p (textsOf given p) = .ok values ∧ (p.shortcut = none ∨ values = [])) :
    ∃ s, settingsOf t env command given ps = .ok s := by
  induction ps with
  | nil => exact ⟨[], rfl⟩
  | cons p ps ih =>
    obtain ⟨values, hvalues, hgoes⟩ := h p List.mem_cons_self
    obtain ⟨s, hs⟩ := ih fun q hq => h q (List.mem_cons_of_mem p hq)
    exact ⟨(p.name, values) :: s,
      settingsOf_eq_ok.mpr (.cons ⟨rfl, hvalues, hgoes⟩ (settingsOf_eq_ok.mp hs))⟩

/-- A parameter that may be given more than once has the same values whatever the order. -/
theorem valuesOf_of_mem_iff {p : Parameter} {texts texts' values : List String}
    (hmany : p.many) (hkind : p.kind ≠ .switch) (hmem : ∀ x, x ∈ texts ↔ x ∈ texts')
    (h : valuesOf t env command p texts = .ok values) :
    ∃ values', valuesOf t env command p texts' = .ok values' ∧ ∀ v, v ∈ values ↔ v ∈ values' := by
  have hswitch : (p.kind == .switch) = false := by simpa using hkind
  cases texts with
  | nil =>
    obtain rfl : texts' = [] := List.eq_nil_iff_forall_not_mem.mpr fun x hx =>
      List.not_mem_nil ((hmem x).mpr hx)
    exact ⟨values, h, fun _ => Iff.rfl⟩
  | cons text rest =>
    obtain ⟨text', rest', rfl⟩ := List.exists_cons_of_ne_nil
      (List.ne_nil_of_mem ((hmem text).mp List.mem_cons_self))
    unfold valuesOf at h ⊢
    rw [hswitch] at h ⊢
    simp only [Bool.false_and, Bool.false_eq_true, if_false, List.isEmpty_cons, hmany, if_true] at h ⊢
    obtain ⟨found, hfound, h⟩ := bind_eq_ok.mp h
    obtain ⟨found', hfound', hsame⟩ := exists_mapM_of_mem_iff hmem hfound
    have hvalues : ∀ v, v ∈ found.filterMap id ↔ v ∈ found'.filterMap id := by
      intro v
      simp only [List.mem_filterMap, hsame]
    have hempty : (found'.filterMap id).isEmpty = (found.filterMap id).isEmpty := by
      rw [Bool.eq_iff_iff, List.isEmpty_iff, List.isEmpty_iff, List.eq_nil_iff_forall_not_mem,
        List.eq_nil_iff_forall_not_mem]
      simp only [hvalues]
    split at h
    · contradiction
    · next hpresent =>
      obtain rfl := Except.ok.inj h
      refine ⟨found'.filterMap id, bind_eq_ok.mpr ⟨found', hfound', ?_⟩, hvalues⟩
      rw [hempty, if_neg hpresent]
      rfl

/-- Arguments that give the same paths of the schema, in whatever order and however often, and the
same to each other parameter. -/
def Relists (ps : List Parameter) (args args' : List String) : Prop :=
  ∃ given given', readArguments ps true args = .ok (given, []) ∧
    readArguments ps true args' = .ok (given', []) ∧
    (∀ text, text ∈ textsOf given schemaParameter ↔ text ∈ textsOf given' schemaParameter) ∧
    ∀ p, p ≠ schemaParameter → textsOf given p = textsOf given' p

/-- Settings with the same paths of the schema, in whatever order, that agree in all else. -/
structure SameButListed (s s' : Settings) : Prop where
  schemas : ∀ text, text ∈ s.all "schemas" ↔ text ∈ s'.all "schemas"
  others : ∀ name, name ≠ "schemas" → s.all name = s'.all name

/-- Arguments that list the paths in another way give settings that do so. -/
theorem exists_settleAll {args' : List String} (hnames : (ps.map Parameter.name).Nodup)
    (hschemas : schemaParameter ∈ ps) (hargs : Relists ps args args')
    (h : settleAll t env command ps args = .ok s) :
    ∃ s', settleAll t env command ps args' = .ok s' ∧ SameButListed s s' := by
  obtain ⟨given, given', hread, hread', htexts, hothers⟩ := hargs
  obtain ⟨_, hread₁, h⟩ := settleAll_eq_ok.mp h
  obtain ⟨rfl, -⟩ := Prod.mk.inj (Except.ok.inj (hread₁.symm.trans hread))
  have hs := settled_of_settingsOf hnames (mem_of_readArguments hread) h
  have hperm := perm_inspectionOrder hnames.of_map (mem_of_readArguments hread')
  obtain ⟨paths, hpaths, hsame⟩ :=
    valuesOf_of_mem_iff rfl (by decide) htexts (hs.values schemaParameter hschemas)
  obtain ⟨s', hs'⟩ : ∃ s', settingsOf t env command given' (inspectionOrder ps given') = .ok s' := by
    refine exists_settingsOf fun p hp => ?_
    replace hp := hperm.mem_iff.mp hp
    by_cases heq : p = schemaParameter
    · exact ⟨paths, heq ▸ hpaths, .inl (heq ▸ rfl)⟩
    · exact ⟨s.all p.name, hothers p heq ▸ hs.values p hp, hs.goes p hp⟩
  have hsettled := settled_of_settingsOf hnames (mem_of_readArguments hread') hs'
  refine ⟨s', settleAll_eq_ok.mpr ⟨given', hread', hs'⟩, fun text => ?_, fun name hname => ?_⟩
  · have hvalues := hsettled.values schemaParameter hschemas
    rw [hpaths] at hvalues
    exact Except.ok.inj hvalues ▸ hsame text
  · by_cases hmem : name ∈ ps.map Parameter.name
    · obtain ⟨p, hp, rfl⟩ := List.mem_map.mp hmem
      have heq : p ≠ schemaParameter := fun heq => hname (heq ▸ rfl)
      have hvalues := hs.values p hp
      rw [hothers p heq, hsettled.values p hp] at hvalues
      exact (Except.ok.inj hvalues).symm
    · rw [hs.others name hmem, hsettled.others name hmem]

/-- The schema files of settings do not depend on how the paths are listed. -/
theorem schemasOf_of_sameButListed {s' : Settings} (ht : t.WellFormed) (h : SameButListed s s') :
    schemasOf t s' = schemasOf t s := by
  refine resolveSchemaFiles_of_mem_iff ht (fun p hp => ?_) fun p => ?_
  · obtain ⟨text, -, rfl⟩ := List.mem_map.mp hp
    exact FilePath.parted_parse text
  · simp only [List.mem_map, h.schemas]

/-- Commands come to the same however the paths of the schema are listed. -/
theorem run_of_sameButListed {s' : Settings} {c : Command} (hc : c ∈ commands) (ht : t.WellFormed)
    (l : Logging) (h : SameButListed s s') : c.run t l s' = c.run t l s := by
  have hschemas := schemasOf_of_sameButListed ht h
  have hothers : ∀ name, name ≠ "schemas" → s'.all name = s.all name := fun name hname =>
    (h.others name hname).symm
  rcases List.mem_cons.mp hc with rfl | hc
  · have hexport : exportOf t s' = exportOf t s := by
      simp (disch := decide) only [exportOf, hschemas, Settings.one?, Settings.isOn, hothers]
    show runExport t l s' = runExport t l s
    unfold runExport
    rw [hexport]
  · obtain rfl := List.mem_singleton.mp hc
    show runListing t l s' = runListing t l s
    unfold runListing
    rw [hschemas, hothers "operations" (by decide)]

end

/-- Schema paths may be listed in any way.

What is resolved of some paths is the same in whatever order and however often they are listed, and
also if paths of directories and marked files in listed directories are listed besides, unless they
go through links; so are the schema and the error that there is instead. What is resolved of two
lists together is in strictly ascending order and is what is resolved of the one or of the other.
Every text is a path of the kind that is asked for. And if the arguments of a command give the same
paths, in whatever order and however often, and the same to each other parameter, then the command
comes to the same. -/
theorem schema_paths_listed_anyhow (t : FileTree) (ht : t.WellFormed) :
    (∀ paths, (∀ p ∈ paths, p.Parted) →
      (∀ paths', (∀ p, p ∈ paths ↔ p ∈ paths') →
        resolveSchemaFiles t paths' = resolveSchemaFiles t paths ∧
          loadSchema t paths' = loadSchema t paths) ∧
      (∀ inner, (∀ q ∈ inner, ∃ p ∈ paths, Covers t p q) →
        resolveSchemaFiles t (inner ++ paths) = resolveSchemaFiles t paths ∧
          loadSchema t (inner ++ paths) = loadSchema t paths) ∧
      ∀ others, (∀ p ∈ others, p.Parted) →
        ((resolveSchemaFiles t (paths ++ others)).Pairwise fun p q => p.orderKey < q.orderKey) ∧
        ∀ q, q ∈ resolveSchemaFiles t (paths ++ others) ↔
          q ∈ resolveSchemaFiles t paths ∨ q ∈ resolveSchemaFiles t others) ∧
    (∀ text, (FilePath.parse text).Parted) ∧
    ∀ c ∈ commands, ∀ env command args args' s, Relists c.parameters args args' →
      settleAll t env command c.parameters args = .ok s →
        ∃ s', settleAll t env command c.parameters args' = .ok s' ∧
          ∀ l, c.run t l s' = c.run t l s := by
  have hload : ∀ paths paths', resolveSchemaFiles t paths' = resolveSchemaFiles t paths →
      loadSchema t paths' = loadSchema t paths := by
    intro paths paths' h
    unfold loadSchema
    rw [h]
  refine ⟨fun paths hpaths => ⟨fun paths' hmem => ?_, fun inner hinner => ?_, fun others hothers => ?_⟩,
    FilePath.parted_parse, fun c hc env command args args' s hargs hs => ?_⟩
  · have h := (resolveSchemaFiles_of_mem_iff ht hpaths hmem).symm
    exact ⟨h, hload paths paths' h⟩
  · have h := resolveSchemaFiles_append_of_covered ht hpaths hinner
    exact ⟨h, hload paths (inner ++ paths) h⟩
  · have hparted : ∀ p ∈ paths ++ others, p.Parted := fun p hp =>
      (List.mem_append.mp hp).elim (hpaths p) (hothers p)
    exact ⟨pairwise_resolveSchemaFiles_of_parted fun q =>
      parted_of_mem_resolveSchemaFiles ht hparted, fun q => mem_resolveSchemaFiles_append⟩
  · have hnames : ∀ c ∈ commands, (c.parameters.map Parameter.name).Nodup ∧
        schemaParameter ∈ c.parameters := by
      intro c hc
      rcases List.mem_cons.mp hc with rfl | hc
      · decide
      · obtain rfl := List.mem_singleton.mp hc
        decide
    obtain ⟨s', hs', hsame⟩ := exists_settleAll (hnames c hc).1 (hnames c hc).2 hargs hs
    exact ⟨s', hs', fun l => run_of_sameButListed hc ht l hsame⟩

/-- Schema files in directories, one in another, and a link to one of them. -/
def nestedFiles : FileTree :=
  ⟨[(["b.graphql"], FileTree.bytesOf "type B"), (["d", "e", "a.graphql"], FileTree.bytesOf "type A"),
    (["d", "q.graphql"], FileTree.bytesOf "type Query \x7b a: A \x7d")], [["d"], ["d", "e"]],
    [(["d", "l.graphql"], .parse "../b.graphql")], []⟩

/-- The files are found in the same way by other paths, and by other arguments. -/
theorem nestedFiles_listed_anyhow : nestedFiles.WellFormed ∧
    .parse "d/../d/e/a.graphql" ∈
      resolveSchemaFiles nestedFiles [.parse "d/../d", .parse "b.graphql"] ∧
    resolveSchemaFiles nestedFiles [.parse "b.graphql", .parse "d/../d", .parse "./b.graphql"] =
      resolveSchemaFiles nestedFiles [.parse "d/../d", .parse "b.graphql"] ∧
    resolveSchemaFiles nestedFiles
        ([.parse "d/../d/e", .parse "d/../d/l.graphql"] ++ [.parse "d/../d", .parse "b.graphql"]) =
      resolveSchemaFiles nestedFiles [.parse "d/../d", .parse "b.graphql"] ∧
    ∃ s s', settleAll nestedFiles [] [] exportParameters
        ["-s", "b.graphql", "--schema=d", "-o", "o.json"] = .ok s ∧
      settleAll nestedFiles [] [] exportParameters
        ["-o", "o.json", "-sd", "-s", "b.graphql", "--schema", "d"] = .ok s' ∧
      ∀ l, runExport nestedFiles l s' = runExport nestedFiles l s := by
  have ht : nestedFiles.WellFormed :=
    ⟨by decide, by decide, by decide, by decide, by decide, by decide⟩
  obtain ⟨hlists, hparse, hcommands⟩ := schema_paths_listed_anyhow nestedFiles ht
  have hparted : ∀ p ∈ [FilePath.parse "d/../d", .parse "b.graphql"], p.Parted := by
    intro p hp
    rcases List.mem_pair.mp hp with rfl | rfl <;> exact hparse _
  obtain ⟨horder, hcovered, -⟩ := hlists _ hparted
  have hinner : ∀ q ∈ [FilePath.parse "d/../d/e", .parse "d/../d/l.graphql"],
      ∃ p ∈ [FilePath.parse "d/../d", .parse "b.graphql"], Covers nestedFiles p q := by
    intro q hq
    refine ⟨.parse "d/../d", List.mem_cons_self, ["d"], ?_⟩
    rcases List.mem_pair.mp hq with rfl | rfl
    · exact ⟨["e"], by decide, by decide, by decide, by decide, by decide,
        .inl ⟨by decide, by decide⟩⟩
    · exact ⟨["l.graphql"], by decide, by decide, by decide, by decide, by decide,
        .inr ⟨by decide, by decide +kernel, nofun⟩⟩
  have hargs : Relists exportParameters ["-s", "b.graphql", "--schema=d", "-o", "o.json"]
      ["-o", "o.json", "-sd", "-s", "b.graphql", "--schema", "d"] := by
    refine ⟨[(schemaParameter, "b.graphql"), (schemaParameter, "d"), (exportParameters[1], "o.json")],
      [(exportParameters[1], "o.json"), (schemaParameter, "d"), (schemaParameter, "b.graphql"),
        (schemaParameter, "d")], by decide +kernel, by decide +kernel, fun text => ?_, fun p hp => ?_⟩
    · show text ∈ ["b.graphql", "d"] ↔ text ∈ ["d", "b.graphql", "d"]
      simp only [List.mem_cons, List.not_mem_nil, or_false]
      tauto
    · have hne : (schemaParameter == p) = false := beq_eq_false_iff_ne.mpr (Ne.symm hp)
      simp [textsOf, List.filter_cons, hne]
  have hsettled : (settleAll nestedFiles [] [] exportParameters
      ["-s", "b.graphql", "--schema=d", "-o", "o.json"]).toOption.isSome := by decide +kernel
  obtain ⟨s, hs⟩ := Option.isSome_iff_exists.mp hsettled
  replace hs := toOption_eq_some.mp hs
  obtain ⟨s', hs', hrun⟩ := hcommands _ List.mem_cons_self [] [] _ _ s hargs hs
  have hfound : .parse "d/../d/e/a.graphql" ∈
      resolveSchemaFiles nestedFiles [.parse "d/../d", .parse "b.graphql"] :=
    mem_resolveSchemaFiles_iff_exists.mpr
      ⟨.parse "d/../d", List.mem_cons_self, by decide +kernel⟩
  refine ⟨ht, hfound, (horder _ fun p => ?_).1, (hcovered _ hinner).1, s, s', hs, hs', hrun⟩
  have hdot : FilePath.parse "./b.graphql" = .parse "b.graphql" := by decide
  simp only [hdot, List.mem_cons, List.not_mem_nil, or_false]
  tauto

end CommandLine

end GraphPaths
