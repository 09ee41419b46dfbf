import GraphPaths.Proofs.FileTree.WellFormed
import GraphPaths.Proofs.Text.Character
import GraphPaths.SchemaFiles

/-!
# Which schema files are read

Of the files that paths name, and of those in the directories that they name whose name ends in
`.graphql`, each is resolved, and besides these the directories with such a name
(`mem_resolveSchemaFiles`). The paths come in strictly ascending order
(`pairwise_resolveSchemaFiles`). Resolving them again keeps every file and those directories that are
in another of them (`mem_resolveSchemaFiles_resolveSchemaFiles`). So everything resolved is a file, and
resolving is idempotent, just if there is no directory with such a name
(`forall_isFile_iff`, `resolveSchemaFiles_resolveSchemaFiles_iff`); otherwise what is in one is read
twice (`joinSchemaFiles_repeats`). All this is about trees without links.
-/

namespace GraphPaths

variable {t : FileTree} {paths : List FilePath} {p q : FilePath}

/-! ## Inside directories -/

/-- A path names something at any depth in what another names. -/
def FilePath.Inside (q p : FilePath) : Prop :=
  ∃ names, names ≠ [] ∧ (∀ name ∈ names, isEntryName name) ∧ q = p.below names

theorem FilePath.Inside.proper (h : q.Inside p) (hp : p.Proper) : q.Proper := by
  obtain ⟨names, -, hnames, rfl⟩ := h
  exact proper_below hp hnames

theorem FilePath.Inside.trans {o : FilePath} (h : q.Inside p) (h' : p.Inside o) : q.Inside o := by
  obtain ⟨names, hne, hnames, rfl⟩ := h
  obtain ⟨names', -, hnames', rfl⟩ := h'
  refine ⟨names' ++ names, by simp [hne], fun name hname => ?_, by simp [below]⟩
  exact (List.mem_append.mp hname).elim (hnames' name) (hnames name)

theorem FilePath.Inside.length_lt (h : q.Inside p) : p.names.length < q.names.length := by
  obtain ⟨names, hne, -, rfl⟩ := h
  simpa [below] using List.length_pos_iff.mpr hne

namespace FileTree

theorem under_eq_some {directory names rest : List String} :
    under directory names = some rest ↔ names = directory ++ rest ∧ rest ≠ [] := by
  unfold under
  constructor
  · intro h
    split at h
    · next hunder =>
      rw [Bool.and_eq_true, List.isPrefixOf_iff_prefix, decide_eq_true_eq] at hunder
      obtain ⟨⟨rest', rfl⟩, hlength⟩ := hunder
      obtain rfl : rest' = rest := by simpa using h
      exact ⟨rfl, by rintro rfl; simp at hlength⟩
    · contradiction
  · rintro ⟨rfl, hrest⟩
    have hpos := List.length_pos_iff.mpr hrest
    simp [hpos]

/-- The paths to those of some places that are in a directory. -/
theorem mem_map_below {directory : List String} {places : List (List String)} :
    q ∈ (places.filterMap (under directory)).map p.below ↔
      ∃ rest, rest ≠ [] ∧ directory ++ rest ∈ places ∧ q = p.below rest := by
  simp only [List.mem_map, List.mem_filterMap, under_eq_some]
  constructor
  · rintro ⟨rest, ⟨place, hplace, rfl, hrest⟩, rfl⟩
    exact ⟨rest, hrest, hplace, rfl⟩
  · rintro ⟨rest, hrest, hplace, rfl⟩
    exact ⟨rest, ⟨_, hplace, rfl, hrest⟩, rfl⟩

/-- The paths to those of some places that are in a directory with a proper path. -/
theorem mem_placesUnder (ht : t.Unlinked) (hp : p.Proper) (hd : t.isDirectory p)
    {places : List (List String)}
    (hnamed : ∀ place ∈ places, ∀ name ∈ place, FilePath.isEntryName name) :
    q ∈ t.placesUnder p places ↔ t.base q ++ q.names ∈ places ∧ q.Inside p := by
  unfold placesUnder
  rw [locate_of_mem_places ht hp (.inr ((isDirectory_iff ht hp).mp hd))]
  refine mem_map_below.trans ⟨?_, ?_⟩
  · rintro ⟨rest, hrest, hplace, rfl⟩
    have hnames := fun name hname => hnamed _ hplace name (List.mem_append_right _ hname)
    rw [List.append_assoc] at hplace
    exact ⟨hplace, rest, hrest, hnames, rfl⟩
  · rintro ⟨hplace, names, hne, -, rfl⟩
    exact ⟨names, hne, by rwa [List.append_assoc], rfl⟩

theorem mem_filesUnder (ht : t.Unlinked) (hp : p.Proper) (hd : t.isDirectory p) :
    q ∈ t.filesUnder p ↔ t.isFile q ∧ q.Inside p := by
  refine (mem_placesUnder ht hp hd fun place hplace => ?_).trans (and_congr_left fun hq => ?_)
  · exact (ht.named place (mem_places_of_file (isSome_fileAt_iff.mpr hplace))).2
  · rw [isFile_iff ht (hq.proper hp), isSome_fileAt_iff]

theorem mem_directoriesUnder (ht : t.Unlinked) (hp : p.Proper) (hd : t.isDirectory p) :
    q ∈ t.directoriesUnder p ↔ t.isDirectory q ∧ q.Inside p := by
  refine (mem_placesUnder ht hp hd fun place hplace => ?_).trans (and_congr_left fun hq => ?_)
  · exact (ht.named place (mem_places_of_directory hplace)).2
  · have hproper := hq.proper hp
    obtain ⟨names, hne, -, rfl⟩ := hq
    rw [isDirectory_iff ht hproper, isDirectoryAt_iff]
    simp [FilePath.below, hne]

theorem linksUnder_of_unlinked (ht : t.Unlinked) (p : FilePath) : t.linksUnder p = [] := by
  unfold linksUnder placesUnder
  rw [ht.links]
  cases t.locate p <;> rfl

end FileTree

/-! ## What is resolved -/

/-- A path names a schema file itself, or a directory that the file is in and marks it as one. -/
def Selected (t : FileTree) (paths : List FilePath) (q : FilePath) : Prop :=
  t.isFile q ∧ (q ∈ paths ∨ isSchemaName q ∧ ∃ p ∈ paths, t.isDirectory p ∧ q.Inside p)

/-- A directory in one that a path names is marked as a schema file is. -/
def SchemaDirectory (t : FileTree) (paths : List FilePath) (q : FilePath) : Prop :=
  t.isDirectory q ∧ isSchemaName q ∧ ∃ p ∈ paths, t.isDirectory p ∧ q.Inside p

theorem mem_schemaFilesOf (ht : t.Unlinked) (hp : p.Proper) :
    q ∈ schemaFilesOf t p ↔ t.isFile q ∧ q = p ∨
      (t.isFile q ∨ t.isDirectory q) ∧ isSchemaName q ∧ t.isDirectory p ∧ q.Inside p := by
  unfold schemaFilesOf
  by_cases hfile : t.isFile p
  · have hd := FileTree.isDirectory_eq_false ht hp hfile
    rw [if_pos hfile, List.mem_singleton]
    constructor
    · rintro rfl
      exact .inl ⟨hfile, rfl⟩
    · rintro (⟨-, rfl⟩ | ⟨-, -, hp, -⟩)
      · rfl
      · rw [hd] at hp
        contradiction
  · have hne : ¬(t.isFile q ∧ q = p) := by
      rintro ⟨hq, rfl⟩
      exact hfile hq
    rw [if_neg hfile]
    by_cases hd : t.isDirectory p
    · rw [if_pos hd, FileTree.linksUnder_of_unlinked ht, List.append_nil, List.mem_filter,
        List.mem_append, FileTree.mem_filesUnder ht hp hd, FileTree.mem_directoriesUnder ht hp hd]
      tauto
    · rw [if_neg hd]
      simp [hne, hd]

theorem mem_dropRepeated : ∀ {ps : List FilePath}, q ∈ dropRepeated ps ↔ q ∈ ps
  | [] => Iff.rfl
  | [p] => Iff.rfl
  | p :: p' :: rest => by
    have ih := @mem_dropRepeated (p' :: rest)
    unfold dropRepeated
    split
    · next heq =>
      rw [ih, eq_of_beq heq]
      simp
    · rw [List.mem_cons, ih, ← List.mem_cons]

theorem mem_resolveSchemaFiles_iff_exists :
    q ∈ resolveSchemaFiles t paths ↔ ∃ p ∈ paths, q ∈ schemaFilesOf t p := by
  unfold resolveSchemaFiles
  rw [mem_dropRepeated, (List.mergeSort_perm _ _).mem_iff, List.mem_flatMap]

/-- Files are resolved that are selected, and besides these the directories that are marked. -/
theorem mem_resolveSchemaFiles (ht : t.Unlinked) (hpaths : ∀ p ∈ paths, p.Proper) :
    q ∈ resolveSchemaFiles t paths ↔ Selected t paths q ∨ SchemaDirectory t paths q := by
  unfold Selected SchemaDirectory
  rw [mem_resolveSchemaFiles_iff_exists]
  constructor
  · rintro ⟨p, hp, hq⟩
    rcases (mem_schemaFilesOf ht (hpaths p hp)).mp hq with ⟨hfile, rfl⟩ | ⟨hkind, hname, hin⟩
    · exact .inl ⟨hfile, .inl hp⟩
    · exact hkind.imp (fun hfile => ⟨hfile, .inr ⟨hname, p, hp, hin⟩⟩)
        fun hd => ⟨hd, hname, p, hp, hin⟩
  · rintro (⟨hfile, hp | ⟨hname, p, hp, hin⟩⟩ | ⟨hd, hname, p, hp, hin⟩)
    · exact ⟨q, hp, (mem_schemaFilesOf ht (hpaths q hp)).mpr (.inl ⟨hfile, rfl⟩)⟩
    · exact ⟨p, hp, (mem_schemaFilesOf ht (hpaths p hp)).mpr (.inr ⟨.inl hfile, hname, hin⟩)⟩
    · exact ⟨p, hp, (mem_schemaFilesOf ht (hpaths p hp)).mpr (.inr ⟨.inr hd, hname, hin⟩)⟩

/-- What is resolved has proper names. -/
theorem proper_of_mem_resolveSchemaFiles (ht : t.Unlinked) (hpaths : ∀ p ∈ paths, p.Proper)
    (h : q ∈ resolveSchemaFiles t paths) : q.Proper := by
  rcases (mem_resolveSchemaFiles ht hpaths).mp h with
    ⟨-, hq | ⟨-, p, hp, -, hin⟩⟩ | ⟨-, -, p, hp, -, hin⟩
  · exact hpaths q hq
  · exact hin.proper (hpaths p hp)
  · exact hin.proper (hpaths p hp)

/-- Sorted paths without repetitions are in strict order. -/
theorem pairwise_dropRepeated : ∀ {ps : List FilePath}, (∀ p ∈ ps, p.Parted) →
    ps.Pairwise (fun p q => p.orderKey ≤ q.orderKey) →
      (dropRepeated ps).Pairwise fun p q => p.orderKey < q.orderKey
  | [], _, _ => .nil
  | [p], _, _ => List.pairwise_singleton ..
  | p :: p' :: rest, hparted, hsorted => by
    obtain ⟨hfirst, hsorted⟩ := List.pairwise_cons.mp hsorted
    have hrest := fun q hq => hparted q (List.mem_cons_of_mem p hq)
    have ih := pairwise_dropRepeated hrest hsorted
    unfold dropRepeated
    split
    · exact ih
    · next hne =>
      refine List.pairwise_cons.mpr ⟨fun q hq => ?_, ih⟩
      -- The first path differs from the next, and everything later is not before that one.
      have hlt : p.orderKey < p'.orderKey := by
        refine lt_of_le_of_ne (hfirst p' List.mem_cons_self) fun hkey => hne ?_
        rw [FilePath.orderKey_inj (hparted p List.mem_cons_self) (hrest p' List.mem_cons_self) hkey]
        exact beq_self_eq_true p'
      rcases List.mem_cons.mp (mem_dropRepeated.mp hq) with rfl | hq
      · exact hlt
      · exact hlt.trans_le ((List.pairwise_cons.mp hsorted).1 q hq)

/-- Paths without slashes in their names are resolved in strictly ascending order. -/
theorem pairwise_resolveSchemaFiles_of_parted (h : ∀ q ∈ resolveSchemaFiles t paths, q.Parted) :
    (resolveSchemaFiles t paths).Pairwise fun p q => p.orderKey < q.orderKey := by
  refine pairwise_dropRepeated (fun q hq => h q (mem_dropRepeated.mpr hq)) ?_
  have htrans : ∀ a b c : FilePath, a.le b → b.le c → a.le c := fun a b c h h' =>
    FilePath.le_iff.mpr ((FilePath.le_iff.mp h).trans (FilePath.le_iff.mp h'))
  have htotal : ∀ a b : FilePath, a.le b || b.le a := fun a b => by
    rw [Bool.or_eq_true, FilePath.le_iff, FilePath.le_iff]
    exact le_total ..
  exact (List.pairwise_mergeSort htrans htotal _).imp fun h => FilePath.le_iff.mp h

/-- What is resolved is in strictly ascending order. -/
theorem pairwise_resolveSchemaFiles (ht : t.Unlinked) (hpaths : ∀ p ∈ paths, p.Proper) :
    (resolveSchemaFiles t paths).Pairwise fun p q => p.orderKey < q.orderKey :=
  pairwise_resolveSchemaFiles_of_parted fun _ hq =>
    (proper_of_mem_resolveSchemaFiles ht hpaths hq).parted

/-- What is resolved is known by what is in it. -/
theorem resolveSchemaFiles_ext {paths' : List FilePath}
    (hparted : ∀ q ∈ resolveSchemaFiles t paths, q.Parted)
    (h : ∀ q, q ∈ resolveSchemaFiles t paths ↔ q ∈ resolveSchemaFiles t paths') :
    resolveSchemaFiles t paths = resolveSchemaFiles t paths' := by
  have : Std.Irrefl fun p q : FilePath => p.orderKey < q.orderKey := ⟨fun p => lt_irrefl _⟩
  have : Std.Antisymm fun p q : FilePath => p.orderKey < q.orderKey :=
    ⟨fun p q h h' => absurd h' h.asymm⟩
  exact (pairwise_resolveSchemaFiles_of_parted hparted).eq_of_mem_iff
    (pairwise_resolveSchemaFiles_of_parted fun q hq => hparted q ((h q).mpr hq)) h

/-- Everything resolved is a file unless a directory is marked as one. -/
theorem forall_isFile_iff (ht : t.Unlinked) (hpaths : ∀ p ∈ paths, p.Proper) :
    (∀ q ∈ resolveSchemaFiles t paths, t.isFile q) ↔ ∀ q, ¬SchemaDirectory t paths q := by
  constructor
  · intro h q hq
    have hmem := (mem_resolveSchemaFiles ht hpaths).mpr (.inr hq)
    have hd := FileTree.isDirectory_eq_false ht
      (proper_of_mem_resolveSchemaFiles ht hpaths hmem) (h q hmem)
    exact Bool.false_ne_true (hd.symm.trans hq.1)
  · intro h q hq
    exact (((mem_resolveSchemaFiles ht hpaths).mp hq).resolve_right (h q)).1

/-! ## Resolving again -/

/-- What is resolved again is what was resolved, less the directories that are in no other. -/
theorem mem_resolveSchemaFiles_resolveSchemaFiles (ht : t.Unlinked)
    (hpaths : ∀ p ∈ paths, p.Proper) :
    q ∈ resolveSchemaFiles t (resolveSchemaFiles t paths) ↔ q ∈ resolveSchemaFiles t paths ∧
      (t.isDirectory q → ∃ p, SchemaDirectory t paths p ∧ q.Inside p) := by
  have hproper := fun q => proper_of_mem_resolveSchemaFiles (q := q) ht hpaths
  have hdirectory : ∀ p ∈ resolveSchemaFiles t paths, t.isDirectory p →
      SchemaDirectory t paths p := by
    intro p hp hd
    refine ((mem_resolveSchemaFiles ht hpaths).mp hp).resolve_left fun hfile => ?_
    rw [FileTree.isDirectory_eq_false ht (hproper p hp) hfile.1] at hd
    contradiction
  rw [mem_resolveSchemaFiles ht hproper]
  constructor
  · rintro (⟨hfile, hq⟩ | ⟨hd, hname, p, hp, hdp, hin⟩)
    · have hmem : q ∈ resolveSchemaFiles t paths := by
        rcases hq with hq | ⟨hname, p, hp, hd, hin⟩
        · exact hq
        · obtain ⟨-, -, o, ho, hdo, hpo⟩ := hdirectory p hp hd
          exact (mem_resolveSchemaFiles ht hpaths).mpr
            (.inl ⟨hfile, .inr ⟨hname, o, ho, hdo, hin.trans hpo⟩⟩)
      refine ⟨hmem, fun hd => ?_⟩
      rw [FileTree.isDirectory_eq_false ht (hproper q hmem) hfile] at hd
      contradiction
    · obtain ⟨-, -, o, ho, hdo, hpo⟩ := hdirectory p hp hdp
      exact ⟨(mem_resolveSchemaFiles ht hpaths).mpr
        (.inr ⟨hd, hname, o, ho, hdo, hin.trans hpo⟩), fun _ => ⟨p, hdirectory p hp hdp, hin⟩⟩
  · rintro ⟨hq, hinside⟩
    rcases (mem_resolveSchemaFiles ht hpaths).mp hq with hfile | hd
    · exact .inl ⟨hfile.1, .inl hq⟩
    · obtain ⟨p, hp, hin⟩ := hinside hd.1
      exact .inr ⟨hd.1, hd.2.1, p, (mem_resolveSchemaFiles ht hpaths).mpr (.inr hp), hp.1, hin⟩

/-- Resolving again changes nothing just if no directory is marked as a schema file. -/
theorem resolveSchemaFiles_resolveSchemaFiles_iff (ht : t.Unlinked)
    (hpaths : ∀ p ∈ paths, p.Proper) :
    resolveSchemaFiles t (resolveSchemaFiles t paths) = resolveSchemaFiles t paths ↔
      ∀ q, ¬SchemaDirectory t paths q := by
  have hproper := fun q => proper_of_mem_resolveSchemaFiles (q := q) ht hpaths
  constructor
  · intro h
    -- A directory that is kept is in a shorter one, which is kept in turn.
    have hshorter : ∀ n, ∀ q, q.names.length ≤ n → ¬SchemaDirectory t paths q := by
      intro n
      induction n with
      | zero =>
        intro q hn hq
        obtain ⟨-, -, p, -, -, hin⟩ := hq
        exact absurd hin.length_lt (by omega)
      | succ n ih =>
        intro q hn hq
        have hmem := (mem_resolveSchemaFiles ht hpaths).mpr (.inr hq)
        rw [← h, mem_resolveSchemaFiles_resolveSchemaFiles ht hpaths] at hmem
        obtain ⟨p, hp, hin⟩ := hmem.2 hq.1
        exact ih p (by have := hin.length_lt; omega) hp
    exact fun q => hshorter q.names.length q le_rfl
  · intro h
    have hparted := fun q hq => (proper_of_mem_resolveSchemaFiles (q := q) ht hproper hq).parted
    refine resolveSchemaFiles_ext hparted fun q => ?_
    rw [mem_resolveSchemaFiles_resolveSchemaFiles ht hpaths, and_iff_left_iff_imp]
    intro hq hd
    have hfile := (forall_isFile_iff ht hpaths).mpr h q hq
    rw [FileTree.isDirectory_eq_false ht (hproper q hq) hfile] at hd
    contradiction

/-- A schema may be loaded from resolved paths unless a directory is marked as a schema file. -/
theorem loadSchema_resolveSchemaFiles (ht : t.Unlinked) (hpaths : ∀ p ∈ paths, p.Proper)
    (h : ∀ q, ¬SchemaDirectory t paths q) :
    loadSchema t (resolveSchemaFiles t paths) = loadSchema t paths := by
  unfold loadSchema
  rw [(resolveSchemaFiles_resolveSchemaFiles_iff ht hpaths).mpr h]

/-! ## What is read -/

/-- A file that is read as a document gives its own text. -/
theorem readText_of_readSchemaFile {shown : FilePath} {text : String}
    (h : readSchemaFile t p shown = .ok text) : t.readText p = .ok text := by
  obtain ⟨text', htext, h⟩ := bind_eq_ok.mp h
  obtain ⟨_, -, h⟩ := bind_eq_ok.mp h
  obtain rfl := Except.ok.inj h
  exact mapError_eq_ok.mp htext

/-- A file is read as its text, and each is a document of its own. -/
theorem readText_of_readSchemaText {text : String} (ht : t.Unlinked) (hq : q.Proper)
    (hfile : t.isFile q) (h : readSchemaText t q = .ok text) : t.readText q = .ok text := by
  unfold readSchemaText at h
  rw [FileTree.isDirectory_eq_false ht hq hfile, if_neg Bool.false_ne_true] at h
  rw [← FileTree.readText_absolute ht hq hfile]
  exact readText_of_readSchemaFile h

/-- Files are read one after the other. -/
theorem joinSchemaFiles_eq_ok {files : List FilePath} {text : String} (ht : t.Unlinked)
    (hfiles : ∀ q ∈ files, q.Proper ∧ t.isFile q) (h : joinSchemaFiles t files = .ok text) :
    ∃ texts, List.Forall₂ (fun q text => t.readText q = .ok text) files texts ∧
      text = String.join (texts.map (· ++ "\n")) := by
  obtain ⟨texts, htexts, h⟩ := bind_eq_ok.mp h
  refine ⟨texts, ?_, (Except.ok.inj h).symm⟩
  have hread := forall₂_of_mapM htexts
  exact ((List.forall₂_and_left _ _).mpr ⟨hfiles, hread⟩).imp fun q text ⟨⟨hproper, hfile⟩, hq⟩ =>
    readText_of_readSchemaText ht hproper hfile hq

/-- Unless a directory is marked as a schema file, the text is that of the selected files in
ascending order, each once. -/
theorem joinSchemaFiles_resolveSchemaFiles (ht : t.Unlinked) (hpaths : ∀ p ∈ paths, p.Proper)
    (hnone : ∀ q, ¬SchemaDirectory t paths q) {text : String}
    (h : joinSchemaFiles t (resolveSchemaFiles t paths) = .ok text) :
    ∃ files texts, (∀ q, q ∈ files ↔ Selected t paths q) ∧
      (files.Pairwise fun p q => p.orderKey < q.orderKey) ∧
      List.Forall₂ (fun q text => t.readText q = .ok text) files texts ∧
      text = String.join (texts.map (· ++ "\n")) := by
  have hmem : ∀ q, q ∈ resolveSchemaFiles t paths ↔ Selected t paths q := fun q =>
    (mem_resolveSchemaFiles ht hpaths).trans (or_iff_left (hnone q))
  obtain ⟨texts, htexts, rfl⟩ := joinSchemaFiles_eq_ok ht
    (fun q hq => ⟨proper_of_mem_resolveSchemaFiles ht hpaths hq, ((hmem q).mp hq).1⟩) h
  exact ⟨_, texts, hmem, pairwise_resolveSchemaFiles ht hpaths, htexts, rfl⟩

/-! ## Marked directories -/

theorem endsWith_iff {text ending : String} :
    text.endsWith ending ↔ ending.toList <:+ text.toList := by
  rw [String.endsWith_eq_endsWith_toSlice, String.Slice.endsWith_string_iff, String.copy_toSlice]

/-- An ASCII ending of a text is put in lower case whatever is before it. -/
theorem suffix_lowerFrom {ending : List Char} (hending : ∀ c ∈ ending, c.toNat < 128) :
    ∀ {cs : List Char} (before : List Char), ending <:+ cs →
      ending.map Text.lowerChar <:+ Text.lowerFrom before cs
  | [], before, h => by
    obtain rfl := List.suffix_nil.mp h
    exact List.nil_suffix
  | c :: cs, before, h => by
    rcases List.suffix_cons_iff.mp h with rfl | h
    · rw [Text.lowerFrom_of_ascii before hending]
    · exact (suffix_lowerFrom hending (c :: before) h).trans (List.suffix_append ..)

/-- A name that marks a schema file marks a document. -/
theorem isDocumentName_of_isSchemaName (h : isSchemaName p) : isDocumentName p := by
  have hascii : ∀ c ∈ ".graphql".toList, c.toNat < 128 := by simp
  have hlower : ".graphql".toList.map Text.lowerChar = ".graphql".toList := rfl
  have hsuffix := suffix_lowerFrom hascii [] (endsWith_iff.mp h)
  rw [hlower] at hsuffix
  unfold isDocumentName
  rw [List.any_cons, Bool.or_eq_true]
  have hname : (Text.lower p.name).toList = Text.lowerFrom [] p.name.toList := String.toList_ofList
  exact .inl (endsWith_iff.mpr (by rwa [hname]))

/-- A directory comes before all that is in it. -/
theorem FilePath.Inside.orderKey_lt (h : q.Inside p) : p.orderKey < q.orderKey := by
  obtain ⟨names, hne, -, rfl⟩ := h
  have hkey : (p.below names).orderKey = p.orderKey ++ names := by
    unfold orderKey below
    split <;> rfl
  obtain ⟨name, names, rfl⟩ := List.exists_cons_of_ne_nil hne
  have hlt : p.orderKey ++ [] < p.orderKey ++ name :: names :=
    List.append_left_lt (List.nil_lt_cons name names)
  rwa [hkey, ← List.append_nil p.orderKey, List.append_assoc]

/-- Each of the texts is part of the text that joins them. -/
theorem exists_intercalate_eq (sep : String) {part : String} : ∀ {parts : List String},
    part ∈ parts → ∃ before after, sep.intercalate parts = before ++ part ++ after
  | [first], h => by
    obtain rfl := List.mem_singleton.mp h
    exact ⟨"", "", by simp⟩
  | first :: next :: parts, h => by
    rw [String.intercalate_cons_cons]
    rcases List.mem_cons.mp h with rfl | h
    · exact ⟨"", _, by simp [String.append_assoc]; rfl⟩
    · obtain ⟨before, after, heq⟩ := exists_intercalate_eq sep h
      exact ⟨first ++ sep ++ before, after, by rw [heq]; simp [String.append_assoc]⟩

/-- The text of a directory has in it those of its documents. -/
theorem readSchemaText_of_inside {text : String} (ht : t.Unlinked) (hp : p.Proper)
    (hd : t.isDirectory p) (hq : t.isFile q) (hname : isSchemaName q) (hin : q.Inside p)
    (h : readSchemaText t p = .ok text) :
    ∃ part before after, t.readText q = .ok part ∧ text = before ++ part ++ after := by
  unfold readSchemaText at h
  rw [if_pos hd] at h
  obtain ⟨texts, htexts, h⟩ := bind_eq_ok.mp h
  obtain rfl := Except.ok.inj h
  have hmem : q ∈ (documentsUnder t p).mergeSort fun a b => decide (a.text ≤ b.text) := by
    unfold documentsUnder
    rw [(List.mergeSort_perm _ _).mem_iff, FileTree.linksUnder_of_unlinked ht, List.filter_nil,
      List.append_nil, List.mem_filter]
    exact ⟨(FileTree.mem_filesUnder ht hp hd).mpr ⟨hq, hin⟩, isDocumentName_of_isSchemaName hname⟩
  obtain ⟨part, hpart, hread⟩ := exists_right_of_forall₂ (forall₂_of_mapM htexts) hmem
  obtain ⟨before, after, htext⟩ := exists_intercalate_eq "\n" hpart
  exact ⟨part, before, after, readText_of_readSchemaFile hread, htext⟩

/-- What is read of a list is read of its parts. -/
theorem exists_append_of_mapM {ε α β : Type} {f : α → Except ε β} {xs ys : List α} {x : α}
    {zs : List β} (h : (xs ++ x :: ys).mapM f = .ok zs) :
    ∃ before z after, zs = before ++ z :: after ∧ f x = .ok z ∧ ys.mapM f = .ok after := by
  rw [List.mapM_append, List.mapM_cons] at h
  obtain ⟨before, -, h⟩ := bind_eq_ok.mp h
  obtain ⟨rest, hrest, h⟩ := bind_eq_ok.mp h
  obtain ⟨z, hz, hrest⟩ := bind_eq_ok.mp hrest
  obtain ⟨after, hafter, hrest⟩ := bind_eq_ok.mp hrest
  obtain rfl := Except.ok.inj hrest
  exact ⟨before, z, after, (Except.ok.inj h).symm, hz, hafter⟩

/-- What is in a directory that is marked as a schema file is read twice. -/
theorem joinSchemaFiles_repeats (ht : t.Unlinked) (hpaths : ∀ p ∈ paths, p.Proper) {text : String}
    (hp : SchemaDirectory t paths p) (hq : t.isFile q) (hname : isSchemaName q) (hin : q.Inside p)
    (h : joinSchemaFiles t (resolveSchemaFiles t paths) = .ok text) :
    ∃ part before between after, t.readText q = .ok part ∧
      text = before ++ part ++ between ++ part ++ after := by
  have hmemp := (mem_resolveSchemaFiles ht hpaths).mpr (.inr hp)
  have hproper := proper_of_mem_resolveSchemaFiles ht hpaths hmemp
  have hmemq : q ∈ resolveSchemaFiles t paths := by
    obtain ⟨-, -, o, ho, hd, hpo⟩ := hp
    exact (mem_resolveSchemaFiles ht hpaths).mpr (.inl ⟨hq, .inr ⟨hname, o, ho, hd, hin.trans hpo⟩⟩)
  have hsorted := pairwise_resolveSchemaFiles ht hpaths
  obtain ⟨xs, ys, hxs⟩ := List.mem_iff_append.mp hmemp
  rw [hxs] at hmemq hsorted
  have hmemys : q ∈ ys := by
    rcases List.mem_append.mp hmemq with hmem | hmem
    · have hlt := (List.pairwise_append.mp hsorted).2.2 q hmem p List.mem_cons_self
      exact absurd hlt hin.orderKey_lt.asymm
    · refine (List.mem_cons.mp hmem).resolve_left ?_
      rintro rfl
      exact absurd hin.length_lt (lt_irrefl _)
  obtain ⟨ys, zs, rfl⟩ := List.mem_iff_append.mp hmemys
  obtain ⟨texts, htexts, h⟩ := bind_eq_ok.mp h
  obtain rfl := Except.ok.inj h
  rw [hxs] at htexts
  obtain ⟨first, whole, rest, rfl, hwhole, hrest⟩ := exists_append_of_mapM htexts
  obtain ⟨middle, part, last, rfl, hpart, -⟩ := exists_append_of_mapM hrest
  obtain ⟨part', before, after, hread, rfl⟩ :=
    readSchemaText_of_inside ht hproper hp.1 hq hname hin hwhole
  obtain rfl : part = part' := Except.ok.inj
    ((readText_of_readSchemaText ht (hin.proper hproper) hq hpart).symm.trans hread)
  refine ⟨part, String.join (first.map (· ++ "\n")) ++ before,
    after ++ "\n" ++ String.join (middle.map (· ++ "\n")),
    "\n" ++ String.join (last.map (· ++ "\n")), hread, ?_⟩
  simp [String.append_assoc]

end GraphPaths
