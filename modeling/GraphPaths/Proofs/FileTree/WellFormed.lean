import GraphPaths.Proofs.FilePath
import GraphPaths.Proofs.FileTree

/-!
# Trees as file systems keep them

Everything in a tree is one of a file, a directory and a link, stands in a directory and has a name
(`FileTree.WellFormed`). This is so of an empty tree, and it stays so when files are written and
directories are made (`wellFormed_write`, `wellFormed_makeDirectories`), since a path leads to a
directory or to a place in one that is free of links (`followLinks_around`). A path that meets no
link leads to its own names (`followLinks_eq_ok`). So in a tree without links (`FileTree.Unlinked`)
a proper path names a file if it leads to one, whatever it goes through (`isFile_iff`), and likewise
a directory (`isDirectory_iff`).
-/

namespace GraphPaths

namespace FileTree

variable {t t' : FileTree} {p : FilePath} {bytes : List Nat} {place here rest names : List String}

/-! ## Places -/

/-- Where there is a file, a directory or a link. -/
def places (t : FileTree) : List (List String) :=
  t.files.map Prod.fst ++ t.directories ++ t.links.map Prod.fst

/-- A tree in which everything has a name and stands in a directory, and is only one thing. -/
structure WellFormed (t : FileTree) : Prop where
  named : ∀ place ∈ t.places, place ≠ [] ∧ ∀ name ∈ place, FilePath.isEntryName name
  around : ∀ place ∈ t.places, t.isDirectoryAt place.dropLast
  apart : ∀ place ∈ t.directories, place ∉ t.files.map Prod.fst
  linksApart : ∀ place ∈ t.links.map Prod.fst, place ∉ t.files.map Prod.fst ∧ place ∉ t.directories
  targets : ∀ link ∈ t.links, ∀ name ∈ link.2.names, FilePath.isStepName name
  workingDirectory : t.isDirectoryAt t.workingDirectory

/-- A tree in which there are no links. -/
structure Unlinked (t : FileTree) : Prop extends t.WellFormed where
  links : t.links = []

theorem isDirectoryAt_iff : t.isDirectoryAt place ↔ place = [] ∨ place ∈ t.directories := by
  simp [isDirectoryAt]

theorem isSome_fileAt_iff : (t.fileAt place).isSome ↔ place ∈ t.files.map Prod.fst :=
  isSome_lookup_iff

theorem isSome_linkAt_iff : (t.linkAt place).isSome ↔ place ∈ t.links.map Prod.fst :=
  isSome_lookup_iff

theorem linkAt_eq_none : t.linkAt place = none ↔ place ∉ t.links.map Prod.fst := by
  rw [← isSome_linkAt_iff, Option.not_isSome_iff_eq_none]

theorem mem_places_iff (hplace : place ≠ []) : place ∈ t.places ↔
    (t.fileAt place).isSome ∨ t.isDirectoryAt place ∨ (t.linkAt place).isSome := by
  unfold places
  rw [List.mem_append, List.mem_append, isSome_fileAt_iff, isSome_linkAt_iff, isDirectoryAt_iff,
    or_iff_right hplace, or_assoc]

theorem mem_places_of_file (h : (t.fileAt place).isSome) : place ∈ t.places :=
  List.mem_append_left _ (List.mem_append_left _ (isSome_fileAt_iff.mp h))

theorem mem_places_of_directory (h : place ∈ t.directories) : place ∈ t.places :=
  List.mem_append_left _ (List.mem_append_right _ h)

theorem mem_places_of_link (h : (t.linkAt place).isSome) : place ∈ t.places :=
  List.mem_append_right _ (isSome_linkAt_iff.mp h)

namespace WellFormed

theorem isDirectoryAt_eq_false (ht : t.WellFormed) (h : (t.fileAt place).isSome) :
    t.isDirectoryAt place = false := by
  rw [Bool.eq_false_iff, ne_eq, isDirectoryAt_iff, not_or]
  exact ⟨(ht.named place (mem_places_of_file h)).1,
    fun hmem => ht.apart place hmem (isSome_fileAt_iff.mp h)⟩

theorem isEntryName_of_isDirectoryAt (ht : t.WellFormed) (h : t.isDirectoryAt place) :
    ∀ name ∈ place, FilePath.isEntryName name := by
  rcases isDirectoryAt_iff.mp h with rfl | h
  · exact nofun
  · exact (ht.named place (mem_places_of_directory h)).2

/-- The directory around a directory is one. -/
theorem isDirectoryAt_dropLast (ht : t.WellFormed) (h : t.isDirectoryAt place) :
    t.isDirectoryAt place.dropLast := by
  rcases isDirectoryAt_iff.mp h with rfl | h
  · rfl
  · exact ht.around place (mem_places_of_directory h)

/-- Everything around a place is a directory. -/
theorem isDirectoryAt_of_append (ht : t.WellFormed) :
    ∀ {rest : List String}, here ++ rest ∈ t.places → rest ≠ [] → t.isDirectoryAt here := by
  intro rest
  induction rest using List.reverseRecOn with
  | nil => exact fun _ h => absurd rfl h
  | append_singleton rest name ih =>
    intro h _
    have haround := ht.around _ h
    rw [← List.append_assoc, List.dropLast_concat] at haround
    by_cases hrest : rest = []
    · rwa [hrest, List.append_nil] at haround
    · have hne : here ++ rest ≠ [] := by simp [hrest]
      exact ih ((mem_places_iff hne).mpr (.inr (.inl haround))) hrest

theorem isDirectoryAt_startIn (h : t.isDirectoryAt here) (p : FilePath) :
    t.isDirectoryAt (startIn here p) := by
  unfold startIn
  split
  · exact h
  · rfl

theorem isDirectoryAt_base (ht : t.WellFormed) (p : FilePath) : t.isDirectoryAt (t.base p) :=
  isDirectoryAt_startIn ht.workingDirectory p

end WellFormed

/-! ## Where paths lead -/

/-- A place that a path can lead to: a directory, or a name in one that is no link. -/
def Reachable (t : FileTree) (place : List String) : Prop :=
  t.isDirectoryAt place ∨ ∃ here name, place = here ++ [name] ∧ t.isDirectoryAt here ∧
    FilePath.isEntryName name ∧ t.linkAt place = none

section

variable {jump : List String → List String → Except FileError (List String)}

theorem walk_around (ht : t.WellFormed)
    (hjump : ∀ {here rest}, t.isDirectoryAt here → (∀ name ∈ rest, FilePath.isStepName name) →
      jump here rest = .ok names → t.Reachable names) :
    ∀ {rest here : List String}, t.Reachable here → (∀ name ∈ rest, FilePath.isStepName name) →
      t.walk jump here rest = .ok names → t.Reachable names
  | [], here, hhere, _, h => Except.ok.inj h ▸ hhere
  | name :: rest, here, _, hrest, h => by
    obtain ⟨hname, hrest⟩ := List.forall_mem_cons.mp hrest
    unfold walk at h
    split at h
    · next hhere =>
      split at h
      · exact walk_around ht hjump (.inl (ht.isDirectoryAt_dropLast hhere)) hrest h
      · next hback =>
        cases hlink : t.linkAt (here ++ [name]) with
        | some target =>
          rw [hlink] at h
          refine hjump (WellFormed.isDirectoryAt_startIn hhere target) ?_ h
          exact List.forall_mem_append.mpr ⟨ht.targets _ (mem_of_lookup hlink), hrest⟩
        | none =>
          rw [hlink] at h
          have hentry := (Bool.or_eq_true _ _ ▸ hname).resolve_right hback
          exact walk_around ht hjump (.inr ⟨here, name, rfl, hhere, hentry, hlink⟩) hrest h
    · split at h <;> contradiction

/-- A path leads to a directory or to a place in one where no link is. -/
theorem followLinks_around (ht : t.WellFormed) : ∀ (n : Nat) {here rest : List String},
    t.isDirectoryAt here → (∀ name ∈ rest, FilePath.isStepName name) →
      t.followLinks n here rest = .ok names → t.Reachable names
  | 0, _, _, hhere, hrest, h =>
    walk_around ht (fun _ _ hjump => nomatch (hjump : Except.error _ = Except.ok _)) (.inl hhere)
      hrest h
  | n + 1, _, _, hhere, hrest, h => walk_around ht (followLinks_around ht n) (.inl hhere) hrest h

/-- On the way from a directory no link is met; the last name counts too. -/
def Direct (t : FileTree) (here rest : List String) : Prop :=
  ∀ n < rest.length, t.linkAt (here ++ rest.take (n + 1)) = none

instance (t : FileTree) (here rest : List String) : Decidable (t.Direct here rest) :=
  inferInstanceAs (Decidable (∀ n < rest.length, t.linkAt (here ++ rest.take (n + 1)) = none))

theorem Direct.head {name : String} (h : t.Direct here (name :: rest)) :
    t.linkAt (here ++ [name]) = none :=
  h 0 (by simp)

theorem Direct.tail {name : String} (h : t.Direct here (name :: rest)) :
    t.Direct (here ++ [name]) rest := by
  intro n hn
  simpa using h (n + 1) (by simpa using hn)

/-- A path that meets no link and does not go back leads to its own names, through directories. -/
theorem walk_eq_ok : ∀ {rest here : List String}, ".." ∉ rest → t.Direct here rest →
    t.walk jump here rest = .ok names →
      names = here ++ rest ∧ (rest ≠ [] → t.isDirectoryAt (here ++ rest.dropLast))
  | [], here, _, _, h => ⟨by rw [← Except.ok.inj h, List.append_nil], fun hne => absurd rfl hne⟩
  | name :: rest, here, hrest, hdirect, h => by
    rw [List.mem_cons, not_or] at hrest
    unfold walk at h
    split at h
    · next hhere =>
      rw [if_neg (by simpa using Ne.symm hrest.1), hdirect.head] at h
      obtain ⟨rfl, hlast⟩ := walk_eq_ok hrest.2 hdirect.tail h
      refine ⟨by simp, fun _ => ?_⟩
      cases rest with
      | nil => simpa using hhere
      | cons name' rest => simpa using hlast (List.cons_ne_nil name' rest)
    · split at h <;> contradiction

/-- A path that meets no link goes through directories to its own names. -/
theorem walk_of_directories : ∀ {rest here : List String}, ".." ∉ rest → t.Direct here rest →
    (∀ before after, rest = before ++ after → after ≠ [] → t.isDirectoryAt (here ++ before)) →
      t.walk jump here rest = .ok (here ++ rest)
  | [], here, _, _, _ => by rw [List.append_nil]; rfl
  | name :: rest, here, hrest, hdirect, h => by
    rw [List.mem_cons, not_or] at hrest
    have hhere : t.isDirectoryAt here := by simpa using h [] (name :: rest) rfl nofun
    unfold walk
    rw [if_pos hhere, if_neg (by simpa using Ne.symm hrest.1), hdirect.head]
    refine (walk_of_directories hrest.2 hdirect.tail fun before after hsplit hafter => ?_).trans
      (by simp)
    simpa using h (name :: before) after (by rw [hsplit]; rfl) hafter

end

/-- Names are walked through whatever number of links is left. -/
theorem exists_followLinks_eq (t : FileTree) (n : Nat) : ∃ jump, t.followLinks n = t.walk jump := by
  cases n with
  | zero => exact ⟨_, rfl⟩
  | succ n => exact ⟨_, rfl⟩

theorem followLinks_eq_ok {n : Nat} (hrest : ".." ∉ rest) (hdirect : t.Direct here rest)
    (h : t.followLinks n here rest = .ok names) :
    names = here ++ rest ∧ (rest ≠ [] → t.isDirectoryAt (here ++ rest.dropLast)) := by
  obtain ⟨jump, hwalk⟩ := t.exists_followLinks_eq n
  rw [hwalk] at h
  exact walk_eq_ok hrest hdirect h

theorem follow_of_directories (hrest : ".." ∉ rest) (hdirect : t.Direct here rest)
    (h : ∀ before after, rest = before ++ after → after ≠ [] → t.isDirectoryAt (here ++ before)) :
    t.follow here rest = .ok (here ++ rest) :=
  walk_of_directories hrest hdirect h

theorem walk_append {jump : List String → List String → Except FileError (List String)}
    {n : Nat} {d : List String} (hn : t.followLinks n = t.walk jump)
    (hjump : ∀ here rest, jump here rest = .ok d →
      ∃ m, ∀ after, jump here (rest ++ after) = t.followLinks m d after) :
    ∀ {rest here : List String}, t.walk jump here rest = .ok d →
      ∃ m, ∀ after, t.walk jump here (rest ++ after) = t.followLinks m d after
  | [], here, h => by
    obtain rfl := Except.ok.inj h
    exact ⟨n, fun after => by rw [hn]; rfl⟩
  | name :: rest, here, h => by
    simp only [List.cons_append]
    unfold walk at h ⊢
    split at h
    · next hhere =>
      simp only [if_pos hhere]
      split at h
      · next hback =>
        simp only [if_pos hback]
        exact walk_append hn hjump h
      · next hback =>
        simp only [if_neg hback]
        cases hlink : t.linkAt (here ++ [name]) with
        | some target =>
          rw [hlink] at h
          simpa using hjump _ _ h
        | none =>
          rw [hlink] at h
          exact walk_append hn hjump h
    · split at h <;> contradiction

/-- Names after others are followed from where the others lead to, through the links that are left.
-/
theorem followLinks_append (n : Nat) {here rest d : List String}
    (h : t.followLinks n here rest = .ok d) :
    ∃ m, ∀ after, t.followLinks n here (rest ++ after) = t.followLinks m d after := by
  induction n generalizing here rest with
  | zero =>
    exact walk_append (n := 0) rfl
      (fun _ _ hjump => nomatch (hjump : Except.error _ = Except.ok _)) h
  | succ n ih => exact walk_append (n := n + 1) rfl (fun _ _ hrest => ih hrest) h

/-- What is below a directory is found from it on. -/
theorem locate_below {d : List String} (h : t.locate p = .ok d) :
    ∃ m, ∀ names, t.locate (p.below names) = t.followLinks m d names :=
  followLinks_append linkLimit h

/-! ## Trees without links -/

theorem dots_notMem (hp : p.Proper) : ".." ∉ p.names :=
  fun h => FilePath.ne_dots_of_isEntryName (hp.names _ h) rfl

theorem Unlinked.direct (ht : t.Unlinked) (here rest : List String) : t.Direct here rest := by
  intro n _
  unfold linkAt
  rw [ht.links]
  rfl

theorem Unlinked.mem_places_iff (ht : t.Unlinked) (hplace : place ≠ []) :
    place ∈ t.places ↔ (t.fileAt place).isSome ∨ t.isDirectoryAt place := by
  rw [FileTree.mem_places_iff hplace, isSome_linkAt_iff, ht.links]
  simp

/-- A proper path leads to its own names if there is something. -/
theorem locate_of_mem_places (ht : t.Unlinked) (hp : p.Proper)
    (h : (t.fileAt (t.base p ++ p.names)).isSome ∨ t.isDirectoryAt (t.base p ++ p.names)) :
    t.locate p = .ok (t.base p ++ p.names) := by
  refine follow_of_directories (dots_notMem hp) (ht.direct _ _) fun before after hsplit hafter => ?_
  have hne : t.base p ++ p.names ≠ [] := by simp [hsplit, hafter]
  have hmem := (ht.mem_places_iff hne).mpr h
  rw [hsplit, ← List.append_assoc] at hmem
  exact ht.isDirectoryAt_of_append hmem hafter

theorem locate_eq_ok (ht : t.Unlinked) (hp : p.Proper) (h : t.locate p = .ok names) :
    names = t.base p ++ p.names :=
  (followLinks_eq_ok (dots_notMem hp) (ht.direct _ _) h).1

/-- A proper path names a file just if it leads to one. -/
theorem isFile_iff (ht : t.Unlinked) (hp : p.Proper) :
    t.isFile p ↔ (t.fileAt (t.base p ++ p.names)).isSome := by
  unfold isFile
  constructor
  · intro h
    split at h
    · next names hnames => rwa [← locate_eq_ok ht hp hnames]
    · contradiction
  · intro h
    rw [locate_of_mem_places ht hp (.inl h)]
    exact h

/-- A proper path names a directory just if it leads to one. -/
theorem isDirectory_iff (ht : t.Unlinked) (hp : p.Proper) :
    t.isDirectory p ↔ t.isDirectoryAt (t.base p ++ p.names) := by
  unfold isDirectory
  constructor
  · intro h
    split at h
    · next names hnames => rwa [← locate_eq_ok ht hp hnames]
    · contradiction
  · intro h
    rw [locate_of_mem_places ht hp (.inr h)]
    exact h

theorem isDirectory_eq_false (ht : t.Unlinked) (hp : p.Proper) (h : t.isFile p) :
    t.isDirectory p = false := by
  rw [Bool.eq_false_iff, ne_eq, isDirectory_iff ht hp,
    ht.isDirectoryAt_eq_false ((isFile_iff ht hp).mp h)]
  exact Bool.false_ne_true

/-- A proper path leads to the same place as the path from the root. -/
theorem locate_absolute (ht : t.Unlinked) (hp : p.Proper) (h : t.isFile p) :
    t.locate (t.absolute p) = t.locate p := by
  have hfile := (isFile_iff ht hp).mp h
  have hnames : ∀ name ∈ t.base p ++ p.names, FilePath.isEntryName name :=
    List.forall_mem_append.mpr
      ⟨ht.isEntryName_of_isDirectoryAt (ht.isDirectoryAt_base p), hp.names⟩
  have habsolute : t.absolute p = ⟨if p.root == "" then "/" else p.root, t.base p ++ p.names⟩ :=
    FilePath.collapse_of_names hnames
  have hbase : t.base (t.absolute p) = [] := by
    have hroot : ((if p.root == "" then "/" else p.root) == "") = false := by
      split
      · decide
      · next hroot => simpa using hroot
    rw [habsolute]
    unfold base startIn
    rw [hroot, if_neg Bool.false_ne_true]
  have hproper : (t.absolute p).Proper := by
    rw [habsolute]
    refine ⟨?_, hnames⟩
    rcases hp.root with hroot | hroot | hroot <;> simp [hroot]
  have hplace : t.base (t.absolute p) ++ (t.absolute p).names = t.base p ++ p.names := by
    rw [hbase, List.nil_append, habsolute]
  rw [locate_of_mem_places ht hp (.inl hfile), ← hplace]
  exact locate_of_mem_places ht hproper (.inl (hplace ▸ hfile))

theorem readText_absolute (ht : t.Unlinked) (hp : p.Proper) (h : t.isFile p) :
    t.readText (t.absolute p) = t.readText p := by
  unfold readText read
  rw [locate_absolute ht hp h]

/-! ## Trees that programs make -/

/-- An empty tree is well-formed. -/
theorem wellFormed_empty {workingDirectory : List String}
    (h : ∀ name ∈ workingDirectory, FilePath.isEntryName name) :
    (empty workingDirectory).WellFormed := by
  have hdirectory : ∀ n ≤ workingDirectory.length,
      (empty workingDirectory).isDirectoryAt (workingDirectory.take n) := by
    rintro (_ | n) hn
    · rfl
    · exact isDirectoryAt_iff.mpr (.inr (List.mem_map.mpr ⟨n, List.mem_range.mpr hn, rfl⟩))
  have hplaces : ∀ place ∈ (empty workingDirectory).places,
      ∃ n < workingDirectory.length, place = workingDirectory.take (n + 1) := by
    intro place hplace
    obtain ⟨n, hn, rfl⟩ := List.mem_map.mp (List.mem_append.mp hplace |>.resolve_right nofun)
    exact ⟨n, List.mem_range.mp hn, rfl⟩
  refine ⟨fun place hplace => ?_, fun place hplace => ?_, nofun, nofun, nofun, ?_⟩
  · obtain ⟨n, hn, rfl⟩ := hplaces place hplace
    exact ⟨List.ne_nil_of_length_pos (by simp; omega), fun name hname =>
      h name (List.mem_of_mem_take hname)⟩
  · obtain ⟨n, hn, rfl⟩ := hplaces place hplace
    rw [List.take_succ_eq_append_getElem hn, List.dropLast_concat]
    exact hdirectory n hn.le
  · have hwhole := hdirectory _ le_rfl
    rwa [List.take_length] at hwhole

/-- The places of the files when one of them is replaced or added. -/
theorem mem_keys_putFile {files : List (List String × List Nat)} :
    here ∈ (putFile place bytes files).map Prod.fst ↔
      here = place ∨ here ∈ files.map Prod.fst := by
  induction files with
  | nil => simp [putFile]
  | cons file files ih =>
    obtain ⟨k, b⟩ := file
    unfold putFile
    split
    · next hk =>
      obtain rfl : k = place := beq_iff_eq.mp hk
      simp
    · simp only [List.map_cons, List.mem_cons, ih]
      tauto

/-- A tree stays well-formed when a file is written. -/
theorem wellFormed_write (ht : t.WellFormed) (hp : ∀ name ∈ p.names, FilePath.isStepName name)
    (h : t.write p bytes = .ok t') : t'.WellFormed := by
  obtain ⟨written, hlocate, hfree, rfl⟩ := write_eq_ok.mp h
  obtain hwritten | ⟨here, name, rfl, hhere, hname, hlink⟩ :=
    followLinks_around ht linkLimit (ht.isDirectoryAt_base p) hp hlocate
  · exact absurd (hfree.symm.trans hwritten) Bool.false_ne_true
  have hplaces : ∀ place ∈ places { t with files := putFile (here ++ [name]) bytes t.files },
      place = here ++ [name] ∨ place ∈ t.places := by
    intro place hplace
    simp only [places, List.mem_append, mem_keys_putFile] at hplace ⊢
    tauto
  refine ⟨fun place hplace => ?_, fun place hplace => ?_, fun place hplace => ?_,
    fun place hplace => ?_, ht.targets, ht.workingDirectory⟩
  · rcases hplaces place hplace with rfl | hplace
    · refine ⟨by simp, List.forall_mem_append.mpr ⟨?_, List.forall_mem_singleton.mpr hname⟩⟩
      exact ht.isEntryName_of_isDirectoryAt hhere
    · exact ht.named place hplace
  · rcases hplaces place hplace with rfl | hplace
    · rwa [isDirectoryAt_withFiles, List.dropLast_concat]
    · exact ht.around place hplace
  · rw [mem_keys_putFile, not_or]
    refine ⟨?_, ht.apart place hplace⟩
    rintro rfl
    exact Bool.false_ne_true (hfree.symm.trans (isDirectoryAt_iff.mpr (.inr hplace)))
  · rw [mem_keys_putFile, not_or]
    obtain ⟨hfile, hdirectory⟩ := ht.linksApart place hplace
    refine ⟨⟨?_, hfile⟩, hdirectory⟩
    rintro rfl
    exact linkAt_eq_none.mp hlink hplace

/-- A tree stays well-formed when a directory is made in another. -/
theorem wellFormed_withDirectory {name : String} (ht : t.WellFormed)
    (hname : FilePath.isEntryName name) (hhere : t.isDirectoryAt here)
    (hfree : ¬(t.fileAt (here ++ [name])).isSome) (hlink : t.linkAt (here ++ [name]) = none) :
    WellFormed { t with directories := t.directories ++ [here ++ [name]] } := by
  have hgrows : ∀ place, t.isDirectoryAt place →
      isDirectoryAt { t with directories := t.directories ++ [here ++ [name]] } place := by
    intro place hplace
    rw [isDirectoryAt_iff] at hplace ⊢
    exact hplace.imp_right (List.mem_append_left _)
  have hplaces : ∀ place ∈ places { t with directories := t.directories ++ [here ++ [name]] },
      place = here ++ [name] ∨ place ∈ t.places := by
    intro place hplace
    simp only [places, List.mem_append, List.mem_singleton] at hplace ⊢
    tauto
  refine ⟨fun place hplace => ?_, fun place hplace => ?_, fun place hplace => ?_,
    fun place hplace => ?_, ht.targets, hgrows _ ht.workingDirectory⟩
  · rcases hplaces place hplace with rfl | hplace
    · refine ⟨by simp, List.forall_mem_append.mpr ⟨?_, List.forall_mem_singleton.mpr hname⟩⟩
      exact ht.isEntryName_of_isDirectoryAt hhere
    · exact ht.named place hplace
  · rcases hplaces place hplace with rfl | hplace
    · rw [List.dropLast_concat]
      exact hgrows here hhere
    · exact hgrows _ (ht.around place hplace)
  · rcases List.mem_append.mp hplace with hplace | hplace
    · exact ht.apart place hplace
    · rw [List.mem_singleton.mp hplace]
      exact fun hfile => hfree (isSome_fileAt_iff.mpr hfile)
  · obtain ⟨hfile, hdirectory⟩ := ht.linksApart place hplace
    rw [List.mem_append, List.mem_singleton, not_or]
    refine ⟨hfile, hdirectory, ?_⟩
    rintro rfl
    exact linkAt_eq_none.mp hlink hplace

theorem wellFormed_makeFrom {start : List String} : ∀ {rest : List String} {t : FileTree}
    {done : List String} {made : Bool}, t.WellFormed → t.isDirectoryAt start →
      (∀ name ∈ done ++ rest, FilePath.isStepName name) →
        t.makeFrom start made done rest = .ok t' → t'.WellFormed
  | [], _, _, _, ht, _, _, h => (Except.ok.inj h) ▸ ht
  | name :: rest, t, done, made, ht, hstart, hnames, h => by
    have hsplit : done ++ name :: rest = (done ++ [name]) ++ rest := by simp
    rw [hsplit] at hnames
    simp only [makeFrom] at h
    split at h
    · contradiction
    · next place hplace =>
      split at h
      · exact wellFormed_makeFrom ht hstart hnames h
      · next hdirectory =>
        split at h
        · contradiction
        · next hfree =>
          split at h
          · contradiction
          · obtain hplaced | ⟨here, name', rfl, hhere, hname, hlink⟩ :=
              followLinks_around ht linkLimit hstart (List.forall_mem_append.mp hnames).1 hplace
            · exact absurd hplaced hdirectory
            · refine wellFormed_makeFrom (wellFormed_withDirectory ht hname hhere hfree hlink) ?_
                hnames h
              rw [isDirectoryAt_iff] at hstart ⊢
              exact hstart.imp_right (List.mem_append_left _)

/-- A tree stays well-formed when directories are made. -/
theorem wellFormed_makeDirectories (ht : t.WellFormed)
    (hp : ∀ name ∈ p.names, FilePath.isStepName name) (h : t.makeDirectories p = .ok t') :
    t'.WellFormed :=
  wellFormed_makeFrom ht (ht.isDirectoryAt_base p) hp h

end FileTree

end GraphPaths
