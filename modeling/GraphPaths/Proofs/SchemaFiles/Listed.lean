import GraphPaths.Proofs.SchemaFiles

/-!
# Paths listed in any way

What is resolved of some paths depends only on which paths there are
(`resolveSchemaFiles_of_mem_iff`), and it is the union of what is resolved of each part of them
(`mem_resolveSchemaFiles_append`). A directory stands for all that a directory or a marked file in
it stands for, if that is reached without going through a link (`mem_schemaFilesOf_of_covers`), so
that listing these besides it changes nothing (`resolveSchemaFiles_append_of_covered`). A directory
behind a link is another matter (`linkedDirectory_counts`). The paths may go back: all that is asked
of them is that they have no slashes in their names, as any path has that a text is.
-/

namespace GraphPaths

variable {t : FileTree} {paths : List FilePath} {p q : FilePath} {d : List String}

/-! ## What a directory stands for -/

theorem locate_of_isDirectory (h : t.isDirectory p) :
    ∃ d, t.locate p = .ok d ∧ t.isDirectoryAt d := by
  unfold FileTree.isDirectory at h
  split at h
  · next d hd => exact ⟨d, hd, h⟩
  · contradiction

theorem locate_of_isFile (h : t.isFile p) : ∃ d, t.locate p = .ok d ∧ (t.fileAt d).isSome := by
  unfold FileTree.isFile at h
  split at h
  · next d hd => exact ⟨d, hd, h⟩
  · contradiction

/-- A directory stands for all marked places in it. -/
theorem mem_schemaFilesOf_directory (ht : t.WellFormed) (hd : t.locate p = .ok d)
    (h : t.isDirectoryAt d) :
    q ∈ schemaFilesOf t p ↔
      isSchemaName q ∧ ∃ rest, rest ≠ [] ∧ d ++ rest ∈ t.places ∧ q = p.below rest := by
  have hfile : ¬t.isFile p := by
    intro hfile
    obtain ⟨d', hd', hfile⟩ := locate_of_isFile hfile
    obtain rfl := Except.ok.inj (hd.symm.trans hd')
    rw [ht.isDirectoryAt_eq_false hfile] at h
    contradiction
  have hdirectory : t.isDirectory p := by
    unfold FileTree.isDirectory
    rw [hd]
    exact h
  have hunder : ∀ places,
      t.placesUnder p places = (places.filterMap (FileTree.under d)).map p.below := by
    intro places
    unfold FileTree.placesUnder
    rw [hd]
  unfold schemaFilesOf FileTree.filesUnder FileTree.directoriesUnder FileTree.linksUnder
  rw [if_neg hfile, if_pos hdirectory, hunder, hunder, hunder, ← List.map_append, ← List.map_append,
    ← List.filterMap_append, ← List.filterMap_append, List.mem_filter, and_comm]
  exact and_congr_right fun _ => FileTree.mem_map_below

/-- A path that names no directory stands for itself, if it names a file. -/
theorem mem_schemaFilesOf_file (hd : ¬t.isDirectory p) :
    q ∈ schemaFilesOf t p ↔ t.isFile p ∧ q = p := by
  unfold schemaFilesOf
  split
  · next hfile => rw [List.mem_singleton, and_iff_right hfile]
  · next hfile => exact iff_of_false List.not_mem_nil fun h => hfile h.1

/-- What a path stands for has no slashes in its names. -/
theorem parted_of_mem_schemaFilesOf (ht : t.WellFormed) (hp : p.Parted)
    (h : q ∈ schemaFilesOf t p) : q.Parted := by
  by_cases hd : t.isDirectory p
  · obtain ⟨d, hd, hdirectory⟩ := locate_of_isDirectory hd
    obtain ⟨-, rest, -, hplace, rfl⟩ := (mem_schemaFilesOf_directory ht hd hdirectory).mp h
    exact FilePath.parted_below hp fun name hname =>
      (ht.named _ hplace).2 name (List.mem_append_right _ hname)
  · obtain ⟨-, rfl⟩ := (mem_schemaFilesOf_file hd).mp h
    exact hp

/-- A path leads from a directory to something in it, and not through a link: to a directory, or to
what is marked as a schema file, which may be a link itself as long as it is no directory. -/
def Covers (t : FileTree) (p q : FilePath) : Prop :=
  ∃ d names, t.locate p = .ok d ∧ t.isDirectoryAt d ∧ names ≠ [] ∧
    (∀ name ∈ names, FilePath.isEntryName name) ∧ q = p.below names ∧
    (t.isDirectory q ∧ t.Direct d names ∨
      t.isDirectory q = false ∧ isSchemaName q ∧ t.Direct d names.dropLast)

/-- What is in a directory leads on from there, unless it goes through a link. -/
theorem locate_of_direct {names place : List String} (hd : t.locate p = .ok d)
    (hnames : ∀ name ∈ names, FilePath.isEntryName name) (hdirect : t.Direct d names)
    (h : t.locate (p.below names) = .ok place) : place = d ++ names := by
  have hdots : ".." ∉ names := fun hmem => FilePath.ne_dots_of_isEntryName (hnames _ hmem) rfl
  obtain ⟨m, hbelow⟩ := FileTree.locate_below hd
  rw [hbelow] at h
  exact (FileTree.followLinks_eq_ok hdots hdirect h).1

theorem direct_of_dropLast {names : List String} (hdirect : t.Direct d names.dropLast)
    (hlast : t.linkAt (d ++ names) = none) : t.Direct d names := by
  intro n hn
  rcases Nat.lt_or_ge n names.dropLast.length with h | h
  · rw [← hdirect n h, List.dropLast_eq_take, List.take_take, Nat.min_eq_left]
    simpa using h
  · rw [List.length_dropLast] at h
    rwa [List.take_of_length_le (by omega)]

/-- A directory stands for all that stands for what it covers. -/
theorem mem_schemaFilesOf_of_covers {x : FilePath} (ht : t.WellFormed) (hcovers : Covers t p q)
    (h : x ∈ schemaFilesOf t q) : x ∈ schemaFilesOf t p := by
  obtain ⟨d, names, hd, hdirectory, hne, hnames, rfl, hkind⟩ := hcovers
  rw [mem_schemaFilesOf_directory ht hd hdirectory]
  rcases hkind with ⟨hq, hdirect⟩ | ⟨hq, hname, hdirect⟩
  · obtain ⟨place, hplace, hinner⟩ := locate_of_isDirectory hq
    obtain rfl := locate_of_direct hd hnames hdirect hplace
    obtain ⟨hname, rest, -, hrest, rfl⟩ := (mem_schemaFilesOf_directory ht hplace hinner).mp h
    refine ⟨hname, names ++ rest, List.append_ne_nil_of_left_ne_nil hne rest, ?_, ?_⟩
    · rwa [← List.append_assoc]
    · exact congrArg (FilePath.mk p.root) (List.append_assoc ..)
  · obtain ⟨hfile, rfl⟩ := (mem_schemaFilesOf_file (by simp [hq])).mp h
    refine ⟨hname, names, hne, ?_, rfl⟩
    cases hlink : t.linkAt (d ++ names) with
    | some target => exact FileTree.mem_places_of_link (Option.isSome_of_eq_some hlink)
    | none =>
      obtain ⟨place, hplace, hfile⟩ := locate_of_isFile hfile
      obtain rfl := locate_of_direct hd hnames (direct_of_dropLast hdirect hlink) hplace
      exact FileTree.mem_places_of_file hfile

/-! ## Lists of paths -/

/-- What is resolved has no slashes in its names. -/
theorem parted_of_mem_resolveSchemaFiles (ht : t.WellFormed) (hpaths : ∀ p ∈ paths, p.Parted)
    (h : q ∈ resolveSchemaFiles t paths) : q.Parted := by
  obtain ⟨p, hp, hq⟩ := mem_resolveSchemaFiles_iff_exists.mp h
  exact parted_of_mem_schemaFilesOf ht (hpaths p hp) hq

/-- It does not matter in which order and how often paths are listed. -/
theorem resolveSchemaFiles_of_mem_iff {paths' : List FilePath} (ht : t.WellFormed)
    (hpaths : ∀ p ∈ paths, p.Parted) (h : ∀ p, p ∈ paths ↔ p ∈ paths') :
    resolveSchemaFiles t paths = resolveSchemaFiles t paths' := by
  refine resolveSchemaFiles_ext (fun q => parted_of_mem_resolveSchemaFiles ht hpaths) fun q => ?_
  simp only [mem_resolveSchemaFiles_iff_exists, h]

/-- What a listed directory covers may be listed besides it. -/
theorem resolveSchemaFiles_append_of_covered {inner : List FilePath} (ht : t.WellFormed)
    (hpaths : ∀ p ∈ paths, p.Parted) (hinner : ∀ q ∈ inner, ∃ p ∈ paths, Covers t p q) :
    resolveSchemaFiles t (inner ++ paths) = resolveSchemaFiles t paths := by
  refine (resolveSchemaFiles_ext (fun x => parted_of_mem_resolveSchemaFiles ht hpaths)
    fun x => ?_).symm
  simp only [mem_resolveSchemaFiles_iff_exists]
  constructor
  · rintro ⟨o, ho, hx⟩
    exact ⟨o, List.mem_append_right inner ho, hx⟩
  · rintro ⟨o, ho, hx⟩
    rcases List.mem_append.mp ho with ho | ho
    · obtain ⟨p, hp, hcovers⟩ := hinner o ho
      exact ⟨p, hp, mem_schemaFilesOf_of_covers ht hcovers hx⟩
    · exact ⟨o, ho, hx⟩

/-- A directory with a link to another, which holds a schema file. -/
def linkedDirectory : FileTree :=
  ⟨[(["e", "a.graphql"], FileTree.bytesOf "type Query \x7b a: Int \x7d")], [["d"], ["e"]],
    [(["d", "l"], .parse "../e")], []⟩

/-- A directory behind a link in a listed directory stands for files that the listed one does not.
-/
theorem linkedDirectory_counts : linkedDirectory.WellFormed ∧
    linkedDirectory.isDirectory (.parse "d") ∧ (FilePath.parse "d/l").Inside (.parse "d") ∧
    linkedDirectory.isDirectory (.parse "d/l") ∧
    resolveSchemaFiles linkedDirectory [.parse "d"] = [] ∧
    resolveSchemaFiles linkedDirectory [.parse "d/l", .parse "d"] = [.parse "d/l/a.graphql"] := by
  refine ⟨⟨by decide, by decide, by decide, by decide, by decide, by decide⟩, by decide,
    ⟨["l"], by decide, by decide, by decide⟩, by decide, by decide +kernel, by decide +kernel⟩

/-- What is resolved of paths together is what is resolved of some or of the others. -/
theorem mem_resolveSchemaFiles_append {others : List FilePath} :
    q ∈ resolveSchemaFiles t (paths ++ others) ↔
      q ∈ resolveSchemaFiles t paths ∨ q ∈ resolveSchemaFiles t others := by
  simp only [mem_resolveSchemaFiles_iff_exists, List.mem_append, or_and_right, exists_or]

end GraphPaths
