import GraphPaths.FileTree
import GraphPaths.Proofs.Lookup
import GraphPaths.Proofs.Outcome

/-!
# Written files

What is written to a file is read from it (`read_write`), and every other file is as it was before
(`fileAt_write_of_ne`). Making directories changes no file (`files_makeDirectories`).
-/

namespace GraphPaths

namespace FileTree

variable {t t' : FileTree} {p : FilePath} {bytes : List Nat} {names : List String}

/-! ## Files by their names -/

theorem lookup_putFile (names : List String) (bytes : List Nat) :
    ∀ files : List (List String × List Nat), (putFile names bytes files).lookup names = some bytes
  | [] => List.lookup_cons_self
  | (k, b) :: rest => by
    unfold putFile
    by_cases hk : k = names
    · rw [if_pos (by simpa using hk), hk, List.lookup_cons_self]
    · rw [if_neg (by simpa using hk), lookup_cons_of_ne (Ne.symm hk)]
      exact lookup_putFile names bytes rest

theorem lookup_putFile_of_ne {other : List String} (h : other ≠ names) :
    ∀ files : List (List String × List Nat),
      (putFile names bytes files).lookup other = files.lookup other
  | [] => lookup_cons_of_ne h bytes []
  | (k, b) :: rest => by
    unfold putFile
    by_cases hk : k = names
    · rw [if_pos (by simpa using hk), lookup_cons_of_ne (hk ▸ h), lookup_cons_of_ne (hk ▸ h)]
    · rw [if_neg (by simpa using hk)]
      by_cases ho : other = k
      · rw [ho, List.lookup_cons_self, List.lookup_cons_self]
      · rw [lookup_cons_of_ne ho, lookup_cons_of_ne ho]
        exact lookup_putFile_of_ne h rest

/-! ## Writing -/

@[simp] theorem isDirectoryAt_withFiles (t : FileTree) (files : List (List String × List Nat))
    (names : List String) : isDirectoryAt { t with files := files } names = t.isDirectoryAt names :=
  rfl

@[simp] theorem linkAt_withFiles (t : FileTree) (files : List (List String × List Nat))
    (names : List String) : linkAt { t with files := files } names = t.linkAt names :=
  rfl

theorem walk_withFiles {files : List (List String × List Nat)}
    {jump jump' : List String → List String → Except FileError (List String)}
    (hjump : ∀ here rest, jump here rest = .ok names → jump' here rest = .ok names) :
    ∀ {here rest : List String}, t.walk jump here rest = .ok names →
      walk { t with files := files } jump' here rest = .ok names
  | here, [], h => h
  | here, name :: rest, h => by
    unfold walk at h ⊢
    rw [isDirectoryAt_withFiles, linkAt_withFiles]
    split at h
    · next hdirectory =>
      rw [if_pos hdirectory]
      split at h
      · next hback =>
        rw [if_pos hback]
        exact walk_withFiles hjump h
      · next hback =>
        rw [if_neg hback]
        cases hlink : t.linkAt (here ++ [name]) with
        | some target =>
          rw [hlink] at h
          exact hjump _ _ h
        | none =>
          rw [hlink] at h
          exact walk_withFiles hjump h
    · split at h <;> contradiction

/-- Where a path leads to depends on the directories and the links alone. -/
theorem followLinks_withFiles {files : List (List String × List Nat)} :
    ∀ (n : Nat) {here rest : List String}, t.followLinks n here rest = .ok names →
      followLinks { t with files := files } n here rest = .ok names
  | 0, _, _, h => walk_withFiles (fun _ _ hrest => nomatch (hrest : Except.error _ = Except.ok _)) h
  | n + 1, _, _, h => walk_withFiles (fun _ _ hrest => followLinks_withFiles n hrest) h

/-- A file is written where its path leads to, and no directory is there. -/
theorem write_eq_ok : t.write p bytes = .ok t' ↔
    ∃ names, t.locate p = .ok names ∧ t.isDirectoryAt names = false ∧
      { t with files := putFile names bytes t.files } = t' := by
  unfold write
  rw [bind_eq_ok]
  refine exists_congr fun names => and_congr_right fun _ => ?_
  cases t.isDirectoryAt names with
  | true => exact ⟨nofun, nofun⟩
  | false => exact ⟨fun h => ⟨rfl, Except.ok.inj h⟩, fun h => congrArg Except.ok h.2⟩

/-- A path leads to where it led before a file was written. -/
theorem locate_write {q : FilePath} (h : t.write p bytes = .ok t') (hq : t.locate q = .ok names) :
    t'.locate q = .ok names := by
  obtain ⟨written, -, -, rfl⟩ := write_eq_ok.mp h
  exact followLinks_withFiles linkLimit hq

/-- What is written to a file is read from it. -/
theorem read_write (h : t.write p bytes = .ok t') : t'.read p = .ok bytes := by
  obtain ⟨names, hnames, hdirectory, rfl⟩ := write_eq_ok.mp h
  refine bind_eq_ok.mpr ⟨names, followLinks_withFiles linkLimit hnames, ?_⟩
  have hfile : fileAt { t with files := putFile names bytes t.files } names = some bytes :=
    lookup_putFile names bytes t.files
  simp only [isDirectoryAt_withFiles, hdirectory, hfile]
  rfl

/-- A file that is not written to is as before. -/
theorem fileAt_write_of_ne (h : t.write p bytes = .ok t') (hp : t.locate p ≠ .ok names) :
    t'.fileAt names = t.fileAt names := by
  obtain ⟨written, hwritten, -, rfl⟩ := write_eq_ok.mp h
  refine lookup_putFile_of_ne ?_ t.files
  rintro rfl
  exact hp hwritten

/-! ## Making directories -/

theorem files_makeFrom : ∀ {rest : List String} {t t' : FileTree} {start done : List String}
    {made : Bool}, t.makeFrom start made done rest = .ok t' → t'.files = t.files
  | [], _, _, _, _, _, h => (Except.ok.inj h) ▸ rfl
  | name :: rest, t, t', start, done, made, h => by
    simp only [makeFrom] at h
    split at h
    · contradiction
    · split at h
      · exact files_makeFrom h
      · split at h
        · contradiction
        · split at h
          · contradiction
          · have hfiles := files_makeFrom h
            exact hfiles

/-- Making directories changes no file. -/
theorem files_makeDirectories (h : t.makeDirectories p = .ok t') : t'.files = t.files :=
  files_makeFrom h

end FileTree

end GraphPaths
