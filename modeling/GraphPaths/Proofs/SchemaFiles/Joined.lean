import GraphPaths.Proofs.Graphql.Boundary
import GraphPaths.Proofs.SchemaFiles

/-!
# Schema files one after the other

The text of some schema files is that of the first ones and that of the others
(`joinSchemaFiles_append`), and its tokens are those of the files, one file after the other
(`schema_files_stay_apart`): the line feed behind each file ends its last comment or token, and no
token of the next file depends on what is before it.
-/

namespace GraphPaths

open Graphql (Token LexesWhole tokens?)

variable {t : FileTree} {p : FilePath}

/-- A file that holds a document is read as its text. -/
theorem readSchemaText_of_parse {text : String} {d : Graphql.Document}
    (hfile : t.isDirectory p = false) (h : t.readText (t.absolute p) = .ok text)
    (hd : Graphql.parse text = .ok d) : readSchemaText t p = .ok text := by
  unfold readSchemaText
  rw [hfile, if_neg Bool.false_ne_true]
  exact bind_eq_ok.mpr ⟨text, mapError_eq_ok.mpr h, bind_eq_ok.mpr ⟨d, mapError_eq_ok.mpr hd, rfl⟩⟩

/-- Files are joined part by part. -/
theorem joinSchemaFiles_append (t : FileTree) (xs ys : List FilePath) :
    joinSchemaFiles t (xs ++ ys) = do
      let before ← joinSchemaFiles t xs
      let after ← joinSchemaFiles t ys
      return before ++ after := by
  unfold joinSchemaFiles
  rw [List.mapM_append]
  cases hxs : xs.mapM (readSchemaText t) with
  | error e => rfl
  | ok before =>
    cases hys : ys.mapM (readSchemaText t) with
    | error e => rfl
    | ok after =>
      have hjoin : String.join ((before ++ after).map (· ++ "\n")) =
          String.join (before.map (· ++ "\n")) ++ String.join (after.map (· ++ "\n")) := by
        rw [List.map_append, String.join_append]
      exact congrArg Except.ok hjoin

/-- Texts on lines of their own are read one after the other. -/
theorem lexesWhole_join : ∀ {contents : List (String × List Token)},
    (∀ c ∈ contents, LexesWhole c.1.toList c.2) →
      LexesWhole (String.join (contents.map fun c => c.1 ++ "\n")).toList
        (contents.flatMap Prod.snd)
  | [], _ => Graphql.lexes_nil
  | (text, ts) :: contents, h => by
    have hfirst := h (text, ts) List.mem_cons_self
    have hrest := lexesWhole_join fun c hc => h c (List.mem_cons_of_mem _ hc)
    have htext : (String.join (((text, ts) :: contents).map fun c => c.1 ++ "\n")).toList =
        text.toList ++ '\n' :: (String.join (contents.map fun c => c.1 ++ "\n")).toList := by
      simp
    unfold LexesWhole at hrest ⊢
    rw [htext, List.flatMap_cons, List.append_assoc]
    exact Graphql.lexes_append hfirst hrest

/-- A file, which goes by its path from the root, holds a document that is read into some tokens. -/
structure HoldsDocument (t : FileTree) (p : FilePath) (content : String × List Token) : Prop where
  file : t.isDirectory p = false
  text : t.readText (t.absolute p) = .ok content.1
  tokens : tokens? content.1 = some content.2
  document : ∃ d, Graphql.parse content.1 = .ok d

/-- Schema files stay apart.

The text of some files is that of the first ones and that of the others, wherever the list is parted,
and it cannot be had just if one of the two cannot. If each file holds a document, the text can be
had, and its tokens are those of the files, one file after the other. -/
theorem schema_files_stay_apart (t : FileTree) :
    (∀ xs ys, joinSchemaFiles t (xs ++ ys) = do
      let before ← joinSchemaFiles t xs
      let after ← joinSchemaFiles t ys
      return before ++ after) ∧
    ∀ files contents, List.Forall₂ (HoldsDocument t) files contents →
      ∃ text, joinSchemaFiles t files = .ok text ∧
        tokens? text = some (contents.flatMap Prod.snd) := by
  refine ⟨joinSchemaFiles_append t, fun files contents h => ?_⟩
  have hread : files.mapM (readSchemaText t) = .ok (contents.map Prod.fst) := by
    refine mapM_of_forall₂ (List.forall₂_map_right_iff.mpr (h.imp fun p content hp => ?_))
    obtain ⟨d, hd⟩ := hp.document
    exact readSchemaText_of_parse hp.file hp.text hd
  have htokens : ∀ c ∈ contents, LexesWhole c.1.toList c.2 := by
    intro c hc
    obtain ⟨p, -, hp⟩ := exists_of_forall₂ h hc
    exact Graphql.tokens?_eq_some.mp hp.tokens
  refine ⟨_, bind_eq_ok.mpr ⟨_, hread, rfl⟩, Graphql.tokens?_eq_some.mpr ?_⟩
  rw [List.map_map]
  exact lexesWhole_join htokens

/-- Files whose texts end in a comment and in an open line, and start with marks. -/
def openFiles : FileTree :=
  ⟨[(["a.graphql"], FileTree.bytesOf "scalar A # \"\"\""),
    (["b.graphql"], FileTree.bytesOf "\ufeff\"\" scalar B"),
    (["c.graphql"], FileTree.bytesOf "directive @c(x: Float = -1.5e2) on ENUM")], [], [], []⟩

/-- The files stay apart. -/
theorem openFiles_stay_apart : ∃ text contents,
    List.Forall₂ (HoldsDocument openFiles)
      [.parse "a.graphql", .parse "b.graphql", .parse "c.graphql"] contents ∧
    joinSchemaFiles openFiles [.parse "a.graphql", .parse "b.graphql", .parse "c.graphql"] =
      .ok text ∧
    tokens? text = some (contents.flatMap Prod.snd) := by
  have hfiles : List.Forall₂ (HoldsDocument openFiles)
      [.parse "a.graphql", .parse "b.graphql", .parse "c.graphql"]
      [("scalar A # \"\"\"", [.name "scalar", .name "A"]),
       ("\ufeff\"\" scalar B", [.string "", .name "scalar", .name "B"]),
       ("directive @c(x: Float = -1.5e2) on ENUM",
        [.name "directive", .punct .at, .name "c", .punct .parenL, .name "x", .punct .colon,
         .name "Float", .punct .equals, .float "-1.5e2", .punct .parenR, .name "on",
         .name "ENUM"])] := by
    have hparse : ∀ text, (Graphql.parse text).isOk → ∃ d, Graphql.parse text = .ok d := by
      intro text h
      cases hd : Graphql.parse text with
      | ok d => exact ⟨d, rfl⟩
      | error e => rw [hd] at h; exact nomatch h
    refine .cons ⟨?_, ?_, ?_, hparse _ ?_⟩ (.cons ⟨?_, ?_, ?_, hparse _ ?_⟩
      (.cons ⟨?_, ?_, ?_, hparse _ ?_⟩ .nil)) <;> decide +kernel
  obtain ⟨text, htext, htokens⟩ := (schema_files_stay_apart openFiles).2 _ _ hfiles
  exact ⟨text, _, hfiles, htext, htokens⟩

end GraphPaths
