import HolderDaemon.PercentCodecs

/-!
The searches of the Drive client (`storage/google/DriveApi.cpp`): names and ids are put into a query
as literals in single quotes, and the query into a request target.
-/

set_option autoImplicit false

open Bytes

namespace HolderDaemon

namespace DriveQuery

open PercentCodecs
open GoogleDriveOAuth (percentDecode)
open QueryFields (fieldName fieldText fieldValue)

/-- `escape_drive_query_literal`: a backslash before every backslash and single quote. -/
def escapeDriveQueryLiteral (value : Bytes) : Bytes :=
  value.flatMap fun b => if b = 92 ∨ b = 39 then [92, b] else [b]

def kFilesPath : Bytes := ascii "/drive/v3/files"

def kFolderMimeType : Bytes := ascii "application/vnd.google-apps.folder"

/-- The query of `find_file_id`. -/
def findFileQuery (folderId name : Bytes) : Bytes :=
  ascii "name = '" ++ escapeDriveQueryLiteral name ++ ascii "' and '" ++
    escapeDriveQueryLiteral folderId ++ ascii "' in parents and trashed = false"

/-- The query of `find_or_create_folder`. -/
def findFolderQuery (name : Bytes) (parentId : Option Bytes) : Bytes :=
  ascii "name = '" ++ escapeDriveQueryLiteral name ++ ascii "' and mimeType = '" ++
    kFolderMimeType ++ ascii "' and trashed = false" ++
    match parentId with
    | some parent => ascii " and '" ++ escapeDriveQueryLiteral parent ++ ascii "' in parents"
    | none => ascii " and 'root' in parents"

/-- What stands after the question mark in the target of `find_file_id_in_scope`. -/
def searchParameters (query : Bytes) : Bytes :=
  ascii "q=" ++ urlEncode query ++ ascii "&fields=" ++ urlEncode (ascii "files(id)") ++
    ascii "&pageSize=1"

def searchTarget (query : Bytes) : Bytes := kFilesPath ++ ascii "?" ++ searchParameters query

/-! Literals as Drive reads them -/

inductive Token where
  | text (s : Bytes)
  | literal (s : Bytes)
  deriving DecidableEq

/-- Outside a literal, in one, or after a backslash in one. -/
inductive Mode where
  | outside | inside | escaped

/-- A quote begins and ends a literal, and a backslash takes the byte after it as it is; none where
a literal does not end. -/
def lex : Mode → Bytes → Bytes → Option (List Token)
  | .outside, seen, [] => some [.text seen]
  | .outside, seen, b :: s =>
    if b = 39 then (lex .inside [] s).map (.text seen :: ·) else lex .outside (seen ++ [b]) s
  | .inside, _, [] => none
  | .inside, seen, b :: s =>
    if b = 92 then lex .escaped seen s
    else if b = 39 then (lex .outside [] s).map (.literal seen :: ·)
    else lex .inside (seen ++ [b]) s
  | .escaped, _, [] => none
  | .escaped, seen, b :: s => lex .inside (seen ++ [b]) s

def tokens (query : Bytes) : Option (List Token) := lex .outside [] query

theorem lex_text {s : Bytes} (h : 39 ∉ s) (seen : Bytes) :
    lex .outside seen s = some [.text (seen ++ s)] := by
  induction s generalizing seen with
  | nil => rw [lex, List.append_nil]
  | cons b s ih =>
    rw [List.mem_cons, not_or] at h
    rw [lex, if_neg (Ne.symm h.1), ih h.2, List.append_assoc, List.singleton_append]

theorem lex_open {s : Bytes} (h : 39 ∉ s) (seen rest : Bytes) :
    lex .outside seen (s ++ 39 :: rest) =
      (lex .inside [] rest).map (.text (seen ++ s) :: ·) := by
  induction s generalizing seen with
  | nil => rw [List.nil_append, lex, if_pos rfl, List.append_nil]
  | cons b s ih =>
    rw [List.mem_cons, not_or] at h
    rw [List.cons_append, lex, if_neg (Ne.symm h.1), ih h.2, List.append_assoc,
      List.singleton_append]

/-- An escaped value is the literal, whatever is in it. -/
theorem lex_escape (value seen rest : Bytes) :
    lex .inside seen (escapeDriveQueryLiteral value ++ 39 :: rest) =
      (lex .outside [] rest).map (.literal (seen ++ value) :: ·) := by
  induction value generalizing seen with
  | nil =>
    rw [escapeDriveQueryLiteral, List.flatMap_nil, List.nil_append, lex, if_neg (by decide),
      if_pos rfl, List.append_nil]
  | cons b value ih =>
    have hcons : escapeDriveQueryLiteral (b :: value) =
        (if b = 92 ∨ b = 39 then [92, b] else [b]) ++ escapeDriveQueryLiteral value := rfl
    have hseen : seen ++ [b] ++ value = seen ++ b :: value := by
      rw [List.append_assoc, List.singleton_append]
    rw [hcons]
    split
    · rw [List.cons_append, List.cons_append, lex, if_pos rfl, List.singleton_append,
        List.cons_append, lex, ih, hseen]
    · rename_i hplain
      rw [not_or] at hplain
      rw [List.singleton_append, List.cons_append, lex, if_neg hplain.1, if_neg hplain.2, ih, hseen]

/-- The escaped name and parent are the only literals of a search, and they are read as what they
are; nothing of them stands outside. -/
theorem tokens_findFileQuery (folderId name : Bytes) :
    tokens (findFileQuery folderId name) =
      some [.text (ascii "name = "), .literal name, .text (ascii " and "), .literal folderId,
        .text (ascii " in parents and trashed = false")] := by
  have hquery : findFileQuery folderId name =
      ascii "name = " ++ 39 :: (escapeDriveQueryLiteral name ++ 39 :: (ascii " and " ++ 39 ::
        (escapeDriveQueryLiteral folderId ++ 39 :: ascii " in parents and trashed = false"))) := by
    have hname : ascii "name = '" = ascii "name = " ++ [39] := by decide
    have hand : ascii "' and '" = 39 :: (ascii " and " ++ [39]) := by decide
    have hend : ascii "' in parents and trashed = false" =
      39 :: ascii " in parents and trashed = false" := by decide
    rw [findFileQuery, hname, hand, hend]
    simp only [List.append_assoc, List.cons_append, List.nil_append]
  rw [tokens, hquery, lex_open (by decide), lex_escape, lex_open (by decide), lex_escape,
    lex_text (by decide)]
  rfl

/-- The literal of the parent. -/
def parentLiteral (parentId : Option Bytes) : Bytes := parentId.getD (ascii "root")

theorem escape_of_plain {value : Bytes} (h : ∀ b ∈ value, ¬ (b = 92 ∨ b = 39)) :
    escapeDriveQueryLiteral value = value := by
  induction value with
  | nil => rfl
  | cons b value ih =>
    rw [List.forall_mem_cons] at h
    have hcons : escapeDriveQueryLiteral (b :: value) =
        (if b = 92 ∨ b = 39 then [92, b] else [b]) ++ escapeDriveQueryLiteral value := rfl
    rw [hcons, if_neg h.1, ih h.2, List.singleton_append]

theorem findFolderQuery_eq (name : Bytes) (parentId : Option Bytes) :
    findFolderQuery name parentId =
      ascii "name = " ++ 39 :: (escapeDriveQueryLiteral name ++ 39 :: (ascii " and mimeType = " ++
        39 :: (escapeDriveQueryLiteral kFolderMimeType ++
          39 :: (ascii " and trashed = false and " ++
            39 :: (escapeDriveQueryLiteral (parentLiteral parentId) ++
              39 :: ascii " in parents"))))) := by
  have hname : ascii "name = '" = ascii "name = " ++ [39] := by decide
  have hmime : ascii "' and mimeType = '" = 39 :: (ascii " and mimeType = " ++ [39]) := by decide
  have htype : escapeDriveQueryLiteral kFolderMimeType = kFolderMimeType :=
    escape_of_plain (by decide +kernel)
  have htrashed : ascii "' and trashed = false" = 39 :: ascii " and trashed = false" := by decide
  have hjoin : ascii " and trashed = false and " =
    ascii " and trashed = false" ++ ascii " and " := by decide
  unfold findFolderQuery
  rw [hname, hmime, htype, htrashed, hjoin]
  cases parentId with
  | none =>
    have hroot : ascii " and 'root' in parents" =
        ascii " and " ++ 39 :: (escapeDriveQueryLiteral (ascii "root") ++
          39 :: ascii " in parents") := by decide
    dsimp only [parentLiteral, Option.getD_none]
    rw [hroot]
    simp only [List.append_assoc, List.cons_append, List.nil_append]
  | some parent =>
    have hand : ascii " and '" = ascii " and " ++ [39] := by decide
    have hend : ascii "' in parents" = 39 :: ascii " in parents" := by decide
    dsimp only [parentLiteral, Option.getD_some]
    rw [hand, hend]
    simp only [List.append_assoc, List.cons_append, List.nil_append]

theorem tokens_findFolderQuery (name : Bytes) (parentId : Option Bytes) :
    tokens (findFolderQuery name parentId) =
      some [.text (ascii "name = "), .literal name, .text (ascii " and mimeType = "),
        .literal kFolderMimeType, .text (ascii " and trashed = false and "),
        .literal (parentLiteral parentId), .text (ascii " in parents")] := by
  rw [tokens, findFolderQuery_eq, lex_open (by decide), lex_escape, lex_open (by decide),
    lex_escape, lex_open (by decide), lex_escape, lex_text (by decide)]
  rfl

/-! The request target -/

theorem searchParameters_query (query : Bytes) :
    percentDecode (fieldValue (searchParameters query) (ascii "q")) = query := by
  have hplain := plain_urlEncode query
  have hq : ascii "q=" = [113, 61] := by decide
  have hkey : ascii "q" = [113] := by decide
  have hfields : ascii "&fields=" = 38 :: ascii "fields=" := by decide
  have hfield : 38 ∉ ascii "q=" ++ urlEncode query :=
    List.not_mem_append (by decide) hplain.2
  have hname : fieldName (ascii "q=" ++ urlEncode query) = ascii "q" := by
    rw [hq, hkey]
    rfl
  have htext : fieldText (ascii "q=" ++ urlEncode query) = urlEncode query := by
    rw [hq]
    rfl
  rw [searchParameters, hfields, List.append_assoc, List.append_assoc, List.cons_append, fieldValue,
    QueryFields.splitOn_field hfield, List.find?_cons_of_pos (by simp [hname]), Option.elim_some,
    htext, urlEncode, percentDecode_percentEncode leavesLiterals_isSafe]

/-- Drive reads from the target the query that was built, and from the query the name and the
parent that it was built for, as the only literals that are not fixed. -/
theorem search_literals (folderId name : Bytes) (parentId : Option Bytes) :
    (∀ query, ∃ parameters, searchTarget query = kFilesPath ++ ascii "?" ++ parameters ∧
      percentDecode (fieldValue parameters (ascii "q")) = query) ∧
    tokens (findFileQuery folderId name) =
      some [.text (ascii "name = "), .literal name, .text (ascii " and "), .literal folderId,
        .text (ascii " in parents and trashed = false")] ∧
    tokens (findFolderQuery name parentId) =
      some [.text (ascii "name = "), .literal name, .text (ascii " and mimeType = "),
        .literal kFolderMimeType, .text (ascii " and trashed = false and "),
        .literal (parentLiteral parentId), .text (ascii " in parents")] :=
  ⟨fun query => ⟨_, rfl, searchParameters_query query⟩, tokens_findFileQuery folderId name,
    tokens_findFolderQuery name parentId⟩

end DriveQuery

end HolderDaemon
