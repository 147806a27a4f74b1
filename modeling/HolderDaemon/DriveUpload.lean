import HolderDaemon.Json
import HolderDaemon.Delimiters

/-!
The body of a Drive upload (`upload_file` of `storage/google/DriveApi.cpp`): the metadata and the
content of the file between boundaries that are the same in every upload.
-/

set_option autoImplicit false

open Bytes

namespace HolderDaemon

namespace DriveUpload

open Delimiters

def kMultipartBoundary : Bytes := ascii "holder-google-drive-upload-boundary"

def metadata (name folderId : Bytes) : Json :=
  .obj [(ascii "name", .str name), (ascii "parents", .arr [.str folderId])]

def crlf : Bytes := [13, 10]

def metadataHeader : Bytes :=
  crlf ++ ascii "Content-Type: application/json; charset=UTF-8" ++ crlf ++ crlf

def contentHeader : Bytes := crlf ++ ascii "Content-Type: application/octet-stream" ++ crlf ++ crlf

def multipartBody (metadataText fileBytes : Bytes) : Bytes :=
  ascii "--" ++ kMultipartBoundary ++ metadataHeader ++ metadataText ++
    crlf ++ ascii "--" ++ kMultipartBoundary ++ contentHeader ++ fileBytes ++
    crlf ++ ascii "--" ++ kMultipartBoundary ++ ascii "--" ++ crlf

/-- The body `upload_file` sends; encoding the metadata throws where a name is not UTF-8. -/
def uploadBody (name folderId fileBytes : Bytes) : Except Json.Error Bytes := do
  let metadataText ← (metadata name folderId).dump
  .ok (multipartBody metadataText fileBytes)

/-! The parts as the rules of MIME find them -/

/-- A boundary counts wherever it follows two dashes at the beginning of a line. -/
def delimiterOf (boundary : Bytes) : Bytes := crlf ++ ascii "--" ++ boundary

/-- The header of a part ends with an empty line. -/
def partBody (part : Bytes) : Bytes :=
  match cut (crlf ++ crlf) part with
  | none => []
  | some (_, body) => body

/-- Two more dashes after a boundary end the parts; none where these do not come. -/
def partsOf : List Bytes → Option (List Bytes)
  | [] => none
  | piece :: rest =>
    if ascii "--" <+: piece then some [] else (partsOf rest).map (partBody piece :: ·)

/-- What stands before the first boundary is no part. -/
def receive (boundary body : Bytes) : Option (List Bytes) :=
  partsOf (split (delimiterOf boundary) (crlf ++ body)).tail

/-! The delimiter of the uploads -/

def delimiter : Bytes := delimiterOf kMultipartBoundary

/-- The delimiter after its first byte. -/
def delimiterTail : Bytes := 10 :: (ascii "--" ++ kMultipartBoundary)

theorem return_notMem_tail : 13 ∉ delimiterTail := by decide

theorem delimiter_ne_nil : delimiter ≠ [] := List.cons_ne_nil 13 delimiterTail

theorem crlf_multipartBody (metadataText fileBytes : Bytes) :
    crlf ++ multipartBody metadataText fileBytes =
      delimiter ++ (metadataHeader ++ metadataText ++ delimiter ++
        (contentHeader ++ fileBytes ++ delimiter ++ (ascii "--" ++ crlf))) := by
  simp only [multipartBody, delimiter, delimiterOf, List.append_assoc]

theorem split_delimiter {part : Bytes} (h : ¬ delimiter <:+: part) (rest : Bytes) :
    split delimiter (part ++ delimiter ++ rest) = part :: split delimiter rest :=
  split_of_cut delimiter_ne_nil (cut_append_delimiter return_notMem_tail h rest)

theorem split_end : split delimiter (ascii "--" ++ crlf) = [ascii "--" ++ crlf] := by
  decide

/-- The delimiter begins with its only carriage return: it can stand across two texts only where
the second begins with one of its later bytes. -/
theorem delimiter_infix_append {first second : Bytes} (hfirst : ¬ delimiter <:+: first)
    (h : delimiter <:+: first ++ second) :
    delimiter <:+: second ∨ ∃ b, second.head? = some b ∧ b ∈ delimiterTail := by
  rcases List.infix_append_iff_ne_nil.mp h with h | h | ⟨before, after, hb, ha, heq, -, hbegins⟩
  · exact absurd h hfirst
  · exact .inl h
  · obtain ⟨b, after, rfl⟩ := List.exists_cons_of_ne_nil ha
    obtain ⟨a, before, rfl⟩ := List.exists_cons_of_ne_nil hb
    have htail : delimiterTail = before ++ b :: after := (List.cons.inj heq).2
    obtain ⟨rest, rfl⟩ := hbegins
    exact .inr ⟨b, rfl, htail ▸ List.mem_append_right before List.mem_cons_self⟩

/-! The two parts -/

theorem return_notMem_dumpString {s text : Bytes} (h : Json.dumpString s = .ok text) :
    13 ∉ text := by
  rw [Json.dumpString] at h
  split at h
  · cases h
    exact Json.control_notMem_quoted (by decide) s
  · cases h

/-- The encoded metadata has no line breaks in it and begins with its brace. -/
theorem metadata_dump {name folderId metadataText : Bytes}
    (h : (metadata name folderId).dump = .ok metadataText) :
    13 ∉ metadataText ∧ metadataText.head? = some 123 := by
  have hnameKey : Json.dumpString (ascii "name") = .ok (ascii "\"name\"") := by decide
  have hparentsKey : Json.dumpString (ascii "parents") = .ok (ascii "\"parents\"") := by decide
  rw [metadata, Json.dump] at h
  simp only [Json.dumpFields, Json.dump, Json.dumpItems, hnameKey, hparentsKey] at h
  cases hname : Json.dumpString name with
  | error e =>
    rw [hname] at h
    cases h
  | ok nameText =>
    cases hfolder : Json.dumpString folderId with
    | error e =>
      rw [hname, hfolder] at h
      cases h
    | ok folderText =>
      rw [hname, hfolder] at h
      cases h
      refine ⟨?_, rfl⟩
      have hnameText := return_notMem_dumpString hname
      have hfolderText := return_notMem_dumpString hfolder
      simp only [Json.separated, List.mem_append, not_or]
      exact ⟨⟨by decide, ⟨⟨⟨by decide, by decide⟩, hnameText⟩, by decide⟩, ⟨by decide, by decide⟩,
        ⟨by decide, hfolderText⟩, by decide⟩, by decide⟩

theorem metadata_plain {metadataText : Bytes} (hreturn : 13 ∉ metadataText)
    (hhead : metadataText.head? = some 123) :
    ¬ delimiter <:+: metadataHeader ++ metadataText := by
  intro h
  have hheader : ¬ delimiter <:+: metadataHeader := by decide
  rcases delimiter_infix_append hheader h with hheld | ⟨b, hb, hmem⟩
  · exact hreturn (hheld.subset List.mem_cons_self)
  · rw [hhead] at hb
    cases hb
    exact absurd hmem (by decide)

/-- In the part of the content the delimiter can begin with the line break before the content, and
no earlier. -/
theorem delimiter_infix_content (fileBytes : Bytes) :
    delimiter <:+: contentHeader ++ fileBytes ↔ delimiter <:+: crlf ++ fileBytes := by
  have hsplit : contentHeader ++ fileBytes =
      crlf ++ ascii "Content-Type: application/octet-stream" ++ crlf ++ (crlf ++ fileBytes) := by
    simp only [contentHeader, List.append_assoc]
  have hheader : ¬ delimiter <:+:
    crlf ++ ascii "Content-Type: application/octet-stream" ++ crlf := by decide
  rw [hsplit]
  refine ⟨fun h => ?_, fun h => h.trans (List.suffix_append _ _).isInfix⟩
  rcases delimiter_infix_append hheader h with hheld | ⟨b, hb, hmem⟩
  · exact hheld
  · cases hb
    exact absurd hmem return_notMem_tail

theorem partBody_metadata (metadataText : Bytes) :
    partBody (metadataHeader ++ metadataText) = metadataText := by
  have hheader : cut (crlf ++ crlf) metadataHeader =
    some (crlf ++ ascii "Content-Type: application/json; charset=UTF-8", []) := by decide
  rw [partBody, cut_append hheader]
  rfl

theorem cut_contentHeader (fileBytes : Bytes) :
    cut (crlf ++ crlf) (contentHeader ++ fileBytes) =
      some (crlf ++ ascii "Content-Type: application/octet-stream", fileBytes) := by
  have hheader : cut (crlf ++ crlf) contentHeader =
    some (crlf ++ ascii "Content-Type: application/octet-stream", []) := by decide
  rw [cut_append hheader, List.nil_append]

/-- The parts of an upload are the metadata and those of what follows it. -/
theorem receive_multipartBody {metadataText : Bytes} (hreturn : 13 ∉ metadataText)
    (hhead : metadataText.head? = some 123) (fileBytes : Bytes) :
    receive kMultipartBoundary (multipartBody metadataText fileBytes) =
      (partsOf (split delimiter (contentHeader ++ fileBytes ++ delimiter ++
        (ascii "--" ++ crlf)))).map (metadataText :: ·) := by
  have hbegin : ¬ delimiter <:+: ([] : Bytes) := by decide
  have hpart : ¬ ascii "--" <+: metadataHeader ++ metadataText := by
    rintro ⟨rest, hrest⟩
    cases hrest
  rw [receive, crlf_multipartBody]
  change partsOf (split delimiter ([] ++ delimiter ++ _)).tail = _
  rw [split_delimiter hbegin, split_delimiter (metadata_plain hreturn hhead), List.tail_cons,
    partsOf, if_neg hpart, partBody_metadata]

theorem partBody_content (fileBytes : Bytes) :
    partBody (contentHeader ++ fileBytes) = fileBytes := by
  rw [partBody, cut_contentHeader]

/-- A piece of the content that ends at the delimiter is not the content. -/
theorem partBody_ne {fileBytes before after : Bytes}
    (h : cut delimiter (contentHeader ++ fileBytes) = some (before, after)) :
    partBody before ≠ fileBytes := by
  have hwhole := cut_eq_some h
  intro hbody
  rw [partBody] at hbody
  cases hcut : cut (crlf ++ crlf) before with
  | none =>
    rw [hcut] at hbody
    subst hbody
    have hheader : cut delimiter (contentHeader ++ []) = none := by decide
    rw [hheader] at h
    cases h
  | some pair =>
    obtain ⟨header, body⟩ := pair
    rw [hcut] at hbody
    have hlonger := cut_append hcut (delimiter ++ after)
    rw [← List.append_assoc, ← hwhole, cut_contentHeader] at hlonger
    have hlength := congrArg List.length (Prod.mk.inj (Option.some.inj hlonger)).2
    have hdelimiter : 0 < delimiter.length := List.length_pos_iff.mpr delimiter_ne_nil
    rw [← hbody] at hlength
    simp only [List.length_append] at hlength
    omega

/-- An upload comes apart into its metadata and its content exactly where the content neither begins
with the boundary and its two dashes nor has these at the beginning of a line. -/
theorem framing_iff {name folderId metadataText body : Bytes} (fileBytes : Bytes)
    (hdump : (metadata name folderId).dump = .ok metadataText)
    (hbody : uploadBody name folderId fileBytes = .ok body) :
    receive kMultipartBoundary body = some [metadataText, fileBytes] ↔
      ¬ delimiterOf kMultipartBoundary <:+: crlf ++ fileBytes := by
  obtain ⟨hreturn, hhead⟩ := metadata_dump hdump
  rw [uploadBody, hdump] at hbody
  cases hbody
  rw [receive_multipartBody hreturn hhead, ← delimiter, ← delimiter_infix_content]
  cases hcut : cut delimiter (contentHeader ++ fileBytes) with
  | none =>
    have hplain := (cut_eq_none_iff delimiter_ne_nil _).mp hcut
    have hpart : ¬ ascii "--" <+: contentHeader ++ fileBytes := by
      rintro ⟨rest, hrest⟩
      cases hrest
    have hend : ascii "--" <+: ascii "--" ++ crlf := List.prefix_append _ _
    rw [split_delimiter hplain, split_end, partsOf, if_neg hpart, partsOf, if_pos hend,
      partBody_content]
    exact iff_of_true rfl hplain
  | some pair =>
    obtain ⟨before, after⟩ := pair
    have hholds : delimiter <:+: contentHeader ++ fileBytes :=
      ⟨before, after, (cut_eq_some hcut).symm⟩
    rw [List.append_assoc, split_of_cut delimiter_ne_nil (cut_append hcut _), partsOf]
    refine iff_of_false (fun h => ?_) fun h => h hholds
    obtain ⟨bodies, hbodies, hpair⟩ := Option.map_eq_some_iff.mp h
    split at hbodies
    · cases hbodies
      cases hpair
    · obtain ⟨others, -, hothers⟩ := Option.map_eq_some_iff.mp hbodies
      subst hothers
      exact partBody_ne hcut (List.cons.inj (List.cons.inj hpair).2).1

def noteBody : Bytes :=
  multipartBody (ascii "\x7b\"name\":\"n\",\"parents\":[\"f\"]\x7d") (ascii "text")

theorem framing_note :
    receive kMultipartBoundary noteBody =
        some [ascii "\x7b\"name\":\"n\",\"parents\":[\"f\"]\x7d", ascii "text"] ↔
      ¬ delimiterOf kMultipartBoundary <:+: crlf ++ ascii "text" :=
  @framing_iff (ascii "n") (ascii "f") _ _ (ascii "text") (by decide)
    (by decide +kernel)

/-- A file that is nothing but the boundary behind two dashes. -/
def boundaryFile : Bytes := ascii "--" ++ kMultipartBoundary

theorem boundary_file_takes_framing :
    ¬ ∀ name folderId fileBytes metadataText body : Bytes,
      (metadata name folderId).dump = .ok metadataText →
      uploadBody name folderId fileBytes = .ok body →
      receive kMultipartBoundary body = some [metadataText, fileBytes] := by
  intro h
  have hparts := h (ascii "n") (ascii "f") boundaryFile
    (ascii "\x7b\"name\":\"n\",\"parents\":[\"f\"]\x7d") _ (by decide) rfl
  exact absurd hparts (by decide +kernel)

end DriveUpload

end HolderDaemon
