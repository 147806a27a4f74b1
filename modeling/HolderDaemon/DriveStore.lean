import HolderDaemon.DriveQuery
import HolderDaemon.DriveUpload
import HolderDaemon.Exchanges
import HolderDaemon.ObjectStore

/-!
Google Drive as a store of objects (`storage/google/GoogleDriveProvider.cpp`,
`storage/google/DriveApi.cpp`). The service behind the requests is a parameter, with what its
documentation says of the requests that are made.
-/

set_option autoImplicit false

open Bytes

namespace HolderDaemon

namespace DriveStore

open DriveQuery DriveUpload Exchanges ObjectStore
open GoogleDriveOAuth (percentDecode)
open QueryFields (fieldValue)

inductive StorageErrorCode where
  | authentication
  | permission
  | integrity
  | transient
  | unavailable
  deriving DecidableEq

inductive Failure where
  | storage (code : StorageErrorCode) (message : Bytes)
  | dump (e : Json.Error)

def statusToErrorCode (status : Nat) : StorageErrorCode :=
  if status = 401 then .authentication
  else if status = 403 then .permission
  else if status = 404 then .integrity
  else if status = 429 ∨ 500 ≤ status then .transient
  else .unavailable

inductive Verb where
  | get
  | post
  | patch
  | delete
  deriving DecidableEq

structure Request where
  verb : Verb
  target : Bytes
  accessToken : Bytes
  body : Bytes := []

/-- `json` is the body as it is parsed, `content` the body as it is stored. -/
structure Response where
  status : Nat
  json : Json := .null
  content : Bytes := []

def kUploadPath : Bytes := ascii "/upload/drive/v3/files"

def uploadTarget : Bytes := kUploadPath ++ ascii "?uploadType=multipart"

def replaceTarget (fileId : Bytes) : Bytes :=
  kUploadPath ++ ascii "/" ++ fileId ++ ascii "?uploadType=media"

def downloadTarget (fileId : Bytes) : Bytes :=
  kFilesPath ++ ascii "/" ++ fileId ++ ascii "?alt=media"

def deleteTarget (fileId : Bytes) : Bytes := kFilesPath ++ ascii "/" ++ fileId

def succeeds (status : Nat) : Bool := 200 ≤ status && status < 300

def checkOk (status : Nat) (operation : String) : Except Failure Unit :=
  if succeeds status then .ok ()
  else
    .error (.storage (statusToErrorCode status)
      (ascii "Drive " ++ ascii operation ++ ascii " failed: HTTP " ++ decimal status))

def unavailable (message : String) (what : Bytes) : Failure :=
  .storage .unavailable (ascii message ++ what)

def requiredFileId (body : Json) : Except Bytes Bytes := do
  let id ← (← body.atKey "id").getString
  if id = [] then .error (ascii "file id is empty") else return id

/-- The first of the files of a search. -/
def firstFileId (body : Json) : Except Bytes (Option Bytes) := do
  match ← body.atKey "files" with
  | .arr [] => return none
  | .arr (file :: _) => some <$> requiredFileId file
  | _ => .error (ascii "files must be an array")

section Api
variable {σ : Type} (handle : σ → Request → Response × σ)

def exchange (w : World σ Bytes) (r : Request) : Except Bytes Response × World σ Bytes :=
  Exchanges.exchange (fun status => { status }) handle w r

def jsonRequest (w : World σ Bytes) (r : Request) : Except Failure Response × World σ Bytes :=
  match exchange handle w r with
  | (.error what, w) => (.error (unavailable "Drive request failed: " what), w)
  | (.ok response, w) => (.ok response, w)

def findFileIdInScope (w : World σ Bytes) (accessToken query : Bytes) :
    Except Failure (Option Bytes) × World σ Bytes :=
  match jsonRequest handle w ⟨.get, searchTarget query, accessToken, []⟩ with
  | (.error e, w) => (.error e, w)
  | (.ok response, w) =>
    match checkOk response.status "search" with
    | .error e => (.error e, w)
    | .ok () =>
      match firstFileId response.json with
      | .error what =>
        (.error (unavailable "Drive search response could not be parsed: " what), w)
      | .ok id => (.ok id, w)

def findFileId (w : World σ Bytes) (accessToken folderId name : Bytes) :
    Except Failure (Option Bytes) × World σ Bytes :=
  findFileIdInScope handle w accessToken (findFileQuery folderId name)

def notStaged : Failure :=
  .storage .unavailable (ascii "could not open staged file for Drive upload")

/-- `staged` is the file's content, none where it cannot be opened. -/
def uploadFile (w : World σ Bytes) (accessToken folderId name : Bytes) (staged : Option Bytes) :
    Except Failure Bytes × World σ Bytes :=
  match staged with
  | none => (.error notStaged, w)
  | some fileBytes =>
    match uploadBody name folderId fileBytes with
    | .error e => (.error (.dump e), w)
    | .ok body =>
      match exchange handle w ⟨.post, uploadTarget, accessToken, body⟩ with
      | (.error what, w) => (.error (unavailable "Drive upload failed: " what), w)
      | (.ok response, w) =>
        match checkOk response.status "upload" with
        | .error e => (.error e, w)
        | .ok () =>
          match requiredFileId response.json with
          | .error what => (.error (unavailable "Drive upload failed: " what), w)
          | .ok id => (.ok id, w)

def replaceFileContent (w : World σ Bytes) (accessToken fileId : Bytes) (staged : Option Bytes) :
    Except Failure Unit × World σ Bytes :=
  match staged with
  | none => (.error notStaged, w)
  | some fileBytes =>
    match exchange handle w ⟨.patch, replaceTarget fileId, accessToken, fileBytes⟩ with
    | (.error what, w) => (.error (unavailable "Drive update failed: " what), w)
    | (.ok response, w) => (checkOk response.status "update", w)

/-- The destination after the download stands beside the result; `unopened` says why it could not
be opened. -/
def downloadFile (w : World σ Bytes) (accessToken fileId : Bytes) (unopened : Option Bytes) :
    (Except Failure Unit × Option Bytes) × World σ Bytes :=
  match unopened with
  | some what =>
    ((.error (unavailable "Drive download failed: failed to open Drive download destination: "
      what), none), w)
  | none =>
    match exchange handle w ⟨.get, downloadTarget fileId, accessToken, []⟩ with
    | (.error what, w) => ((.error (unavailable "Drive download failed: " what), none), w)
    | (.ok response, w) =>
      if succeeds response.status then ((.ok (), some response.content), w)
      else
        ((.error (.storage (statusToErrorCode response.status)
          (ascii "Drive download failed: HTTP " ++ decimal response.status)), none), w)

def deleteFile (w : World σ Bytes) (accessToken fileId : Bytes) :
    Except Failure Unit × World σ Bytes :=
  match jsonRequest handle w ⟨.delete, deleteTarget fileId, accessToken, []⟩ with
  | (.error e, w) => (.error e, w)
  | (.ok response, w) =>
    if response.status = 404 then (.ok (), w) else (checkOk response.status "delete", w)

/-- What the environment does during an operation; `token` is what `refresh_access_token`
answers. -/
structure Turn where
  token : Except Failure Bytes
  faults : List (Fault Bytes) := []
  readable : Bool := true
  unopened : Option Bytes := none

/-- `GoogleDriveProvider::put`. -/
def put (folderId : Bytes) (s : σ) (objectKey object : Bytes) (turn : Turn) :
    Except Failure Unit × σ :=
  match turn.token with
  | .error e => (.error e, s)
  | .ok token =>
    let staged := if turn.readable then some object else none
    match findFileId handle ⟨s, turn.faults⟩ token folderId objectKey with
    | (.error e, w) => (.error e, w.service)
    | (.ok (some existingFileId), w) =>
      let (result, w) := replaceFileContent handle w token existingFileId staged
      (result, w.service)
    | (.ok none, w) =>
      let (result, w) := uploadFile handle w token folderId objectKey staged
      (result.map fun _ => (), w.service)

/-- `GoogleDriveProvider::get`, into a destination. -/
def get (folderId : Bytes) (s : σ) (objectKey : Bytes) (destination : Option Bytes) (turn : Turn) :
    (Except Failure Unit × Option Bytes) × σ :=
  match turn.token with
  | .error e => ((.error e, destination), s)
  | .ok token =>
    match findFileId handle ⟨s, turn.faults⟩ token folderId objectKey with
    | (.error e, w) => ((.error e, destination), w.service)
    | (.ok none, w) =>
      ((.error (.storage .integrity (ascii "no Drive file named " ++ objectKey)), destination),
        w.service)
    | (.ok (some fileId), w) =>
      let (result, w) := downloadFile handle w token fileId turn.unopened
      (result, w.service)

/-- `GoogleDriveProvider::exists`. -/
def holds (folderId : Bytes) (s : σ) (objectKey : Bytes) (turn : Turn) : Except Failure Bool × σ :=
  match turn.token with
  | .error e => (.error e, s)
  | .ok token =>
    let (result, w) := findFileId handle ⟨s, turn.faults⟩ token folderId objectKey
    (result.map Option.isSome, w.service)

/-- `GoogleDriveProvider::remove`. -/
def remove (folderId : Bytes) (s : σ) (objectKey : Bytes) (turn : Turn) :
    Except Failure Unit × σ :=
  match turn.token with
  | .error e => (.error e, s)
  | .ok token =>
    match findFileId handle ⟨s, turn.faults⟩ token folderId objectKey with
    | (.error e, w) => (.error e, w.service)
    | (.ok none, w) => (.ok (), w.service)
    | (.ok (some fileId), w) =>
      let (result, w) := deleteFile handle w token fileId
      (result, w.service)

/-- The operations of the provider; a `get` is told by what it leaves in a new file. -/
def exec (folderId : Bytes) (s : σ) (op : Op Bytes Bytes) (turn : Turn) : Result Bytes × σ :=
  match op with
  | .put objectKey object =>
    match put handle folderId s objectKey object turn with
    | (.ok (), t) => (.done, t)
    | (.error _, t) => (.failed, t)
  | .get objectKey =>
    match get handle folderId s objectKey none turn with
    | ((.ok (), file), t) => (.object (file.getD []), t)
    | ((.error _, _), t) => (.failed, t)
  | .holds objectKey =>
    match holds handle folderId s objectKey turn with
    | (.ok answer, t) => (.holds answer, t)
    | (.error _, t) => (.failed, t)
  | .remove objectKey =>
    match remove handle folderId s objectKey turn with
    | (.ok (), t) => (.done, t)
    | (.error _, t) => (.failed, t)

end Api

/-! The service -/

structure File where
  id : Bytes
  name : Bytes
  parent : Bytes
  content : Bytes
  trashed : Bool := false
  deriving DecidableEq

def File.isIn (folderId : Bytes) (f : File) : Bool := f.parent = folderId && !f.trashed

def File.matches (folderId name : Bytes) (f : File) : Bool := f.name = name && f.isIn folderId

def searchJson (found : Option File) : Json :=
  .object [(ascii "files", .arr (found.toList.map fun f => .object [(ascii "id", .str f.id)]))]

def idJson (id : Bytes) : Json := .object [(ascii "id", .str id)]

/-- What the code relies on: a search answers with a file that matches, if there is one, an upload
of metadata and content makes one new file, and the other requests are about the file they name.
`parse` reads the metadata. -/
structure Behaves {σ : Type} (parse : Bytes → Option Json) (files : σ → List File)
    (handle : σ → Request → Response × σ) : Prop where
  search : ∀ s token parameters folderId name,
    tokens (percentDecode (fieldValue parameters (ascii "q"))) =
      some [.text (ascii "name = "), .literal name, .text (ascii " and "), .literal folderId,
        .text (ascii " in parents and trashed = false")] →
    ∃ found t, handle s ⟨.get, kFilesPath ++ ascii "?" ++ parameters, token, []⟩ =
        (⟨200, searchJson found, []⟩, t) ∧ files t = files s ∧
      match found with
      | some f => f ∈ files s ∧ f.matches folderId name = true
      | none => ∀ f ∈ files s, f.matches folderId name = false
  create : ∀ s token body name folderId metadataText content,
    receive kMultipartBoundary body = some [metadataText, content] →
    parse metadataText = some (metadata name folderId) →
    ∃ id t, handle s ⟨.post, uploadTarget, token, body⟩ = (⟨200, idJson id, []⟩, t) ∧
      id ≠ [] ∧ id ∉ (files s).map File.id ∧
      files t = files s ++ [⟨id, name, folderId, content, false⟩]
  replace : ∀ s token f content, f ∈ files s →
    ∃ json t, handle s ⟨.patch, replaceTarget f.id, token, content⟩ = (⟨200, json, []⟩, t) ∧
      files t = (files s).map fun g => if g.id = f.id then { g with content } else g
  download : ∀ s token f, f ∈ files s → ((files s).map File.id).Nodup →
    ∃ t, handle s ⟨.get, downloadTarget f.id, token, []⟩ = (⟨200, .null, f.content⟩, t) ∧
      files t = files s
  delete : ∀ s token f, f ∈ files s →
    ∃ t, handle s ⟨.delete, deleteTarget f.id, token, []⟩ = (⟨204, .null, []⟩, t) ∧
      files t = (files s).filter fun g => g.id ≠ f.id

/-! The files of a folder as a store -/

/-- What the folder holds under each name. -/
def view (folderId : Bytes) (files : List File) : Store Bytes Bytes :=
  fun name => (files.find? (File.matches folderId name)).map File.content

/-- The files that are not the provider's. -/
def others (folderId : Bytes) (files : List File) : List File :=
  files.filter fun f => !f.isIn folderId

/-- No two files of the folder have one name. -/
structure Sound (folderId : Bytes) (files : List File) : Prop where
  ids : (files.map File.id).Nodup
  named : ∀ f ∈ files, f.id ≠ []
  names : ∀ f ∈ files, ∀ g ∈ files, f.isIn folderId = true → g.isIn folderId = true →
    f.name = g.name → f = g

section Files
variable {folderId name : Bytes} {files : List File} {f : File}

theorem matches_iff : f.matches folderId name = true ↔ f.name = name ∧ f.isIn folderId = true := by
  simp [File.matches]

theorem Sound.find?_eq (h : Sound folderId files) (hmem : f ∈ files)
    (hmatches : f.matches folderId name = true) :
    files.find? (File.matches folderId name) = some f := by
  cases hfind : files.find? (File.matches folderId name) with
  | none =>
    have hnot := List.find?_eq_none.mp hfind f hmem
    exact absurd hmatches hnot
  | some g =>
    have hg := List.find?_some hfind
    obtain ⟨hname, hin⟩ := matches_iff.mp hmatches
    obtain ⟨hname', hin'⟩ := matches_iff.mp hg
    rw [h.names g (List.mem_of_find?_eq_some hfind) f hmem hin' hin (hname'.trans hname.symm)]

theorem Sound.view_eq (h : Sound folderId files) (hmem : f ∈ files)
    (hmatches : f.matches folderId name = true) : view folderId files name = some f.content := by
  rw [view, h.find?_eq hmem hmatches]
  rfl

theorem view_eq_none (h : ∀ g ∈ files, g.matches folderId name = false) :
    view folderId files name = none := by
  rw [view, List.find?_eq_none.mpr fun g hg => by simp [h g hg]]
  rfl

theorem Sound.id_ne (h : Sound folderId files) {g : File} (hf : f ∈ files) (hg : g ∈ files)
    (hne : g ≠ f) : g.id ≠ f.id := fun hid =>
  hne (List.inj_on_of_nodup_map h.ids hg hf hid)

theorem Sound.create (h : Sound folderId files) {id content : Bytes} (hid : id ≠ [])
    (hnew : id ∉ files.map File.id) (hnone : ∀ g ∈ files, g.matches folderId name = false) :
    Sound folderId (files ++ [⟨id, name, folderId, content, false⟩]) where
  ids := by
    rw [List.map_append, List.nodup_append]
    refine ⟨h.ids, List.nodup_singleton _, ?_⟩
    intro a ha b hb hab
    rw [List.map_singleton, List.mem_singleton] at hb
    have hsame : a = id := hab.trans hb
    exact hnew (hsame ▸ ha)
  named g hg := by
    rcases List.mem_append.mp hg with hg | hg
    · exact h.named g hg
    · rw [List.mem_singleton.mp hg]
      exact hid
  names g hg k hk hgin hkin hname := by
    have hfree : ∀ a ∈ files, a.isIn folderId = true → a.name ≠ name := by
      intro a ha hain haname
      exact absurd (hnone a ha) (by simp [matches_iff.mpr ⟨haname, hain⟩])
    rcases List.mem_append.mp hg with hg | hg <;> rcases List.mem_append.mp hk with hk | hk
    · exact h.names g hg k hk hgin hkin hname
    · rw [List.mem_singleton.mp hk] at hname
      exact absurd hname (hfree g hg hgin)
    · rw [List.mem_singleton.mp hg] at hname
      exact absurd hname.symm (hfree k hk hkin)
    · rw [List.mem_singleton.mp hg, List.mem_singleton.mp hk]

theorem view_create {id content : Bytes} (hnone : ∀ g ∈ files, g.matches folderId name = false) :
    view folderId (files ++ [⟨id, name, folderId, content, false⟩]) =
      Function.update (view folderId files) name (some content) := by
  funext k
  rw [view, List.find?_append]
  by_cases hk : k = name
  · subst hk
    rw [Function.update_self, List.find?_eq_none.mpr fun g hg => by simp [hnone g hg]]
    simp [File.matches, File.isIn]
  · rw [Function.update_of_ne hk]
    have hnot : ¬ name = k := fun h => hk h.symm
    simp [view, File.matches, hnot]

theorem others_create (id content : Bytes) :
    others folderId (files ++ [⟨id, name, folderId, content, false⟩]) = others folderId files := by
  simp [others, File.isIn]

/-- The files after the content of one is replaced. -/
def replaced (files : List File) (id content : Bytes) : List File :=
  files.map fun g => if g.id = id then { g with content } else g

theorem isIn_replaced (g : File) (id content : Bytes) :
    (if g.id = id then { g with content } else g).isIn folderId = g.isIn folderId := by
  split <;> rfl

theorem name_replaced (g : File) (id content : Bytes) :
    (if g.id = id then { g with content } else g).name = g.name := by
  split <;> rfl

theorem id_replaced (g : File) (id content : Bytes) :
    (if g.id = id then { g with content } else g).id = g.id := by
  split <;> rfl

theorem Sound.replace (h : Sound folderId files) (id content : Bytes) :
    Sound folderId (replaced files id content) where
  ids := by
    rw [replaced, List.map_map]
    refine (List.map_congr_left fun g _ => ?_).symm ▸ h.ids
    exact id_replaced g id content
  named g hg := by
    obtain ⟨g₀, hg₀, rfl⟩ := List.mem_map.mp hg
    rw [id_replaced]
    exact h.named g₀ hg₀
  names g hg k hk hgin hkin hname := by
    obtain ⟨g₀, hg₀, rfl⟩ := List.mem_map.mp hg
    obtain ⟨k₀, hk₀, rfl⟩ := List.mem_map.mp hk
    rw [isIn_replaced] at hgin hkin
    rw [name_replaced, name_replaced] at hname
    rw [h.names g₀ hg₀ k₀ hk₀ hgin hkin hname]

theorem Sound.view_replace (h : Sound folderId files) (hmem : f ∈ files)
    (hmatches : f.matches folderId name = true) (content : Bytes) :
    view folderId (replaced files f.id content) =
      Function.update (view folderId files) name (some content) := by
  funext k
  have hfind : (replaced files f.id content).find? (File.matches folderId k) =
      (files.find? (File.matches folderId k)).map
        fun g => if g.id = f.id then { g with content } else g := by
    rw [replaced, List.find?_map]
    congr 2
    funext g
    simp only [Function.comp_apply, File.matches, isIn_replaced, name_replaced]
  rw [view, hfind]
  by_cases hk : k = name
  · subst hk
    rw [Function.update_self, h.find?_eq hmem hmatches]
    simp
  · rw [Function.update_of_ne hk, view, Option.map_map]
    refine Option.map_congr fun g hg => ?_
    have hgmatches := matches_iff.mp (List.find?_some hg)
    have hne : g ≠ f := fun heq => hk (hgmatches.1.symm.trans
      ((congrArg File.name heq).trans (matches_iff.mp hmatches).1))
    rw [Function.comp_apply, if_neg (h.id_ne hmem (List.mem_of_find?_eq_some hg) hne)]

theorem Sound.others_replace (h : Sound folderId files) (hmem : f ∈ files)
    (hin : f.isIn folderId = true) (content : Bytes) :
    others folderId (replaced files f.id content) = others folderId files := by
  rw [others, replaced, List.filter_map, others]
  have hsame : (fun g : File => !g.isIn folderId) ∘
      (fun g => if g.id = f.id then { g with content } else g) =
      fun g => !g.isIn folderId := by
    funext g
    rw [Function.comp_apply, isIn_replaced]
  rw [hsame]
  refine (List.map_congr_left fun g hg => ?_).trans (List.map_id _)
  obtain ⟨hg, hout⟩ := List.mem_filter.mp hg
  have hne : g ≠ f := fun heq => by simp [heq, hin] at hout
  rw [if_neg (h.id_ne hmem hg hne)]
  rfl

/-- The files after one is deleted. -/
def deleted (files : List File) (id : Bytes) : List File := files.filter fun g => g.id ≠ id

theorem Sound.delete (h : Sound folderId files) (id : Bytes) :
    Sound folderId (deleted files id) where
  ids := h.ids.sublist (List.filter_sublist.map _)
  named g hg := h.named g (List.mem_of_mem_filter hg)
  names g hg k hk := h.names g (List.mem_of_mem_filter hg) k (List.mem_of_mem_filter hk)

theorem Sound.view_delete (h : Sound folderId files) (hmem : f ∈ files)
    (hmatches : f.matches folderId name = true) :
    view folderId (deleted files f.id) = Function.update (view folderId files) name none := by
  funext k
  by_cases hk : k = name
  · subst hk
    rw [Function.update_self]
    refine view_eq_none fun g hg => ?_
    obtain ⟨hg, hid⟩ := List.mem_filter.mp hg
    rw [Bool.eq_false_iff]
    intro hgmatches
    have hsame : g = f := Option.some.inj
      ((h.find?_eq hg hgmatches).symm.trans (h.find?_eq hmem hmatches))
    simp [hsame] at hid
  · rw [Function.update_of_ne hk, view, view, deleted, List.find?_filter]
    congr 1
    refine List.find?_congr fun g hg => ?_
    by_cases hgmatches : g.matches folderId k = true
    · have hne : g ≠ f := fun heq => hk ((matches_iff.mp hgmatches).1.symm.trans
        ((congrArg File.name heq).trans (matches_iff.mp hmatches).1))
      simp [hgmatches, h.id_ne hmem hg hne]
    · simp [hgmatches]

theorem Sound.others_delete (h : Sound folderId files) (hmem : f ∈ files)
    (hin : f.isIn folderId = true) :
    others folderId (deleted files f.id) = others folderId files := by
  rw [others, deleted, List.filter_filter, others]
  refine List.filter_congr fun g hg => ?_
  by_cases hout : g.isIn folderId = true
  · simp [hout]
  · have hne : g ≠ f := fun heq => hout (heq ▸ hin)
    simp [hout, h.id_ne hmem hg hne]

end Files

/-! The requests -/

theorem checkOk_of_succeeds {status : Nat} (h : succeeds status = true) (operation : String) :
    checkOk status operation = .ok () := by rw [checkOk, if_pos h]

theorem checkOk_refused {status : Nat} (h : 400 ≤ status) (operation : String) :
    ∃ e, checkOk status operation = .error e := by
  have hnot : ¬ succeeds status = true := by
    simp only [succeeds, Bool.and_eq_true, decide_eq_true_eq]
    omega
  exact ⟨_, by rw [checkOk, if_neg hnot]⟩

theorem requiredFileId_idJson {id : Bytes} (h : id ≠ []) : requiredFileId (idJson id) = .ok id := by
  have hid : (idJson id).atKey "id" = .ok (.str id) := Json.atKey_object (by simp)
  rw [requiredFileId, hid]
  simp only [bind, Except.bind, Json.getString, if_neg h]
  rfl

theorem firstFileId_searchJson {found : Option File} (h : ∀ f, found = some f → f.id ≠ []) :
    firstFileId (searchJson found) = .ok (found.map File.id) := by
  have hfiles : (searchJson found).atKey "files" =
      .ok (.arr (found.toList.map fun f => .object [(ascii "id", .str f.id)])) :=
    Json.atKey_object (by simp)
  rw [firstFileId, hfiles]
  cases found with
  | none => rfl
  | some f =>
    have hid := requiredFileId_idJson (h f rfl)
    simp only [bind, Except.bind, Option.toList_some, List.map_cons, List.map_nil]
    rw [← idJson, hid]
    rfl

/-- An upload whose content does not hold the delimiter comes apart into what it was made of. -/
theorem receive_uploadBody {name folderId metadataText body fileBytes : Bytes}
    (hdump : (metadata name folderId).dump = .ok metadataText)
    (hbody : uploadBody name folderId fileBytes = .ok body)
    (hplain : ¬ delimiter <:+: crlf ++ fileBytes) :
    receive kMultipartBoundary body = some [metadataText, fileBytes] := by
  obtain ⟨hreturn, hhead⟩ := metadata_dump hdump
  rw [uploadBody, hdump] at hbody
  cases hbody
  have hcontent : ¬ delimiter <:+: contentHeader ++ fileBytes := fun h =>
    hplain ((delimiter_infix_content fileBytes).mp h)
  have hpart : ¬ ascii "--" <+: contentHeader ++ fileBytes := by
    rintro ⟨rest, hrest⟩
    cases hrest
  have hend : ascii "--" <+: ascii "--" ++ crlf := List.prefix_append _ _
  rw [receive_multipartBody hreturn hhead, split_delimiter hcontent, split_end, partsOf,
    if_neg hpart, partsOf, if_pos hend, partBody_content]
  rfl

section Service
variable {σ : Type} {parse : Bytes → Option Json} {files : σ → List File}
  {handle : σ → Request → Response × σ} {folderId : Bytes}

/-- What a search finds. -/
theorem find_cases (hservice : Behaves parse files handle) {w : World σ Bytes}
    (hsound : Sound folderId (files w.service)) (token name : Bytes) :
    ∃ result w', findFileId handle w token folderId name = (result, w') ∧
      files w'.service = files w.service ∧ (w'.faults ≠ [] → w.faults ≠ []) ∧
      ((∃ e, result = .error e ∧ w.faults ≠ []) ∨
        (∃ f ∈ files w.service, f.matches folderId name = true ∧ result = .ok (some f.id)) ∨
        (∀ f ∈ files w.service, f.matches folderId name = false) ∧ result = .ok none) := by
  have htail : w.faults.tail ≠ [] → w.faults ≠ [] := fun h hnil => h (by rw [hnil]; rfl)
  have htokens : tokens (percentDecode (fieldValue (searchParameters (findFileQuery folderId name))
      (ascii "q"))) = some [.text (ascii "name = "), .literal name, .text (ascii " and "),
        .literal folderId, .text (ascii " in parents and trashed = false")] := by
    rw [searchParameters_query, tokens_findFileQuery]
  obtain ⟨found, t, hhandle, hfiles, hfound⟩ :=
    hservice.search w.service token _ folderId name htokens
  rw [← searchTarget] at hhandle
  obtain ⟨result, u, hexchange, hcases⟩ :=
    exchange_cases (fun status => { status }) handle w
      ⟨.get, searchTarget (findFileQuery folderId name), token, []⟩
  rw [hhandle] at hcases
  rw [findFileId, findFileIdInScope, jsonRequest, exchange, hexchange]
  rcases hcases with ⟨what, rfl, hfaults, hu⟩ | ⟨status, hstatus, -, rfl, hfaults, rfl⟩ | ⟨rfl, rfl⟩
  · refine ⟨_, _, rfl, ?_, htail, .inl ⟨_, rfl, hfaults⟩⟩
    rcases hu with rfl | rfl
    · rfl
    · exact hfiles
  · obtain ⟨e, he⟩ := checkOk_refused hstatus "search"
    simp only [he]
    exact ⟨_, _, rfl, rfl, htail, .inl ⟨_, rfl, hfaults⟩⟩
  · have hok : checkOk 200 "search" = .ok () := checkOk_of_succeeds rfl _
    have hfirst : firstFileId (searchJson found) = .ok (found.map File.id) := by
      refine firstFileId_searchJson fun f hf => ?_
      subst hf
      exact hsound.named f hfound.1
    simp only [hok, hfirst]
    refine ⟨_, _, rfl, hfiles, htail, .inr ?_⟩
    cases found with
    | none => exact .inr ⟨hfound, rfl⟩
    | some f => exact .inl ⟨f, hfound.1, hfound.2, rfl⟩

/-- An upload makes the file or leaves the files as they are, and says so unless something
befalls it. -/
theorem upload_cases (hservice : Behaves parse files handle) (w : World σ Bytes)
    (token name object : Bytes) (readable : Bool)
    (hparse : ∀ text, (metadata name folderId).dump = .ok text →
      parse text = some (metadata name folderId))
    (hplain : ¬ delimiter <:+: crlf ++ object) :
    ∃ result w', uploadFile handle w token folderId name (if readable then some object else none) =
        (result, w') ∧
      ((∃ e, result = .error e ∧ (w.faults = [] → readable = true →
          (metadata name folderId).encodable = false) ∧
            files w'.service = files w.service) ∨
        ∃ id, id ≠ [] ∧ id ∉ (files w.service).map File.id ∧
          files w'.service = files w.service ++ [⟨id, name, folderId, object, false⟩] ∧
            (result = .ok id ∨ ∃ e, result = .error e ∧ w.faults ≠ [])) := by
  cases readable with
  | false => exact ⟨_, _, rfl, .inl ⟨_, rfl, fun _ h => absurd h Bool.false_ne_true, rfl⟩⟩
  | true =>
    simp only [if_true, uploadFile]
    cases hdump : (metadata name folderId).dump with
    | error e =>
      have hbody : uploadBody name folderId object = .error e := by
        rw [uploadBody, hdump]
        rfl
      have hnot : (metadata name folderId).encodable = false := by
        rw [← Json.dump_isOk, hdump]
        rfl
      simp only [hbody]
      exact ⟨_, _, rfl, .inl ⟨_, rfl, fun _ _ => hnot, rfl⟩⟩
    | ok text =>
      have hbody : uploadBody name folderId object = .ok (multipartBody text object) := by
        rw [uploadBody, hdump]
        rfl
      obtain ⟨id, t, hhandle, hid, hnew, hfiles⟩ := hservice.create w.service token _ name folderId
        text object (receive_uploadBody hdump hbody hplain) (hparse text hdump)
      obtain ⟨result, u, hexchange, hcases⟩ := exchange_cases (fun status => { status }) handle w
        ⟨.post, uploadTarget, token, multipartBody text object⟩
      rw [hhandle] at hcases
      simp only [hbody, exchange, hexchange]
      rcases hcases with ⟨what, rfl, hfaults, rfl | rfl⟩ | ⟨status, hstatus, -, rfl, hfaults, rfl⟩ |
        ⟨rfl, rfl⟩
      · exact ⟨_, _, rfl, .inl ⟨_, rfl, fun h => absurd h hfaults, rfl⟩⟩
      · exact ⟨_, _, rfl, .inr ⟨id, hid, hnew, hfiles, .inr ⟨_, rfl, hfaults⟩⟩⟩
      · obtain ⟨e, he⟩ := checkOk_refused hstatus "upload"
        simp only [he]
        exact ⟨_, _, rfl, .inl ⟨_, rfl, fun h => absurd h hfaults, rfl⟩⟩
      · have hok : checkOk 200 "upload" = .ok () := checkOk_of_succeeds rfl _
        simp only [hok, requiredFileId_idJson hid]
        exact ⟨_, _, rfl, .inr ⟨id, hid, hnew, hfiles, .inl rfl⟩⟩

theorem replace_cases (hservice : Behaves parse files handle) (w : World σ Bytes)
    (token object : Bytes) (readable : Bool) {f : File} (hf : f ∈ files w.service) :
    ∃ result w', replaceFileContent handle w token f.id (if readable then some object else none) =
        (result, w') ∧
      ((∃ e, result = .error e ∧ (w.faults ≠ [] ∨ readable = false) ∧
          files w'.service = files w.service) ∨
        files w'.service = replaced (files w.service) f.id object ∧
          (result = .ok () ∨ ∃ e, result = .error e ∧ w.faults ≠ [])) := by
  cases readable with
  | false => exact ⟨_, _, rfl, .inl ⟨_, rfl, .inr rfl, rfl⟩⟩
  | true =>
    simp only [if_true, replaceFileContent]
    obtain ⟨json, t, hhandle, hfiles⟩ := hservice.replace w.service token f object hf
    obtain ⟨result, u, hexchange, hcases⟩ := exchange_cases (fun status => { status }) handle w
      ⟨.patch, replaceTarget f.id, token, object⟩
    rw [hhandle] at hcases
    simp only [exchange, hexchange]
    rcases hcases with ⟨what, rfl, hfaults, rfl | rfl⟩ | ⟨status, hstatus, -, rfl, hfaults, rfl⟩ |
      ⟨rfl, rfl⟩
    · exact ⟨_, _, rfl, .inl ⟨_, rfl, .inl hfaults, rfl⟩⟩
    · exact ⟨_, _, rfl, .inr ⟨hfiles, .inr ⟨_, rfl, hfaults⟩⟩⟩
    · obtain ⟨e, he⟩ := checkOk_refused hstatus "update"
      simp only [he]
      exact ⟨_, _, rfl, .inl ⟨_, rfl, .inl hfaults, rfl⟩⟩
    · exact ⟨_, _, rfl, .inr ⟨hfiles, .inl (checkOk_of_succeeds rfl _)⟩⟩

theorem download_cases (hservice : Behaves parse files handle) (w : World σ Bytes)
    (token : Bytes) (unopened : Option Bytes) (hids : ((files w.service).map File.id).Nodup)
    {f : File} (hf : f ∈ files w.service) :
    ∃ result w', downloadFile handle w token f.id unopened = (result, w') ∧
      files w'.service = files w.service ∧
      ((∃ e, result = (.error e, none) ∧ (w.faults ≠ [] ∨ unopened.isSome = true)) ∨
        result = (.ok (), some f.content)) := by
  cases unopened with
  | some what => exact ⟨_, _, rfl, rfl, .inl ⟨_, rfl, .inr rfl⟩⟩
  | none =>
    simp only [downloadFile]
    obtain ⟨t, hhandle, hfiles⟩ := hservice.download w.service token f hf hids
    obtain ⟨result, u, hexchange, hcases⟩ := exchange_cases (fun status => { status }) handle w
      ⟨.get, downloadTarget f.id, token, []⟩
    rw [hhandle] at hcases
    simp only [exchange, hexchange]
    rcases hcases with ⟨what, rfl, hfaults, hu⟩ | ⟨status, hstatus, -, rfl, hfaults, rfl⟩ |
      ⟨rfl, rfl⟩
    · refine ⟨_, _, rfl, ?_, .inl ⟨_, rfl, .inl hfaults⟩⟩
      rcases hu with rfl | rfl
      · rfl
      · exact hfiles
    · have hnot : ¬ succeeds status = true := by
        simp only [succeeds, Bool.and_eq_true, decide_eq_true_eq]
        omega
      simp only [if_neg hnot]
      exact ⟨_, _, rfl, rfl, .inl ⟨_, rfl, .inl hfaults⟩⟩
    · exact ⟨_, _, rfl, hfiles, .inr rfl⟩

theorem delete_cases (hservice : Behaves parse files handle) (w : World σ Bytes) (token : Bytes)
    {f : File} (hf : f ∈ files w.service) :
    ∃ result w', deleteFile handle w token f.id = (result, w') ∧
      ((∃ e, result = .error e ∧ w.faults ≠ [] ∧ files w'.service = files w.service) ∨
        files w'.service = deleted (files w.service) f.id ∧
          (result = .ok () ∨ ∃ e, result = .error e ∧ w.faults ≠ [])) := by
  obtain ⟨t, hhandle, hfiles⟩ := hservice.delete w.service token f hf
  obtain ⟨result, u, hexchange, hcases⟩ := exchange_cases (fun status => { status }) handle w
    ⟨.delete, deleteTarget f.id, token, []⟩
  rw [hhandle] at hcases
  rw [deleteFile, jsonRequest, exchange, hexchange]
  rcases hcases with ⟨what, rfl, hfaults, rfl | rfl⟩ |
    ⟨status, hstatus, hfound, rfl, hfaults, rfl⟩ | ⟨rfl, rfl⟩
  · exact ⟨_, _, rfl, .inl ⟨_, rfl, hfaults, rfl⟩⟩
  · exact ⟨_, _, rfl, .inr ⟨hfiles, .inr ⟨_, rfl, hfaults⟩⟩⟩
  · obtain ⟨e, he⟩ := checkOk_refused hstatus "delete"
    simp only [if_neg hfound, he]
    exact ⟨_, _, rfl, .inl ⟨_, rfl, hfaults, rfl⟩⟩
  · exact ⟨_, _, rfl, .inr ⟨hfiles, .inl rfl⟩⟩

/-! The operations -/

/-- Nothing goes wrong during the operation. -/
def Turn.Quiet (turn : Turn) : Prop :=
  (∃ token, turn.token = .ok token) ∧ turn.faults = [] ∧ turn.readable = true ∧
    turn.unopened = none

/-- The metadata of a `put` can be written. -/
def Named (folderId : Bytes) : Op Bytes Bytes → Prop
  | .put objectKey _ => (metadata objectKey folderId).encodable = true
  | _ => True

/-- The service can read what is uploaded. -/
def Uploads (parse : Bytes → Option Json) (folderId : Bytes) : Op Bytes Bytes → Prop
  | .put objectKey object =>
    (∀ text, (metadata objectKey folderId).dump = .ok text →
      parse text = some (metadata objectKey folderId)) ∧ ¬ delimiter <:+: crlf ++ object
  | _ => True

variable (files folderId) in
/-- The operation took `s` to `t`, with the result `r`. -/
structure Stepped (op : Op Bytes Bytes) (sure : Prop) (s : σ) (r : Result Bytes) (t : σ) :
    Prop where
  sound : Sound folderId (files t)
  others : others folderId (files t) = others folderId (files s)
  answered : Answered op sure (view folderId (files s)) r (view folderId (files t))

variable {s t u : σ} {op : Op Bytes Bytes} {sure : Prop} {r : Result Bytes}

/-- An operation that leaves the files as they are. -/
theorem Stepped.still (h : Sound folderId (files s)) (hfiles : files t = files s)
    (hanswered : Answered op sure (view folderId (files s)) r (view folderId (files s))) :
    Stepped files folderId op sure s r t where
  sound := hfiles ▸ h
  others := by rw [hfiles]
  answered := hfiles ▸ hanswered

theorem Stepped.failed (h : Sound folderId (files s)) (hfiles : files t = files s)
    (hsure : ¬ sure) : Stepped files folderId op sure s .failed t :=
  .still h hfiles (.failed op _ hsure)

theorem Stepped.read (h : Sound folderId (files s)) (hfiles : files t = files s)
    (hreads : op.writes = none) :
    Stepped files folderId op sure s (op.answer (view folderId (files s))) t :=
  .still h hfiles (.read sure _ hreads)

theorem Stepped.wrote {after : List File} (hfiles : files t = after)
    (hsound : Sound folderId after)
    (hothers : DriveStore.others folderId after = DriveStore.others folderId (files s))
    (heffect : view folderId after = op.effect (view folderId (files s)))
    (hr : r = op.answer (view folderId (files s)) ∨ (r = .failed ∧ ¬ sure)) :
    Stepped files folderId op sure s r t where
  sound := hfiles ▸ hsound
  others := hfiles ▸ hothers
  answered := by
    rw [hfiles, heffect]
    exact .wrote hr

/-- What comes before a write changes no file. -/
theorem Stepped.after (h : Stepped files folderId op sure u r t) (hfiles : files u = files s) :
    Stepped files folderId op sure s r t where
  sound := h.sound
  others := hfiles ▸ h.others
  answered := hfiles ▸ h.answered

theorem exec_put (hservice : Behaves parse files handle) (hsound : Sound folderId (files s))
    {objectKey object : Bytes} (huploads : Uploads parse folderId (.put objectKey object))
    (turn : Turn) :
    Stepped files folderId (.put objectKey object)
      (turn.Quiet ∧ Named folderId (.put objectKey object)) s
      (exec handle folderId s (.put objectKey object) turn).1
      (exec handle folderId s (.put objectKey object) turn).2 := by
  cases htoken : turn.token with
  | error e =>
    have hnot : ¬ (turn.Quiet ∧ Named folderId (.put objectKey object)) := by
      rintro ⟨⟨⟨token, hok⟩, -⟩, -⟩
      rw [htoken] at hok
      cases hok
    simp only [exec, put, htoken]
    exact .failed hsound rfl hnot
  | ok token =>
    obtain ⟨result, w, hfind, hfiles, hfaults, hcases⟩ :=
      find_cases hservice (w := ⟨s, turn.faults⟩) hsound token objectKey
    have hnot : turn.faults ≠ [] → ¬ (turn.Quiet ∧ Named folderId (.put objectKey object)) :=
      fun hne hsure => hne hsure.1.2.1
    simp only [exec, put, htoken, hfind]
    rcases hcases with ⟨e, rfl, hne⟩ | ⟨f, hf, hmatches, rfl⟩ | ⟨hnone, rfl⟩
    · exact .failed hsound hfiles (hnot hne)
    · refine .after ?_ hfiles
      have hsoundw : Sound folderId (files w.service) := hfiles ▸ hsound
      have hfw : f ∈ files w.service := hfiles ▸ hf
      obtain ⟨answer, w', hreplace, hdone⟩ :=
        replace_cases hservice w token object turn.readable hfw
      simp only [hreplace]
      rcases hdone with ⟨e, rfl, hwhy, hsame⟩ | ⟨hreplaced, hanswer⟩
      · refine .failed hsoundw hsame fun hsure => ?_
        rcases hwhy with hne | hreadable
        · exact hnot (hfaults hne) hsure
        · exact Bool.false_ne_true (hreadable.symm.trans hsure.1.2.2.1)
      · have hview := hsoundw.view_replace hfw hmatches object
        have hothers := hsoundw.others_replace hfw (matches_iff.mp hmatches).2 object
        have hsound' := hsoundw.replace f.id object
        rcases hanswer with rfl | ⟨e, rfl, hne⟩
        · exact .wrote hreplaced hsound' hothers hview (.inl rfl)
        · exact .wrote hreplaced hsound' hothers hview (.inr ⟨rfl, hnot (hfaults hne)⟩)
    · refine .after ?_ hfiles
      have hsoundw : Sound folderId (files w.service) := hfiles ▸ hsound
      have hnonew : ∀ g ∈ files w.service, g.matches folderId objectKey = false := hfiles ▸ hnone
      obtain ⟨answer, w', hupload, hdone⟩ := upload_cases hservice w token objectKey object
        turn.readable huploads.1 huploads.2
      simp only [hupload]
      rcases hdone with ⟨e, rfl, hwhy, hsame⟩ | ⟨id, hid, hnew, hcreated, hanswer⟩
      · refine .failed hsoundw hsame fun hsure => ?_
        have hquiet : w.faults = [] := by
          by_contra hne
          exact hnot (hfaults hne) hsure
        have hnamed : (metadata objectKey folderId).encodable = true := hsure.2
        rw [hwhy hquiet hsure.1.2.2.1] at hnamed
        cases hnamed
      · have hview := @view_create folderId objectKey (files w.service) id object hnonew
        have hothers := @others_create folderId objectKey (files w.service) id object
        have hsound' := @Sound.create folderId objectKey _ hsoundw id object hid hnew hnonew
        rcases hanswer with rfl | ⟨e, rfl, hne⟩
        · exact .wrote hcreated hsound' hothers hview (.inl rfl)
        · exact .wrote hcreated hsound' hothers hview (.inr ⟨rfl, hnot (hfaults hne)⟩)

theorem exec_remove (hservice : Behaves parse files handle) (hsound : Sound folderId (files s))
    (objectKey : Bytes) (turn : Turn) :
    Stepped files folderId (.remove objectKey) turn.Quiet s
      (exec handle folderId s (.remove objectKey) turn).1
      (exec handle folderId s (.remove objectKey) turn).2 := by
  cases htoken : turn.token with
  | error e =>
    have hnot : ¬ turn.Quiet := by
      rintro ⟨⟨token, hok⟩, -⟩
      rw [htoken] at hok
      cases hok
    simp only [exec, remove, htoken]
    exact .failed hsound rfl hnot
  | ok token =>
    obtain ⟨result, w, hfind, hfiles, hfaults, hcases⟩ :=
      find_cases hservice (w := ⟨s, turn.faults⟩) hsound token objectKey
    have hnot : turn.faults ≠ [] → ¬ turn.Quiet := fun hne hsure => hne hsure.2.1
    simp only [exec, remove, htoken, hfind]
    rcases hcases with ⟨e, rfl, hne⟩ | ⟨f, hf, hmatches, rfl⟩ | ⟨hnone, rfl⟩
    · exact .failed hsound hfiles (hnot hne)
    · refine .after ?_ hfiles
      have hsoundw : Sound folderId (files w.service) := hfiles ▸ hsound
      have hfw : f ∈ files w.service := hfiles ▸ hf
      obtain ⟨answer, w', hdelete, hdone⟩ := delete_cases hservice w token hfw
      simp only [hdelete]
      rcases hdone with ⟨e, rfl, hne, hsame⟩ | ⟨hdeleted, hanswer⟩
      · exact .failed hsoundw hsame (hnot (hfaults hne))
      · have hview := hsoundw.view_delete hfw hmatches
        have hothers := hsoundw.others_delete hfw (matches_iff.mp hmatches).2
        have hsound' := hsoundw.delete f.id
        rcases hanswer with rfl | ⟨e, rfl, hne⟩
        · exact .wrote hdeleted hsound' hothers hview (.inl rfl)
        · exact .wrote hdeleted hsound' hothers hview (.inr ⟨rfl, hnot (hfaults hne)⟩)
    · -- Nothing to remove: the store is as a removal leaves it.
      have hview : view folderId (files s) objectKey = none := view_eq_none hnone
      refine .wrote hfiles hsound rfl ?_ (.inl rfl)
      exact (Function.update_eq_self_iff.mpr hview.symm).symm

theorem exec_get (hservice : Behaves parse files handle) (hsound : Sound folderId (files s))
    (objectKey : Bytes) (turn : Turn) :
    Stepped files folderId (.get objectKey) turn.Quiet s
      (exec handle folderId s (.get objectKey) turn).1
      (exec handle folderId s (.get objectKey) turn).2 := by
  cases htoken : turn.token with
  | error e =>
    have hnot : ¬ turn.Quiet := by
      rintro ⟨⟨token, hok⟩, -⟩
      rw [htoken] at hok
      cases hok
    simp only [exec, get, htoken]
    exact .failed hsound rfl hnot
  | ok token =>
    obtain ⟨result, w, hfind, hfiles, hfaults, hcases⟩ :=
      find_cases hservice (w := ⟨s, turn.faults⟩) hsound token objectKey
    have hnot : turn.faults ≠ [] → ¬ turn.Quiet := fun hne hsure => hne hsure.2.1
    have hread : Stepped files folderId (.get objectKey) turn.Quiet s
        ((view folderId (files s) objectKey).elim .failed .object) w.service :=
      .read hsound hfiles rfl
    simp only [exec, get, htoken, hfind]
    rcases hcases with ⟨e, rfl, hne⟩ | ⟨f, hf, hmatches, rfl⟩ | ⟨hnone, rfl⟩
    · exact .failed hsound hfiles (hnot hne)
    · have hfw : f ∈ files w.service := hfiles ▸ hf
      obtain ⟨answer, w', hdownload, hsame, hdone⟩ :=
        download_cases hservice w token turn.unopened (hfiles ▸ hsound.ids) hfw
      simp only [hdownload]
      rcases hdone with ⟨e, rfl, hwhy⟩ | rfl
      · refine .failed hsound (hsame.trans hfiles) fun hsure => ?_
        rcases hwhy with hne | hunopened
        · exact hnot (hfaults hne) hsure
        · rw [hsure.2.2.2] at hunopened
          cases hunopened
      · have hobject : Stepped files folderId (.get objectKey) turn.Quiet s
            ((view folderId (files s) objectKey).elim .failed .object) w'.service :=
          .read hsound (hsame.trans hfiles) rfl
        rw [hsound.view_eq hf hmatches] at hobject
        exact hobject
    · rw [view_eq_none hnone] at hread
      exact hread

theorem exec_holds (hservice : Behaves parse files handle) (hsound : Sound folderId (files s))
    (objectKey : Bytes) (turn : Turn) :
    Stepped files folderId (.holds objectKey) turn.Quiet s
      (exec handle folderId s (.holds objectKey) turn).1
      (exec handle folderId s (.holds objectKey) turn).2 := by
  cases htoken : turn.token with
  | error e =>
    have hnot : ¬ turn.Quiet := by
      rintro ⟨⟨token, hok⟩, -⟩
      rw [htoken] at hok
      cases hok
    simp only [exec, holds, htoken]
    exact .failed hsound rfl hnot
  | ok token =>
    obtain ⟨result, w, hfind, hfiles, hfaults, hcases⟩ :=
      find_cases hservice (w := ⟨s, turn.faults⟩) hsound token objectKey
    have hread : Stepped files folderId (.holds objectKey) turn.Quiet s
        (.holds (view folderId (files s) objectKey).isSome) w.service :=
      .read hsound hfiles rfl
    simp only [exec, holds, htoken, hfind]
    rcases hcases with ⟨e, rfl, hne⟩ | ⟨f, hf, hmatches, rfl⟩ | ⟨hnone, rfl⟩
    · exact .failed hsound hfiles fun hsure => hne hsure.2.1
    · rw [hsound.view_eq hf hmatches] at hread
      exact hread
    · rw [view_eq_none hnone] at hread
      exact hread

theorem exec_step (hservice : Behaves parse files handle) (hsound : Sound folderId (files s))
    (op : Op Bytes Bytes) (huploads : Uploads parse folderId op) (turn : Turn) :
    Stepped files folderId op (turn.Quiet ∧ Named folderId op) s
      (exec handle folderId s op turn).1 (exec handle folderId s op turn).2 := by
  cases op with
  | put objectKey object => exact exec_put hservice hsound huploads turn
  | get objectKey =>
    have h := exec_get hservice hsound objectKey turn
    exact { h with answered := ⟨h.answered.allowed, fun hsure => h.answered.answers hsure.1⟩ }
  | holds objectKey =>
    have h := exec_holds hservice hsound objectKey turn
    exact { h with answered := ⟨h.answered.allowed, fun hsure => h.answered.answers hsure.1⟩ }
  | remove objectKey =>
    have h := exec_remove hservice hsound objectKey turn
    exact { h with answered := ⟨h.answered.allowed, fun hsure => h.answered.answers hsure.1⟩ }

/-- Whatever is lost or refused on the way, the provider is a reliable store of objects: an
operation that succeeds did what it says, one that fails did it or nothing, and no name is given
twice. It touches no file that is not its own, and fails only where something goes wrong. -/
theorem drive_reliable (hservice : Behaves parse files handle) {s : σ}
    (hsound : Sound folderId (files s)) {ops : List (Op Bytes Bytes × Turn)}
    (huploads : ∀ p ∈ ops, Uploads parse folderId p.1)
    {history : List (Op Bytes Bytes × Result Bytes)} {t : σ}
    (hrun : ObjectStore.run (exec handle folderId) s ops = (history, t)) :
    Reliable (view folderId (files s)) history (view folderId (files t)) ∧
      Sound folderId (files t) ∧ others folderId (files t) = others folderId (files s) ∧
      ∀ op turn, turn.Quiet → Named folderId op → Uploads parse folderId op →
        (exec handle folderId t op turn).1 = op.answer (view folderId (files t)) := by
  have hstep : ∀ u op turn, (Sound folderId (files u) ∧
      others folderId (files u) = others folderId (files s)) → Uploads parse folderId op →
        (Sound folderId (files (exec handle folderId u op turn).2) ∧
          others folderId (files (exec handle folderId u op turn).2) =
            others folderId (files s)) ∧
        Allowed op (view folderId (files u)) (exec handle folderId u op turn).1
          (view folderId (files (exec handle folderId u op turn).2)) := by
    rintro u op turn ⟨hu, hothers⟩ hop
    have h := exec_step hservice hu op hop turn
    exact ⟨⟨h.sound, h.others.trans hothers⟩, h.answered.allowed⟩
  obtain ⟨⟨hend, hothers⟩, hexplains⟩ := run_explains hstep ⟨hsound, rfl⟩ huploads
  rw [hrun] at hend hothers hexplains
  refine ⟨hexplains.reliable, hend, hothers, fun op turn hquiet hnamed hop => ?_⟩
  exact (exec_step hservice hend op hop turn).answered.answers ⟨hquiet, hnamed⟩

end Service

/-! A service -/

/-- An id longer than those in use. -/
def freshId (files : List File) : Bytes := 120 :: (files.map File.id).flatten

theorem freshId_notMem (files : List File) : freshId files ∉ files.map File.id := by
  intro h
  have hlength := (List.sublist_flatten_of_mem h).length_le
  simp only [freshId, List.length_cons] at hlength
  omega

def searched (target : Bytes) : Option (Bytes × Bytes) :=
  match tokens (percentDecode (fieldValue (target.drop (kFilesPath.length + 1)) (ascii "q"))) with
  | some [_, .literal name, _, .literal folderId, _] => some (name, folderId)
  | _ => none

def readMetadata : Json → Option (Bytes × Bytes)
  | .obj [(_, .str name), (_, .arr [.str folderId])] => some (name, folderId)
  | _ => none

def badRequest : Response := { status := 400 }

/-- A service that keeps its files in a list. -/
def serve (parse : Bytes → Option Json) (files : List File) (r : Request) :
    Response × List File :=
  match r.verb with
  | .get =>
    if (kFilesPath ++ ascii "?").isPrefixOf r.target then
      match searched r.target with
      | some (name, folderId) =>
        (⟨200, searchJson (files.find? (File.matches folderId name)), []⟩, files)
      | none => (badRequest, files)
    else
      match files.find? fun f => downloadTarget f.id = r.target with
      | some f => (⟨200, .null, f.content⟩, files)
      | none => ({ status := 404 }, files)
  | .post =>
    match receive kMultipartBoundary r.body with
    | some [metadataText, content] =>
      match (parse metadataText).bind readMetadata with
      | some (name, folderId) =>
        (⟨200, idJson (freshId files), []⟩,
          files ++ [⟨freshId files, name, folderId, content, false⟩])
      | none => (badRequest, files)
    | _ => (badRequest, files)
  | .patch =>
    match files.find? fun f => replaceTarget f.id = r.target with
    | some f => ({ status := 200 }, replaced files f.id r.body)
    | none => ({ status := 404 }, files)
  | .delete =>
    match files.find? fun f => deleteTarget f.id = r.target with
    | some f => ({ status := 204 }, deleted files f.id)
    | none => ({ status := 404 }, files)

/-- The file that a target names. -/
theorem find?_target {target : Bytes → Bytes} (htarget : Function.Injective target)
    {files : List File} {f : File} (hf : f ∈ files) :
    ∃ g ∈ files, g.id = f.id ∧ files.find? (fun g => target g.id = target f.id) = some g := by
  cases hfind : files.find? fun g => target g.id = target f.id with
  | none =>
    have hnot := List.find?_eq_none.mp hfind f hf
    exact absurd (decide_eq_true rfl) hnot
  | some g =>
    have hg : target g.id = target f.id := by simpa using List.find?_some hfind
    exact ⟨g, List.mem_of_find?_eq_some hfind, htarget hg, rfl⟩

theorem replaceTarget_injective : Function.Injective replaceTarget := fun _ _ h =>
  List.append_cancel_left (List.append_cancel_right h)

theorem downloadTarget_injective : Function.Injective downloadTarget := fun _ _ h =>
  List.append_cancel_left (List.append_cancel_right h)

theorem deleteTarget_injective : Function.Injective deleteTarget := fun _ _ h =>
  List.append_cancel_left h

theorem download_notSearch (id : Bytes) :
    ¬ (kFilesPath ++ ascii "?").isPrefixOf (downloadTarget id) = true := by
  rw [List.isPrefixOf_iff_prefix, downloadTarget, List.append_assoc, List.append_assoc,
    List.prefix_append_right_inj]
  rintro ⟨rest, hrest⟩
  have hhead := congrArg List.head? hrest
  revert hhead
  simp [show ascii "?" = [63] from rfl, show ascii "/" = [47] from rfl]

theorem serve_behaves (parse : Bytes → Option Json) :
    Behaves parse (fun files : List File => files) (serve parse) where
  search files token parameters folderId name htokens := by
    have hprefix : (kFilesPath ++ ascii "?").isPrefixOf (kFilesPath ++ ascii "?" ++ parameters) =
        true := List.isPrefixOf_iff_prefix.mpr (List.prefix_append _ _)
    have hlength : (kFilesPath ++ ascii "?").length = kFilesPath.length + 1 := by
      rw [List.length_append]
      rfl
    have hsearched : searched (kFilesPath ++ ascii "?" ++ parameters) = some (name, folderId) := by
      rw [searched, ← hlength, List.drop_left, htokens]
    refine ⟨files.find? (File.matches folderId name), files, ?_, rfl, ?_⟩
    · simp only [serve, hprefix, if_true, hsearched]
    · split
      case h_1 f hfind => exact ⟨List.mem_of_find?_eq_some hfind, List.find?_some hfind⟩
      case h_2 hfind =>
        intro g hg
        simpa using List.find?_eq_none.mp hfind g hg
  create files token body name folderId metadataText content hreceive hparse := by
    refine ⟨freshId files, files ++ [⟨freshId files, name, folderId, content, false⟩], ?_,
      List.cons_ne_nil _ _, freshId_notMem files, rfl⟩
    simp only [serve, hreceive, hparse, Option.bind_some]
    rfl
  replace files token f content hf := by
    obtain ⟨g, -, hid, hfind⟩ := find?_target replaceTarget_injective hf
    refine ⟨.null, replaced files f.id content, ?_, rfl⟩
    simp only [serve, hfind, hid]
  download files token f hf hids := by
    obtain ⟨g, hg, hid, hfind⟩ := find?_target downloadTarget_injective hf
    have hsame : g = f := List.inj_on_of_nodup_map hids hg hf hid
    refine ⟨files, ?_, rfl⟩
    simp only [serve, if_neg (download_notSearch f.id), hfind, hsame]
  delete files token f hf := by
    obtain ⟨g, -, hid, hfind⟩ := find?_target deleteTarget_injective hf
    refine ⟨deleted files f.id, ?_, rfl⟩
    simp only [serve, hfind, hid]

def noteText : Bytes := ascii "\x7b\"name\":\"n\",\"parents\":[\"f\"]\x7d"

def parseNote (text : Bytes) : Option Json :=
  if text = noteText then some (metadata (ascii "n") (ascii "f")) else none

/-- The response of an upload is lost, and the operation is tried again. -/
def retried : List (Op Bytes Bytes × Turn) :=
  let token : Except Failure Bytes := .ok (ascii "t")
  [(.put (ascii "n") (ascii "one"), ⟨token, [.none, .lostAfter (ascii "reset")], true, none⟩),
    (.put (ascii "n") (ascii "two"), ⟨token, [], true, none⟩),
    (.get (ascii "n"), ⟨token, [.refused overloaded], true, none⟩),
    (.get (ascii "n"), ⟨token, [], true, none⟩), (.remove (ascii "m"), ⟨token, [], true, none⟩)]

theorem drive_reliable_retried :
    ∃ history t, ObjectStore.run (exec (serve parseNote) (ascii "f")) [] retried = (history, t) ∧
      Reliable (view (ascii "f") []) history (view (ascii "f") t) ∧ Sound (ascii "f") t := by
  have hempty : Sound (ascii "f") [] :=
    ⟨List.nodup_nil, fun _ h => (by cases h), fun _ h => (by cases h)⟩
  have hnote : ∀ object : Bytes, ¬ delimiter <:+: crlf ++ object →
      Uploads parseNote (ascii "f") (.put (ascii "n") object) := by
    refine fun object hplain => ⟨fun text htext => ?_, hplain⟩
    have hdump : (metadata (ascii "n") (ascii "f")).dump = .ok noteText := by decide +kernel
    rw [hdump] at htext
    rw [← Except.ok.inj htext, parseNote, if_pos rfl]
  have huploads : ∀ p ∈ retried, Uploads parseNote (ascii "f") p.1 := by
    intro p hp
    simp only [retried, List.mem_cons, List.not_mem_nil, or_false] at hp
    rcases hp with rfl | rfl | rfl | rfl | rfl
    · exact hnote _ (by decide +kernel)
    · exact hnote _ (by decide +kernel)
    · trivial
    · trivial
    · trivial
  cases hrun : ObjectStore.run (exec (serve parseNote) (ascii "f")) [] retried with
  | mk history t =>
    have h := drive_reliable (serve_behaves parseNote) hempty huploads hrun
    exact ⟨history, t, rfl, h.1, h.2.1⟩

end DriveStore

end HolderDaemon
