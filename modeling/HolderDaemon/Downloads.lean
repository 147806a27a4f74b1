import HolderDaemon.Delimiters
import HolderDaemon.FileTree
import HolderDaemon.Json

/-!
Downloads of the command line (`cli/commands/Download.cpp`): the body of a successful answer
is staged beside the destination and renamed over it at the end.
-/

set_option autoImplicit false

open Bytes

namespace HolderDaemon

namespace Downloads

open FileTree

abbrev Path := List Bytes

abbrev Files := Entries Bytes UInt8

/-- What is thrown: a `CliError`, or an exception of a library with its text. -/
inductive Failure where
  | cli (code message : Bytes) (details : Json)
  | other (what : Bytes)

def cliError (code : String) (message : Bytes) : Failure := .cli (ascii code) message (.obj [])

def outputFailed (message : Bytes) : Failure := cliError "output_failed" message

structure DownloadMetadata where
  contentType : Bytes
  contentDisposition : Bytes
  filename : Bytes
  byteSize : UInt64 := 0
  deriving DecidableEq

/-! The server -/

inductive ReadError where
  | needBuffer
  | other (message : Bytes)

/-- The reads of a body, until the parser is done: what each adds to the buffer, and its
error. -/
inductive Reading where
  | done
  | read (bytes : Bytes) (error : Option ReadError) (rest : Reading)

structure Response where
  status : Nat
  contentType : Bytes := []
  contentDisposition : Bytes := []
  body : Reading

/-- A failure to resolve, to connect, to send the request or to read a header, or an answer. -/
inductive Server where
  | broken (what : Bytes)
  | responds (response : Response)

/-- The quoted name of a disposition. -/
def downloadFilename (disposition : Bytes) : Bytes :=
  match Delimiters.cut (ascii "filename=\"") disposition with
  | none => []
  | some (_, value) => if 34 ∈ value then value.takeWhile fun b => b ≠ 34 else []

/-- `json_string` of a member that may be missing or null. -/
def jsonString (j : Json) (key : String) (fallback : Bytes) : Except Bytes Bytes :=
  match j.field? (ascii key) with
  | none => .ok fallback
  | some .null => .ok fallback
  | some value => value.getString

/-- The typed error of an answer that is no success. -/
def serverError (parse : Bytes → Option Json) (status : Nat) (errorBody : Bytes) : Failure :=
  let message := ascii "HTTP " ++ decimal status
  let details := Json.object [(ascii "http_status", .int status)]
  match (parse errorBody).bind fun payload => payload.field? (ascii "error") with
  | some (.obj fields) =>
    let error := Json.obj fields
    match jsonString error "code" (ascii "download_failed"), jsonString error "message" message with
    | .ok code, .ok message =>
      .cli code message ((error.field? (ascii "details")).getD details)
    | .error what, _ => .other what
    | .ok _, .error what => .other what
  | _ => .cli (ascii "download_failed") message details

section Reading
variable {S : Type} (sink : S → Bytes → Except Failure Unit × S) (success : Bool)

/-- What one read does before its error is looked at: a success goes to the sink, other
bodies are collected up to 1 MiB. -/
def take (bytes : Bytes) (s : S) (size : UInt64) (errorBody : Bytes) :
    Except Failure (UInt64 × Bytes) × S :=
  if bytes = [] then (.ok (size, errorBody), s)
  else if success then
    match sink s bytes with
    | (.error e, s) => (.error e, s)
    | (.ok (), s) => (.ok (size + UInt64.ofNat bytes.length, errorBody), s)
  else if errorBody.length + bytes.length > 1048576 then
    (.error (cliError "download_failed" (ascii "Server error response exceeds 1 MiB.")), s)
  else (.ok (size, errorBody ++ bytes), s)

def readBody : Reading → S → UInt64 → Bytes → Except Failure (UInt64 × Bytes) × S
  | .done, s, size, errorBody => (.ok (size, errorBody), s)
  | .read bytes error rest, s, size, errorBody =>
    match take sink success bytes s size errorBody with
    | (.error e, s) => (.error e, s)
    | (.ok (size, errorBody), s) =>
      match error with
      | some (.other message) =>
        (.error (cliError "download_failed" (ascii "Incomplete asset download: " ++ message)), s)
      | _ => readBody rest s size errorBody

end Reading

def httpDownload {S : Type} (parse : Bytes → Option Json)
    (sink : S → Bytes → Except Failure Unit × S) (server : Server) (s : S) :
    Except Failure DownloadMetadata × S :=
  match server with
  | .broken what =>
    (.error (cliError "download_failed" (ascii "Asset download failed: " ++ what)), s)
  | .responds response =>
    let success := response.status == 200
    match readBody sink success response.body s 0 [] with
    | (.error e, s) => (.error e, s)
    | (.ok (size, errorBody), s) =>
      if success then
        (.ok { contentType := response.contentType
               contentDisposition := response.contentDisposition
               filename := downloadFilename response.contentDisposition
               byteSize := size }, s)
      else (.error (serverError parse response.status errorBody), s)

/-! The staging file -/

/-- What the file system and the server do in one call. A write or a close that fails leaves
some bytes in the staging file; `what` is the text of the file system's error. -/
structure Environment where
  uuid : Bytes
  statFails : Bool := false
  createFails : Bool := false
  secureFails : Bool := false
  openFails : Bool := false
  chmodFails : Bool := false
  write : Nat → Option Bytes := fun _ => none
  close : Option Bytes := none
  renameFails : Bool := false
  what : Bytes := []
  server : Server

def filesystemError (env : Environment) : Failure :=
  outputFailed (ascii "Export output failed: " ++ env.what)

/-- Beside the output. -/
def stagingDirectory (env : Environment) (output : Path) : Path :=
  output.dropLast ++ [ascii ".holderctl-export-" ++ env.uuid]

def payload : Bytes := ascii "payload"

/-- The constructor of `StagedFile`. `output` is absolute and lexically normal. -/
def openStaged (env : Environment) (files : Files) (output : Path) : Except Failure Path × Files :=
  if env.statFails then (.error (filesystemError env), files)
  else if isDirectory files output then
    (.error (cliError "invalid_output" (ascii "Output must be a file, not a directory.")), files)
  else
    let directory := stagingDirectory env output
    match if env.createFails then none else createDirectory files directory with
    | none =>
      if !env.createFails && isDirectory files directory then
        (.error (outputFailed (ascii "Could not create export staging directory.")), files)
      else (.error (filesystemError env), files)
    | some made =>
      if env.secureFails then
        (.error (outputFailed (ascii "Could not secure export staging directory.")),
          remove made directory)
      else (.ok directory, made)

/-- The destructor. -/
def destroyStaged (directory : Path) (files : Files) : Files :=
  remove (remove files (directory ++ [payload])) directory

/-- The open stream: the files, what has been written and how often. -/
structure Stream where
  files : Files
  written : Bytes := []
  writes : Nat := 0

def writeChunk (env : Environment) (directory : Path) (s : Stream) (bytes : Bytes) :
    Except Failure Unit × Stream :=
  match env.write s.writes with
  | some left =>
    (.error (outputFailed (ascii "Could not write export staging file.")),
      { s with files := Assoc.set (directory ++ [payload]) (.file left) s.files })
  | none =>
    (.ok (), { files := Assoc.set (directory ++ [payload]) (.file (s.written ++ bytes)) s.files
               written := s.written ++ bytes
               writes := s.writes + 1 })

/-- From the opened stream to the commit. -/
def transfer (parse : Bytes → Option Json) (env : Environment) (directory output : Path)
    (files : Files) : Except Failure DownloadMetadata × Files :=
  if env.openFails then
    (.error (outputFailed (ascii "Could not open export staging file.")), files)
  else
    let opened := Assoc.set (directory ++ [payload]) (.file []) files
    if env.chmodFails then (.error (filesystemError env), opened)
    else
      match httpDownload parse (writeChunk env directory) env.server { files := opened } with
      | (.error e, s) => (.error e, s.files)
      | (.ok metadata, s) =>
        match env.close with
        | some left =>
          (.error (outputFailed (ascii "Could not close export staging file.")),
            Assoc.set (directory ++ [payload]) (.file left) s.files)
        | none =>
          match if env.renameFails then none
            else rename s.files (directory ++ [payload]) output with
          | none =>
            (.error (outputFailed (ascii "Could not replace export destination: " ++ env.what)),
              s.files)
          | some committed => (.ok metadata, committed)

def downloadToFile (parse : Bytes → Option Json) (env : Environment) (files : Files)
    (output : Path) : Except Failure DownloadMetadata × Files :=
  match openStaged env files output with
  | (.error e, files) => (.error e, files)
  | (.ok directory, files) =>
    let result := transfer parse env directory output files
    (result.1, destroyStaged directory result.2)

/-! The body -/

/-- Everything that the reads bring, joined. -/
def Reading.joined : Reading → Bytes
  | .done => []
  | .read bytes _ rest => bytes ++ rest.joined

/-- No read fails. -/
def Reading.Complete : Reading → Prop
  | .done => True
  | .read _ error rest => (∀ message, error ≠ some (.other message)) ∧ rest.Complete

/-- The stream has the staging file open: its files are those of before and the staging area
with what was written. -/
structure Open (files : Files) (directory : Path) (s : Stream) : Prop where
  staged : s.files = staged files directory payload (.file s.written)

/-- Whatever happens, the files are those of before and a staging file of some content. -/
def StillStaged (files : Files) (directory : Path) (after : Files) : Prop :=
  ∃ content, after = staged files directory payload (.file content)

section Steps
variable {files : Files} {directory : Path} (hf : Fresh files directory)
include hf

theorem writeChunk_open (env : Environment) {s : Stream} (h : Open files directory s)
    (bytes : Bytes) :
    StillStaged files directory (writeChunk env directory s bytes).2.files ∧
      ((writeChunk env directory s bytes).1 = .ok () →
        Open files directory (writeChunk env directory s bytes).2 ∧
          (writeChunk env directory s bytes).2.written = s.written ++ bytes) := by
  unfold writeChunk
  cases env.write s.writes with
  | some left =>
    dsimp only
    refine ⟨⟨left, ?_⟩, fun hok => by cases hok⟩
    rw [h.staged]
    exact write_file hf _ _
  | none =>
    have hwritten : Assoc.set (directory ++ [payload]) (.file (s.written ++ bytes)) s.files =
        staged files directory payload (.file (s.written ++ bytes)) := by
      rw [h.staged]
      exact write_file hf _ _
    exact ⟨⟨_, hwritten⟩, fun _ => ⟨⟨hwritten⟩, rfl⟩⟩

/-- A read keeps the area; one that goes through leaves the stream open, with the bytes of a
success written. -/
theorem take_open (env : Environment) (success : Bool) (bytes : Bytes) {s : Stream}
    (h : Open files directory s) (size : UInt64) (errorBody : Bytes) :
    StillStaged files directory
        (take (writeChunk env directory) success bytes s size errorBody).2.files ∧
      ∀ size' errorBody',
        (take (writeChunk env directory) success bytes s size errorBody).1 =
            .ok (size', errorBody') →
          Open files directory (take (writeChunk env directory) success bytes s size errorBody).2 ∧
          (success = true →
            (take (writeChunk env directory) success bytes s size errorBody).2.written =
              s.written ++ bytes ∧ size' = size + UInt64.ofNat bytes.length) := by
  have hstill : StillStaged files directory s.files := ⟨s.written, h.staged⟩
  unfold take
  by_cases hnil : bytes = []
  · rw [if_pos hnil]
    refine ⟨hstill, fun size' errorBody' hok => ⟨h, fun _ => ?_⟩⟩
    cases hok
    simp [hnil]
  · rw [if_neg hnil]
    cases success with
    | true =>
      rw [if_pos rfl]
      obtain ⟨hkept, hgo⟩ := writeChunk_open hf env h bytes
      split
      · rename_i e s' hwrite
        rw [hwrite] at hkept
        exact ⟨hkept, fun _ _ hok => by cases hok⟩
      · rename_i s' hwrite
        rw [hwrite] at hkept hgo
        obtain ⟨hopen, hbytes⟩ := hgo rfl
        refine ⟨hkept, fun size' errorBody' hok => ⟨hopen, fun _ => ⟨hbytes, ?_⟩⟩⟩
        cases hok
        rfl
    | false =>
      rw [if_neg Bool.false_ne_true]
      split
      · exact ⟨hstill, fun _ _ hok => by cases hok⟩
      · exact ⟨hstill, fun _ _ _ => ⟨h, fun hs => by cases hs⟩⟩

/-- Over all reads: the area is kept, and after a complete success its file is the body. -/
theorem readBody_open (env : Environment) (success : Bool) (reading : Reading) {s : Stream}
    (h : Open files directory s) (size : UInt64) (errorBody : Bytes) :
    StillStaged files directory
        (readBody (writeChunk env directory) success reading s size errorBody).2.files ∧
      ∀ size' errorBody',
        (readBody (writeChunk env directory) success reading s size errorBody).1 =
            .ok (size', errorBody') → success = true →
          (readBody (writeChunk env directory) success reading s size errorBody).2.files =
              staged files directory payload (.file (s.written ++ reading.joined)) ∧
            size' = size + UInt64.ofNat reading.joined.length ∧ reading.Complete := by
  induction reading generalizing s size errorBody with
  | done =>
    refine ⟨⟨s.written, h.staged⟩, fun size' errorBody' hok _ => ?_⟩
    cases hok
    simp [readBody, Reading.joined, Reading.Complete, h.staged]
  | read bytes error rest ih =>
    obtain ⟨hkept, hgo⟩ := take_open hf env success bytes h size errorBody
    rw [readBody]
    split
    · rename_i e s' htake
      rw [htake] at hkept
      exact ⟨hkept, fun _ _ hok => by cases hok⟩
    · rename_i size1 errorBody1 s' htake
      rw [htake] at hkept hgo
      obtain ⟨hopen, hbytes⟩ := hgo size1 errorBody1 rfl
      split
      · exact ⟨hkept, fun _ _ hok => by cases hok⟩
      · rename_i hbenign
        obtain ⟨hrest, hdone⟩ := ih hopen size1 errorBody1
        refine ⟨hrest, fun size' errorBody' hok hsuccess => ?_⟩
        obtain ⟨hfiles, hsize, hcomplete⟩ := hdone size' errorBody' hok hsuccess
        obtain ⟨hwritten, hsize1⟩ := hbytes hsuccess
        refine ⟨?_, ?_, fun message heq => hbenign message heq, hcomplete⟩
        · rw [hfiles, hwritten, Reading.joined, List.append_assoc]
        · rw [hsize, hsize1, Reading.joined, List.length_append, UInt64.ofNat_add, UInt64.add_assoc]

/-- Whatever the server does the area is kept; where the download succeeds it answered 200 with
a complete body, and the staging file holds that body. -/
theorem httpDownload_open (parse : Bytes → Option Json) (env : Environment) {s : Stream}
    (h : Open files directory s) (hempty : s.written = []) :
    StillStaged files directory
        (httpDownload parse (writeChunk env directory) env.server s).2.files ∧
      ∀ metadata, (httpDownload parse (writeChunk env directory) env.server s).1 = .ok metadata →
        ∃ response, env.server = .responds response ∧ response.status = 200 ∧
          response.body.Complete ∧
          metadata.byteSize = UInt64.ofNat response.body.joined.length ∧
          (httpDownload parse (writeChunk env directory) env.server s).2.files =
            staged files directory payload (.file response.body.joined) := by
  cases hserver : env.server with
  | broken what => exact ⟨⟨s.written, h.staged⟩, fun _ hok => by cases hok⟩
  | responds response =>
    obtain ⟨hkept, hbody⟩ := readBody_open hf env (response.status == 200) response.body h 0 []
    unfold httpDownload
    dsimp only
    split
    · rename_i e s' hread
      rw [hread] at hkept
      exact ⟨hkept, fun _ hok => by cases hok⟩
    · rename_i size errorBody s' hread
      rw [hread] at hkept hbody
      split
      · rename_i hstatus
        refine ⟨hkept, fun metadata hok => ?_⟩
        obtain ⟨hfiles, hsize, hcomplete⟩ := hbody size errorBody rfl hstatus
        cases hok
        refine ⟨response, rfl, beq_iff_eq.mp hstatus, hcomplete, ?_, ?_⟩
        · rw [hsize, UInt64.zero_add]
        · rw [hfiles, hempty, List.nil_append]
      · exact ⟨hkept, fun _ hok => by cases hok⟩

theorem StillStaged.destroyed {after : Files} (h : StillStaged files directory after) :
    destroyStaged directory after = files := by
  obtain ⟨content, rfl⟩ := h
  exact discard_staged hf content

/-- What a transfer leaves is gone after the destructor, and where it succeeds the output has
the body. -/
theorem transfer_destroyed (parse : Bytes → Option Json) (env : Environment) {output : Path}
    (hsize : output.length = directory.length) :
    (∃ e, (transfer parse env directory output (files ++ [(directory, .directory)])).1 = .error e ∧
        destroyStaged directory
          (transfer parse env directory output (files ++ [(directory, .directory)])).2 = files) ∨
      ∃ metadata response,
        (transfer parse env directory output (files ++ [(directory, .directory)])).1 =
            .ok metadata ∧
          env.server = .responds response ∧ response.status = 200 ∧ response.body.Complete ∧
          metadata.byteSize = UInt64.ofNat response.body.joined.length ∧ output ≠ directory ∧
          destroyStaged directory
              (transfer parse env directory output (files ++ [(directory, .directory)])).2 =
            Assoc.set output (.file response.body.joined) files := by
  have hopened :
      Assoc.set (directory ++ [payload]) (.file []) (files ++ [(directory, .directory)]) =
        staged files directory payload (.file []) := set_file hf _
  unfold transfer
  split
  · exact .inl ⟨_, rfl, discard_made hf payload⟩
  · rw [hopened]
    dsimp only
    have hstart : StillStaged files directory (staged files directory payload (.file [])) :=
      ⟨[], rfl⟩
    split
    · exact .inl ⟨_, rfl, hstart.destroyed hf⟩
    · obtain ⟨hkept, hdone⟩ := httpDownload_open hf parse env
        (s := { files := staged files directory payload (.file []) }) ⟨rfl⟩ rfl
      split
      · rename_i e s hdownload
        rw [hdownload] at hkept
        exact .inl ⟨_, rfl, hkept.destroyed hf⟩
      · rename_i metadata s hdownload
        rw [hdownload] at hkept hdone
        obtain ⟨response, hserver, hstatus, hcomplete, hbytes, hfiles⟩ := hdone metadata rfl
        dsimp only at hfiles
        split
        · rename_i left hclose
          have hleft : StillStaged files directory
              (Assoc.set (directory ++ [payload]) (.file left) s.files) := by
            refine ⟨left, ?_⟩
            rw [hfiles]
            exact write_file hf _ _
          exact .inl ⟨_, rfl, hleft.destroyed hf⟩
        · split
          · exact .inl ⟨_, rfl, hkept.destroyed hf⟩
          · rename_i committed hcommit
            split at hcommit
            · cases hcommit
            · rw [hfiles] at hcommit
              exact .inr ⟨metadata, response, rfl, hserver, hstatus, hcomplete, hbytes,
                target_ne_dir hf hcommit, publish_staged hf hsize hcommit⟩

end Steps

/-- The staging directory is made in a file tree where nothing of it was, or nothing is
changed. -/
theorem openStaged_made {files : Files} (h : WellFormed files) (env : Environment)
    (output : Path) :
    (∃ e, openStaged env files output = (.error e, files)) ∨
      openStaged env files output =
          (.ok (stagingDirectory env output),
            files ++ [(stagingDirectory env output, .directory)]) ∧
        Fresh files (stagingDirectory env output) ∧
        output.length = (stagingDirectory env output).length := by
  unfold openStaged
  split
  · exact .inl ⟨_, rfl⟩
  · split
    · exact .inl ⟨_, rfl⟩
    · rename_i hfile
      have hnil : output ≠ [] := by
        rintro rfl
        exact hfile rfl
      have hpos : 0 < output.length := List.length_pos_iff.mpr hnil
      have hlength : output.length = (stagingDirectory env output).length := by
        rw [stagingDirectory, List.length_append, List.length_dropLast, List.length_singleton]
        omega
      dsimp only
      split
      · split
        · exact .inl ⟨_, rfl⟩
        · exact .inl ⟨_, rfl⟩
      · rename_i made hcreate
        have habsent : files.lookup (stagingDirectory env output) = none ∧
            made = files ++ [(stagingDirectory env output, .directory)] := by
          split at hcreate
          · cases hcreate
          · rw [createDirectory] at hcreate
            split at hcreate
            · rename_i hroom
              rw [Bool.and_eq_true, Option.isNone_iff_eq_none] at hroom
              cases hcreate
              exact ⟨hroom.1, set_new hroom.1 _⟩
            · cases hcreate
        obtain ⟨habsent, rfl⟩ := habsent
        have hfresh : Fresh files (stagingDirectory env output) := by
          refine ⟨habsent, h.none_below habsent ?_⟩
          simp [stagingDirectory]
        split
        · rw [remove_made hfresh]
          exact .inl ⟨_, rfl⟩
        · exact .inr ⟨rfl, hfresh, hlength⟩

/-- A download that fails leaves every file as it was, the staging area gone with it; one that
succeeds changes the output alone, to the whole body of an answer with status 200. -/
theorem downloadToFile_atomic (parse : Bytes → Option Json) (env : Environment) {files : Files}
    (h : WellFormed files) (output : Path) :
    match downloadToFile parse env files output with
    | (.error _, after) => after = files
    | (.ok metadata, after) =>
      ∃ response, env.server = .responds response ∧ response.status = 200 ∧
        response.body.Complete ∧ metadata.byteSize = UInt64.ofNat response.body.joined.length ∧
        after = Assoc.set output (.file response.body.joined) files ∧
        after.lookup output = some (.file response.body.joined) ∧
        ∀ e ∈ after, ¬ stagingDirectory env output <+: e.1 := by
  rcases openStaged_made h env output with ⟨e, hfailed⟩ | ⟨hmade, hfresh, hsize⟩
  · simp only [downloadToFile, hfailed]
  · simp only [downloadToFile, hmade]
    rcases transfer_destroyed hfresh parse env hsize with
      ⟨e, hfailed, hgone⟩ |
        ⟨metadata, response, hdone, hserver, hstatus, hcomplete, hbytes, hother, hafter⟩
    · rw [hfailed]
      exact hgone
    · rw [hdone, hafter]
      refine ⟨response, hserver, hstatus, hcomplete, hbytes, rfl, Assoc.lookup_set_self .., ?_⟩
      intro e he hpre
      rcases mem_set he with rfl | hold
      · exact hother (hpre.eq_of_length hsize.symm).symm
      · exact hfresh.none_below e hold hpre

theorem downloadToFile_atomic_chunks :
    match downloadToFile (fun _ => none)
      { uuid := ascii "u"
        server := .responds
          { status := 200
            body := .read (ascii "a") (some .needBuffer) (.read (ascii "b") none .done) } }
      [([ascii "out"], .file (ascii "old"))] [ascii "out"] with
    | (.error _, _) => False
    | (.ok metadata, after) =>
      metadata.byteSize = 2 ∧ after = [([ascii "out"], .file (ascii "ab"))] := by
  have hwell : WellFormed ([([ascii "out"], .file (ascii "old"))] : Files) := by
    refine ⟨List.nodup_singleton _, ?_⟩
    intro p hp q hnil hpre hne
    rw [List.map_singleton, List.mem_singleton] at hp
    obtain ⟨rest, rfl⟩ : ∃ rest, p = q ++ rest := by
      obtain ⟨rest, hrest⟩ := hpre
      exact ⟨rest, hrest.symm⟩
    cases q with
    | nil => exact (hnil rfl).elim
    | cons first q =>
      have htail : q ++ rest = [] := (List.cons.inj hp).2
      obtain ⟨rfl, rfl⟩ := List.append_eq_nil_iff.mp htail
      exact (hne rfl).elim
  have hatomic := downloadToFile_atomic (fun _ => none)
    { uuid := ascii "u"
      server := .responds
        { status := 200
          body := .read (ascii "a") (some .needBuffer) (.read (ascii "b") none .done) } }
    hwell [ascii "out"]
  have hchanged : (downloadToFile (fun _ => none)
      { uuid := ascii "u"
        server := .responds
          { status := 200
            body := .read (ascii "a") (some .needBuffer) (.read (ascii "b") none .done) } }
      [([ascii "out"], .file (ascii "old"))] [ascii "out"]).2 ≠
        [([ascii "out"], .file (ascii "old"))] := by decide +kernel
  revert hatomic hchanged
  generalize downloadToFile (fun _ => none) _ _ _ = result
  obtain ⟨outcome, after⟩ := result
  cases outcome with
  | error e => exact fun hsame hchanged => (hchanged hsame).elim
  | ok metadata =>
    rintro ⟨response, hserver, _, _, hbytes, hafter, _⟩ _
    cases hserver
    exact ⟨hbytes, hafter⟩

end Downloads

end HolderDaemon
