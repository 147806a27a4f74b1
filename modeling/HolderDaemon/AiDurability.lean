import HolderDaemon.Json
import HolderDaemon.Rows

/-!
Durable AI state (`ai/AiThreadStateDurability.cpp`, `ai/AiThreadDurability.cpp`,
`ai/AiNudgeDurability.cpp`, `ai/AiNudgeRepo.cpp`): the files that the daemon keeps beside a
project's cards, the operations that write them, and the reading of them into a database that
has been rebuilt from the project directories.

A file's text is kept as the JSON value it is the dump of, alone or sealed by
`encrypt_project_blob`.
-/

set_option autoImplicit false

open Bytes

namespace HolderDaemon

namespace AiDurability

inductive PrivacyMode where
  | plain | encryptedGit
  deriving DecidableEq, Repr

inductive Blob where
  | plain (doc : Json)
  | encrypted (projectId keyId : Bytes) (doc : Json)

abbrev Path := List Bytes

abbrev Files := List (Path × Blob)

structure Thread where
  threadId : Text
  projectId : Text
  cardId : Option Text
  title : Text
  createdAt : Int64
  updatedAt : Int64
  deriving DecidableEq

/-- A row of the projects table with the directory at its `root_path`. -/
structure Project where
  privacyMode : PrivacyMode
  projectKeyId : Option Bytes
  manifest : Bool
  threadManifests : List Thread := []
  files : Files := []

/-- `holder::fs::write_file` at a path relative to the project's root. -/
def Project.writeFile (p : Project) (path : Path) (raw : Blob) : Project :=
  { p with files := Rows.write Prod.fst (path, raw) p.files }

structure ThreadCompactionState where
  threadId : Text
  rollingSummary : Option Bytes
  pinnedFactsJson : Option Bytes
  lastCompactedMessageId : Option Bytes
  updatedAt : Int64
  deriving DecidableEq

structure StateRow where
  threadId : Text
  rollingSummary : Option Text
  pinnedFactsJson : Option Text
  lastCompactedMessageId : Option Text
  updatedAt : Int64
  deriving DecidableEq

def ThreadCompactionState.row (s : ThreadCompactionState) : StateRow where
  threadId := s.threadId
  rollingSummary := s.rollingSummary.map cString
  pinnedFactsJson := s.pinnedFactsJson.map cString
  lastCompactedMessageId := s.lastCompactedMessageId.map cString
  updatedAt := s.updatedAt

@[simp] theorem ThreadCompactionState.row_threadId (s : ThreadCompactionState) :
    s.row.threadId = s.threadId := rfl

/-- A row of `ai_nudges`. Its `meta_json` is kept as the value it is the dump of. -/
structure Nudge where
  nudgeId : Text
  kind : Text
  projectId : Text
  cardId : Option Text
  title : Text
  body : Text
  metaJson : Json
  basisFingerprint : Option Text
  basisCommit : Option Text
  createdAt : Int64
  dismissedAt : Option Int64

/-! Encoding -/

def optionalString : Option Bytes → Json
  | none => .null
  | some s => .str s

/-- The body that `encode` dumps for a compaction state. -/
def stateJson (s : ThreadCompactionState) : Json :=
  .object [
    (ascii "version", .int 1),
    (ascii "thread_id", .str s.threadId.val),
    (ascii "rolling_summary", optionalString s.rollingSummary),
    (ascii "pinned_facts_json", optionalString s.pinnedFactsJson),
    (ascii "last_compacted_message_id", optionalString s.lastCompactedMessageId),
    (ascii "updated_at", .int s.updatedAt.toInt)]

/-- `as_json` of a dismissed nudge. -/
def nudgeJson (n : Nudge) (dismissedAt : Int64) : Json :=
  .object [
    (ascii "version", .int 1),
    (ascii "nudge_id", .str n.nudgeId.val),
    (ascii "kind", .str n.kind.val),
    (ascii "project_id", .str n.projectId.val),
    (ascii "card_id", optionalString (n.cardId.map Text.val)),
    (ascii "title", .str n.title.val),
    (ascii "body", .str n.body.val),
    (ascii "meta_json", n.metaJson),
    (ascii "basis_fingerprint", optionalString (n.basisFingerprint.map Text.val)),
    (ascii "basis_commit", optionalString (n.basisCommit.map Text.val)),
    (ascii "created_at", .int n.createdAt.toInt),
    (ascii "dismissed_at", .int dismissedAt.toInt)]

/-- `encode` after its body is built; none where it throws. -/
def encode (projectId : Text) (p : Project) (doc : Json) : Option Blob :=
  if !doc.encodable then none
  else
    match p.privacyMode with
    | .plain => some (.plain doc)
    | .encryptedGit =>
      match p.projectKeyId with
      | none => none
      | some keyId => if keyId = [] then none else some (.encrypted projectId.val keyId doc)

/-- `decode` up to the parsed body. -/
def decode (projectId : Text) (p : Project) (noKey : String) (raw : Blob) : Except Bytes Json :=
  match p.privacyMode with
  | .plain =>
    match raw with
    | .plain doc => .ok doc
    | .encrypted _ _ _ => .error (ascii "[json.exception.parse_error.101] parse error")
  | .encryptedGit =>
    match p.projectKeyId with
    | none => .error (ascii noKey)
    | some keyId =>
      if keyId = [] then .error (ascii noKey)
      else
        match raw with
        | .encrypted sealedFor sealedBy doc =>
          if sealedFor = projectId.val ∧ sealedBy = keyId then .ok doc
          else .error (ascii "decryption failed")
        | .plain _ => .error (ascii "decryption failed")

/-- `contains(key) && !at(key).is_null()` and then `get<std::string>()`. -/
def givenString (body : Json) (key : String) : Except Bytes (Option Bytes) :=
  match body.field? (ascii key) with
  | none => .ok none
  | some .null => .ok none
  | some j => j.getString.map some

/-- `at(key)`, read as a string where it is not null. -/
def nullableString (body : Json) (key : String) : Except Bytes (Option Bytes) := do
  match ← body.atKey key with
  | .null => .ok none
  | j => j.getString.map some

def isVersionOne (body : Json) : Bool :=
  match body.field? (ascii "version") with
  | some (.int 1) => true
  | _ => false

/-- `decode` of a state's body; the identifier is not yet a row's. -/
def stateOfJson (body : Json) : Except Bytes (Bytes × StateRow) := do
  if !isVersionOne body then .error (ascii "unsupported AI thread state version")
  else
    let threadId ← (← body.atKey "thread_id").getString
    let rollingSummary ← givenString body "rolling_summary"
    let pinnedFactsJson ← givenString body "pinned_facts_json"
    let lastCompactedMessageId ← givenString body "last_compacted_message_id"
    let updatedAt ← (← body.atKey "updated_at").getInt64
    if threadId = [] then .error (ascii "AI thread state has no thread_id")
    else
      .ok (threadId, ⟨cString threadId, rollingSummary.map cString, pinnedFactsJson.map cString,
        lastCompactedMessageId.map cString, updatedAt⟩)

/-- `from_json` of a dismissed nudge; the identifiers are not yet a row's. -/
def nudgeOfJson (body : Json) : Except Bytes (Bytes × Bytes × Nudge) := do
  if !isVersionOne body then .error (ascii "unsupported AI nudge dismissal version")
  else
    let nudgeId ← (← body.atKey "nudge_id").getString
    let kind ← (← body.atKey "kind").getString
    let projectId ← (← body.atKey "project_id").getString
    let cardId ← nullableString body "card_id"
    let title ← (← body.atKey "title").getString
    let text ← (← body.atKey "body").getString
    let metaJson ← body.atKey "meta_json"
    let basisFingerprint ← nullableString body "basis_fingerprint"
    let basisCommit ← nullableString body "basis_commit"
    let createdAt ← (← body.atKey "created_at").getInt64
    let dismissedAt ← (← body.atKey "dismissed_at").getInt64
    if nudgeId = [] ∨ kind = [] ∨ projectId = [] ∨ dismissedAt ≤ 0 then
      .error (ascii "invalid AI nudge dismissal")
    else
      .ok (nudgeId, projectId,
        { nudgeId := cString nudgeId, kind := cString kind, projectId := cString projectId,
          cardId := cardId.map cString, title := cString title, body := cString text, metaJson,
          basisFingerprint := basisFingerprint.map cString,
          basisCommit := basisCommit.map cString, createdAt, dismissedAt := some dismissedAt })

/-! Paths -/

def splitSlash (s : Bytes) : Path := s.splitOn 47

/-- The components of a path relative to the project's root, `.` and `..` taken away; none
where it leaves the root. -/
def normalize : List Bytes → Path → Option Path
  | [], stack => some stack.reverse
  | part :: parts, stack =>
    if part = [] ∨ part = ascii "." then normalize parts stack
    else if part = ascii ".." then
      match stack with
      | [] => none
      | _ :: rest => normalize parts rest
    else normalize parts (part :: stack)

/-- `relative_path` under one of the two roots; none where it throws, or where a part of the
identifier is an absolute path. -/
def relativePath (root : String) (id : Text) : Option Path :=
  let first := id.val.take 2
  let second := (id.val.drop 2).take 2
  if id.val.length < 4 then none
  else if first.head? = some 47 ∨ second.head? = some 47 then none
  else
    normalize (ascii root :: splitSlash first ++ splitSlash second ++
      splitSlash (id.val ++ ascii ".json")) []

def statePath (id : Text) : Option Path := relativePath "ai_thread_state" id

def nudgePath (id : Text) : Option Path := relativePath "ai_nudge_dismissals" id

/-- The iteration over a root takes up this file. -/
def listed (root : String) (path : Path) : Bool :=
  path.head? = some (ascii root) && 1 < path.length &&
    match path.getLast? with
    | none => false
    | some name => (ascii ".json").isSuffixOf name && 5 < name.length

/-! Nudges of a candidate -/

inductive NudgeKind where
  | titleOnly | stuckDrafting | pushFailedRepeated | titleSuggestion
  deriving DecidableEq, Repr

def NudgeKind.text : NudgeKind → Bytes
  | .titleOnly => ascii "card.title_only"
  | .stuckDrafting => ascii "card.stuck_drafting"
  | .pushFailedRepeated => ascii "git.push_failed_repeated"
  | .titleSuggestion => ascii "card.title_suggestion"

def buildNudgeTitle : NudgeKind → Bytes
  | .titleOnly => ascii "Start this card"
  | .stuckDrafting => ascii "Unstick this draft"
  | .pushFailedRepeated => ascii "Fix git push"
  | .titleSuggestion => ascii "Suggest a title"

/-- A candidate of a kind that `evaluate_candidate` accepts. -/
structure NudgeCandidateInput where
  kind : NudgeKind
  projectId : Bytes
  cardId : Option Bytes
  createdAt : Int64
  basisFingerprint : Option Bytes
  basisCommit : Option Bytes

def fnv1a (value : Bytes) : UInt64 :=
  value.foldl (fun hash b => (hash ^^^ b.toUInt64) * 1099511628211) 1469598103934665603

/-- Sixteen hexadecimal digits. -/
def hexText (hash : UInt64) : Bytes :=
  (List.range 16).map fun i => Json.hexDigit (hash.toNat / 16 ^ (15 - i) % 16)

def buildNudgeId (input : NudgeCandidateInput) : Bytes :=
  ascii "nudge-" ++ hexText (fnv1a (input.kind.text ++ [10] ++ input.projectId ++ [10] ++
    input.cardId.getD [] ++ [10] ++ input.basisFingerprint.getD [] ++ [10] ++
    input.basisCommit.getD []))

/-- The row that `create_or_get` inserts. -/
def NudgeCandidateInput.nudge (input : NudgeCandidateInput) (text : Bytes) (metaJson : Json) :
    Nudge where
  nudgeId := cString (buildNudgeId input)
  kind := cString input.kind.text
  projectId := cString input.projectId
  cardId := input.cardId.map cString
  title := cString (buildNudgeTitle input.kind)
  body := cString text
  metaJson := metaJson
  basisFingerprint := input.basisFingerprint.map cString
  basisCommit := input.basisCommit.map cString
  createdAt := input.createdAt
  dismissedAt := none

/-! The daemon's state, and its operations -/

structure State where
  projectIds : List Text
  project : Text → Project
  threads : List Thread := []
  states : List StateRow := []
  nudges : List Nudge := []

namespace State

def update (t : State) (projectId : Text) (p : Project) : State :=
  { t with project := Function.update t.project projectId p }

/-- `persist_ai_thread`: the manifest is written over. -/
def persistAiThread (t : State) (thread : Thread) : Option State :=
  if thread.projectId ∈ t.projectIds then
    let p := t.project thread.projectId
    some (t.update thread.projectId
      { p with threadManifests := Rows.write Thread.threadId thread p.threadManifests })
  else none

def createThread (t : State) (thread : Thread) : Option State :=
  if (Rows.get Thread.threadId thread.threadId t.threads).isSome then none
  else persistAiThread { t with threads := Rows.put Thread.threadId thread t.threads } thread

/-- PATCH /ai/threads/{id}; `cardId` is none where the body has no such field. -/
def patchThread (t : State) (threadId : Text) (title : Option Text)
    (cardId : Option (Option Text)) (updatedAt : Int64) : Option State :=
  (Rows.get Thread.threadId threadId t.threads).bind fun thread =>
    let next := { thread with
      title := title.getD thread.title
      cardId := cardId.getD thread.cardId
      updatedAt := updatedAt }
    persistAiThread { t with threads := Rows.put Thread.threadId next t.threads } next

/-- DELETE /ai/threads/{id}: the manifest and the row; `cascade` tells whether the schema drops
the thread's state row with it. -/
def deleteThread (t : State) (threadId : Text) (cascade : Bool) : Option State :=
  (Rows.get Thread.threadId threadId t.threads).bind fun thread =>
    if thread.projectId ∈ t.projectIds then
      let p := t.project thread.projectId
      some { t.update thread.projectId
          { p with threadManifests := Rows.drop Thread.threadId threadId p.threadManifests } with
        threads := Rows.drop Thread.threadId threadId t.threads
        states := if cascade then Rows.drop StateRow.threadId threadId t.states else t.states }
    else none

/-- `persist_thread_compaction_state`; none where it throws. -/
def persistThreadCompactionState (t : State) (s : ThreadCompactionState) : Option State :=
  match Rows.get Thread.threadId s.threadId t.threads with
  | none => some t
  | some thread =>
    if thread.projectId ∈ t.projectIds then
      let p := t.project thread.projectId
      if !p.manifest then some t
      else do
        let path ← statePath s.threadId
        let raw ← encode thread.projectId p (stateJson s)
        some (t.update thread.projectId (p.writeFile path raw))
    else none

def upsertThreadCompactionState (t : State) (s : ThreadCompactionState) : Option State :=
  (t.persistThreadCompactionState s).map fun u =>
    { u with states := Rows.put StateRow.threadId s.row u.states }

/-- `persist_nudge_dismissal`; none where it throws. -/
def persistNudgeDismissal (t : State) (nudgeId : Text) : Option State :=
  match Rows.get Nudge.nudgeId nudgeId t.nudges with
  | none => some t
  | some n =>
    match n.dismissedAt with
    | none => some t
    | some dismissedAt =>
      if n.projectId ∈ t.projectIds then
        let p := t.project n.projectId
        if !p.manifest then some t
        else do
          let path ← nudgePath nudgeId
          let raw ← encode n.projectId p (nudgeJson n dismissedAt)
          some (t.update n.projectId (p.writeFile path raw))
      else none

/-- One row of `backfill_nudge_dismissals`. -/
def backfillNudge (t : State) (n : Nudge) : Option State :=
  if n.dismissedAt.isNone ∨ n.projectId ∉ t.projectIds then some t
  else do
    let path ← nudgePath n.nudgeId
    if (t.project n.projectId).files.any fun f => f.1 = path then some t
    else t.persistNudgeDismissal n.nudgeId

def backfillNudgeDismissals (t : State) : Option State := t.nudges.foldlM backfillNudge t

/-- POST /ai/nudges/{id}/dismiss, and what a listing does to a stale nudge. -/
def dismissNudge (t : State) (nudgeId : Text) (now : Int64) : Option State :=
  match Rows.get Nudge.nudgeId nudgeId t.nudges with
  | none => some t
  | some n =>
    if n.dismissedAt.isSome then some t
    else
      persistNudgeDismissal
        { t with nudges := Rows.put Nudge.nudgeId { n with dismissedAt := some now } t.nudges }
        nudgeId

/-- `(column IS NULL AND ? IS NULL) OR column = ?`, where none is SQL's NULL. -/
def sqlSame (column param : Option Text) : Option Bool :=
  match column, param with
  | none, none => some true
  | some a, some b => some (a = b)
  | _, _ => none

def sqlAnd : Option Bool → Option Bool → Option Bool
  | some false, _ => some false
  | _, some false => some false
  | some true, b => b
  | none, _ => none

def sameBasis (n m : Nudge) : Option Bool :=
  sqlAnd (sqlSame n.basisFingerprint m.basisFingerprint) (sqlSame n.basisCommit m.basisCommit)

/-- The rows that both statements select first: not dismissed, of one kind, project and card. -/
def sameSubject (n m : Nudge) : Bool :=
  n.dismissedAt.isNone && n.kind = m.kind && n.projectId = m.projectId &&
    sqlSame n.cardId m.cardId = some true

def dismissStaleVariants (t : State) (n : Nudge) (now : Int64) : Option State :=
  backfillNudgeDismissals
    { t with
      nudges := t.nudges.map fun m =>
        if sameSubject m n && (sameBasis m n).map not = some true then
          { m with dismissedAt := some now }
        else m }

/-- `evaluate_and_record` of an accepted candidate: `shouldNudge` is what the candidate's facts
say, and `text` and `metaJson` are what the runner made of them. -/
def recordNudge (t : State) (input : NudgeCandidateInput) (shouldNudge : Bool) (text : Bytes)
    (metaJson : Json) (now : Int64) : Option State :=
  let n := input.nudge text metaJson
  if n.projectId ∉ t.projectIds ∨ !metaJson.encodable then none
  else if !shouldNudge then some t
  else if t.nudges.any fun m => sameSubject m n && sameBasis m n = some true then some t
  else
    (t.dismissStaleVariants n now).map fun u =>
      if (Rows.get Nudge.nudgeId n.nudgeId u.nudges).isSome then u
      else { u with nudges := Rows.put Nudge.nudgeId n u.nudges }

/-- PATCH of `privacy_mode`; an encrypted project without a key gets one. -/
def patchPrivacyMode (t : State) (projectId : Text) (mode : PrivacyMode) (newKey : Bytes) :
    Option State :=
  if projectId ∈ t.projectIds then
    let p := t.project projectId
    let keyId :=
      if mode = .encryptedGit ∧ (p.projectKeyId.getD [] = []) then some newKey
      else p.projectKeyId
    some (t.update projectId { p with privacyMode := mode, projectKeyId := keyId })
  else none

end State

/-- The operations that succeed, each with what it takes from outside. -/
inductive Step where
  | createThread (thread : Thread)
  | patchThread (threadId : Text) (title : Option Text) (cardId : Option (Option Text))
      (updatedAt : Int64)
  | deleteThread (threadId : Text) (cascade : Bool)
  | updateState (state : ThreadCompactionState)
  | recordNudge (input : NudgeCandidateInput) (shouldNudge : Bool) (text : Bytes)
      (metaJson : Json) (now : Int64)
  | dismissNudge (nudgeId : Text) (now : Int64)
  | patchPrivacyMode (projectId : Text) (mode : PrivacyMode) (newKey : Bytes)

/-- The clock stands after 1970. -/
def State.step (t : State) : Step → Option State
  | .createThread thread => t.createThread thread
  | .patchThread threadId title cardId updatedAt => t.patchThread threadId title cardId updatedAt
  | .deleteThread threadId cascade => t.deleteThread threadId cascade
  | .updateState state => t.upsertThreadCompactionState state
  | .recordNudge input shouldNudge text metaJson now =>
    if 0 < now then t.recordNudge input shouldNudge text metaJson now else none
  | .dismissNudge nudgeId now => if 0 < now then t.dismissNudge nudgeId now else none
  | .patchPrivacyMode projectId mode newKey => t.patchPrivacyMode projectId mode newKey

/-! Recovery -/

structure Database where
  threads : List Thread
  states : List StateRow := []
  nudges : List Nudge := []

/-- The projects that the rebuilt database holds. -/
def rebuiltProjects (t : State) : List Text := t.projectIds.filter fun id => (t.project id).manifest

def rebuilt (t : State) : Database where
  threads := (rebuiltProjects t).flatMap fun id => (t.project id).threadManifests

/-- One file of `restore_thread_compaction_states`. -/
def restoreThreadState (projectId : Text) (p : Project) (db : Database) (file : Path × Blob) :
    Except Bytes Database :=
  if !listed "ai_thread_state" file.1 then .ok db
  else do
    let body ← decode projectId p "encrypted project has no key for AI thread state" file.2
    let (threadId, row) ← stateOfJson body
    if file.1.getLast? ≠ some (threadId ++ ascii ".json") then
      .error (ascii "AI thread state path does not match thread_id")
    else
      match Rows.get Thread.threadId (cString threadId) db.threads with
      | none => .error (ascii "AI thread state references an unknown thread")
      | some thread =>
        if thread.projectId ≠ projectId then
          .error (ascii "AI thread state references an unknown thread")
        else .ok { db with states := Rows.put StateRow.threadId row db.states }

/-- One file of `restore_nudge_dismissals`. -/
def restoreNudge (projectId : Text) (p : Project) (db : Database) (file : Path × Blob) :
    Except Bytes Database :=
  if !listed "ai_nudge_dismissals" file.1 then .ok db
  else do
    let body ← decode projectId p "encrypted project has no key for AI nudge dismissal" file.2
    let (nudgeId, owner, row) ← nudgeOfJson body
    if owner ≠ projectId.val ∨ file.1.getLast? ≠ some (nudgeId ++ ascii ".json") then
      .error (ascii "nudge dismissal path or project mismatch")
    else .ok { db with nudges := Rows.put Nudge.nudgeId row db.nudges }

/-- Both restore functions on the rebuilt database. `listing` is the order in which the
iteration over a project's directory comes upon its files. -/
def recover (t : State) (listing : Text → Files) : Except Bytes Database := do
  let db ← (rebuiltProjects t).foldlM
    (fun db id => (listing id).foldlM (restoreThreadState id (t.project id)) db) (rebuilt t)
  (rebuiltProjects t).foldlM
    (fun db id => (listing id).foldlM (restoreNudge id (t.project id)) db) db

end AiDurability

end HolderDaemon
