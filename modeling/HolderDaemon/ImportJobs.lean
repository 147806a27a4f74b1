import HolderDaemon.Assoc
import HolderDaemon.Machine
import HolderDaemon.ServerInfoFile

/-!
Imports of files: the job table and the threads of `POST /imports` and `GET /imports/<id>`
(`api/routes/AiResourceRoutes.cpp`), and the command that starts an import and polls its job
(`cli/commands/resource.cpp`).
-/

set_option autoImplicit false

open Bytes

namespace HolderDaemon

namespace ImportJobs

open Json ServerInfoFile

structure ImportRequest where
  projectId : Bytes
  cardId : Bytes
  locationId : Bytes
  sourcePath : Bytes
  deriving DecidableEq

structure ImportJob where
  jobId : Bytes
  status : Bytes := ascii "queued"
  resourceId : Bytes := []
  assetId : Bytes := []
  duplicateReused : Bool := false
  linkCreated : Bool := false
  error : Bytes := []
  deriving DecidableEq

inductive AssetImportStage where
  | staging
  | storing
  | committing
  deriving DecidableEq

structure AssetImportResult where
  resourceId : Bytes
  assetId : Bytes
  duplicateReused : Bool
  linkCreated : Bool
  deriving DecidableEq

/-- How `import_file` ended: with a result, or by throwing an exception with or without a text. -/
inductive Ending where
  | completed (result : AssetImportResult)
  | threw (what : Bytes)
  | unknown
  deriving DecidableEq

abbrev Jobs := List (Bytes × ImportJob)

def textOrNull (text : Bytes) : Json := if text = [] then .null else .str text

def importJobJson (job : ImportJob) : Json :=
  .object
    [(ascii "job_id", .str job.jobId), (ascii "status", .str job.status),
      (ascii "resource_id", textOrNull job.resourceId),
      (ascii "asset_id", textOrNull job.assetId),
      (ascii "duplicate_reused", .bool job.duplicateReused),
      (ascii "link_created", .bool job.linkCreated), (ascii "error", textOrNull job.error)]

def modifyJob (jobs : Jobs) (jobId : Bytes) (f : ImportJob → ImportJob) : Jobs :=
  match jobs.lookup jobId with
  | none => jobs
  | some job => Assoc.set jobId (f job) jobs

def updateImportJob (jobs : Jobs) (jobId status error : Bytes) : Jobs :=
  modifyJob jobs jobId fun job => { job with status, error }

def stageText : AssetImportStage → Bytes
  | .staging => ascii "staging"
  | .storing => ascii "storing"
  | .committing => ascii "committing"

/-- The thread's last write. -/
def endImportJob (jobs : Jobs) (jobId : Bytes) : Ending → Jobs
  | .completed result =>
    modifyJob jobs jobId fun job =>
      { job with
        status := ascii "completed", resourceId := result.resourceId, assetId := result.assetId,
        duplicateReused := result.duplicateReused, linkCreated := result.linkCreated }
  | .threw what => updateImportJob jobs jobId (ascii "failed") what
  | .unknown => updateImportJob jobs jobId (ascii "failed") (ascii "unknown asset import error")

/-! The request -/

/-- What the checks of a request find. -/
structure Checks where
  services : Bool
  isRegularFile : Bytes → Bool
  locationProject : Bytes → Option Bytes
  bound : Bytes → Bytes → Bool

def readRequest (body : Json) : Except Bytes ImportRequest := do
  let projectId ← (← body.atKey "project_id").getString
  let cardId ← (← body.atKey "card_id").getString
  let locationId ← (← body.atKey "location_id").getString
  let sourcePath ← (← body.atKey "source_path").getString
  return ⟨projectId, cardId, locationId, sourcePath⟩

def checkRequest (w : Checks) (body : Json) : Except Bytes ImportRequest :=
  if w.services = false then .error (ascii "asset import services unavailable")
  else do
    let request ← readRequest body
    if w.isRegularFile request.sourcePath = false then
      .error (ascii "asset source must be a readable regular file")
    else if w.locationProject request.locationId ≠ some request.projectId then
      .error (ascii "storage location not found in project")
    else if w.bound request.projectId request.locationId = false then
      .error (ascii "storage location configuration required")
    else return request

def ImportRequest.body (request : ImportRequest) : Json :=
  .object
    [(ascii "project_id", .str request.projectId), (ascii "card_id", .str request.cardId),
      (ascii "location_id", .str request.locationId),
      (ascii "source_path", .str request.sourcePath)]

/-! The command -/

inductive Command where
  | idle
  | waiting (request : ImportRequest) (jobId : Bytes) (attempts : Nat)
  | attached (request : ImportRequest) (resourceId : Bytes) (existing : Bool)
  | failed (request : ImportRequest) (error : Bytes)
  | gaveUp (request : ImportRequest)
  | threw (request : ImportRequest)
  deriving DecidableEq

/-- What a poll makes of the job that it is shown. -/
def readJob (request : ImportRequest) (jobId : Bytes) (attempts : Nat) (job : Json) :
    Except Bytes Command := do
  let status ← jsonString job "status" []
  if status = ascii "completed" then
    let resourceId ← jsonString job "resource_id" []
    let existing ← (job.value (ascii "duplicate_reused") (.bool false)).getBoolean
    return .attached request resourceId existing
  else if status = ascii "failed" then
    let error ← jsonString job "error" []
    return .failed request error
  else return .waiting request jobId attempts

/-! Commands, the daemon and the threads of its imports -/

section Steps
variable {γ : Type} [DecidableEq γ]

/-- `started` and `endings` keep what a run did: the jobs that were entered, for which command,
and how imports ended. -/
structure State (γ : Type) where
  jobs : Jobs := []
  threads : List (Bytes × ImportRequest) := []
  commands : γ → Command
  started : List (Bytes × γ × ImportRequest) := []
  endings : List (Bytes × ImportRequest × Ending) := []

/-- `post` is told what the checks find, the id that is drawn, and whether the thread starts;
`lose` is an exchange that fails, `restart` a daemon that is started anew. -/
inductive Step (γ : Type) where
  | post (c : γ) (request : ImportRequest) (w : Checks) (uuid : Bytes) (starts : Bool)
  | progress (jobId : Bytes) (stage : AssetImportStage)
  | finish (jobId : Bytes) (ending : Ending)
  | poll (c : γ)
  | lose (c : γ)
  | restart

namespace State

def setCommand (s : State γ) (c : γ) (command : Command) : State γ :=
  { s with commands := Function.update s.commands c command }

/-- `POST /imports` and what the command makes of its answer. -/
def post (s : State γ) (c : γ) (request : ImportRequest) (w : Checks) (uuid : Bytes)
    (starts : Bool) : State γ :=
  match checkRequest w request.body with
  | .error _ => s.setCommand c (.threw request)
  | .ok admitted =>
    let entered : State γ :=
      { s with
        jobs := Assoc.set uuid { jobId := uuid } s.jobs
        started := (uuid, c, admitted) :: s.started }
    if starts then
      match jsonString (importJobJson { jobId := uuid }) "job_id" [] with
      | .ok jobId =>
        { entered with threads := (uuid, admitted) :: entered.threads }.setCommand c
          (if jobId = [] then .threw request else .waiting request jobId 600)
      | .error _ => entered.setCommand c (.threw request)
    else entered.setCommand c (.threw request)

/-- `GET /imports/<id>`; none where there is no such job, or it cannot be written. -/
def getImport (s : State γ) (jobId : Bytes) : Option Json :=
  match s.jobs.lookup jobId with
  | some job => if (importJobJson job).encodable then some (importJobJson job) else none
  | none => none

def polled (s : State γ) (request : ImportRequest) (jobId : Bytes) (attempts : Nat) : Command :=
  match s.getImport jobId with
  | none => .threw request
  | some job =>
    match readJob request jobId attempts job with
    | .ok command => command
    | .error _ => .threw request

def step (s : State γ) : Step γ → Option (State γ)
  | .post c request w uuid starts =>
    match s.commands c with
    | .idle => some (s.post c request w uuid starts)
    | _ => none
  | .progress jobId stage =>
    match s.threads.lookup jobId with
    | some _ => some { s with jobs := updateImportJob s.jobs jobId (stageText stage) [] }
    | none => none
  | .finish jobId ending =>
    match s.threads.lookup jobId with
    | some request =>
      some { s with
        jobs := endImportJob s.jobs jobId ending
        threads := Assoc.erase jobId s.threads
        endings := (jobId, request, ending) :: s.endings }
    | none => none
  | .poll c =>
    match s.commands c with
    | .waiting request jobId (attempts + 1) =>
      some (s.setCommand c (s.polled request jobId attempts))
    | .waiting request _ 0 => some (s.setCommand c (.gaveUp request))
    | _ => none
  | .lose c =>
    match s.commands c with
    | .waiting request _ _ => some (s.setCommand c (.threw request))
    | _ => none
  | .restart => some { s with jobs := [], threads := [] }

/-- The ids that are drawn are new. -/
def fresh (s : State γ) : Step γ → Prop
  | .post _ _ _ uuid _ => uuid ∉ s.started.map Prod.fst
  | _ => True

instance : ∀ (s : State γ) (l : Step γ), Decidable (s.fresh l)
  | s, .post _ _ _ uuid _ =>
    inferInstanceAs (Decidable (uuid ∉ s.started.map Prod.fst))
  | _, .progress .. | _, .finish .. | _, .poll _ | _, .lose _ | _, .restart => isTrue trivial

end State

/-! What is kept -/

/-- The job of an import that has ended. -/
def Ending.record (jobId : Bytes) : Ending → ImportJob
  | .completed result =>
    { jobId, status := ascii "completed", resourceId := result.resourceId,
      assetId := result.assetId, duplicateReused := result.duplicateReused,
      linkCreated := result.linkCreated }
  | .threw what => { jobId, status := ascii "failed", error := what }
  | .unknown => { jobId, status := ascii "failed", error := ascii "unknown asset import error" }

/-- What the command that asked for an import says of its end. -/
def Ending.told (request : ImportRequest) : Ending → Command
  | .completed result => .attached request result.resourceId result.duplicateReused
  | .threw what => .failed request what
  | .unknown => .failed request (ascii "unknown asset import error")

/-- The job of an import that goes on. -/
def Open (jobId : Bytes) (job : ImportJob) : Prop :=
  ∃ status, job = { jobId, status } ∧ status ≠ ascii "completed" ∧ status ≠ ascii "failed"

def Command.settled : Command → Bool
  | .attached .. | .failed .. => true
  | _ => false

theorem jsonString_object {fields : List (Bytes × Json)} {key : String} {text : Bytes}
    (h : fields.lookup (ascii key) = some (.str text)) :
    jsonString (.object fields) key [] = .ok text := by
  simp only [jsonString, field?_object, h, getString]

theorem jsonString_textOrNull {fields : List (Bytes × Json)} {key : String} {text : Bytes}
    (h : fields.lookup (ascii key) = some (textOrNull text)) :
    jsonString (.object fields) key [] = .ok text := by
  by_cases hempty : text = []
  · simp only [jsonString, field?_object, h, textOrNull, hempty, if_true]
  · exact jsonString_object (by rw [h, textOrNull, if_neg hempty])

theorem readRequest_body (request : ImportRequest) : readRequest request.body = .ok request := by
  have hproject : request.body.atKey "project_id" = .ok (.str request.projectId) :=
    atKey_object (by simp)
  have hcard : request.body.atKey "card_id" = .ok (.str request.cardId) :=
    atKey_object (by simp [List.lookup_cons])
  have hlocation : request.body.atKey "location_id" = .ok (.str request.locationId) :=
    atKey_object (by simp [List.lookup_cons])
  have hsource : request.body.atKey "source_path" = .ok (.str request.sourcePath) :=
    atKey_object (by simp [List.lookup_cons])
  simp only [readRequest, hproject, hcard, hlocation, hsource]
  rfl

/-- The daemon imports what the command asked for. -/
theorem checkRequest_body {w : Checks} {request admitted : ImportRequest}
    (h : checkRequest w request.body = .ok admitted) : admitted = request := by
  rw [checkRequest] at h
  split at h
  · cases h
  · rw [readRequest_body] at h
    simp only [bind, Except.bind] at h
    split at h
    · cases h
    · split at h
      · cases h
      · split at h
        · cases h
        · exact (Except.ok.inj h).symm

theorem jobId_entered (uuid : Bytes) :
    jsonString (importJobJson { jobId := uuid }) "job_id" [] = .ok uuid :=
  jsonString_object (by simp)

theorem status_importJobJson (job : ImportJob) :
    jsonString (importJobJson job) "status" [] = .ok job.status :=
  jsonString_object (by simp [List.lookup_cons])

theorem resourceId_importJobJson (job : ImportJob) :
    jsonString (importJobJson job) "resource_id" [] = .ok job.resourceId :=
  jsonString_textOrNull (by simp [List.lookup_cons])

theorem error_importJobJson (job : ImportJob) :
    jsonString (importJobJson job) "error" [] = .ok job.error :=
  jsonString_textOrNull (by simp [List.lookup_cons])

theorem existing_importJobJson (job : ImportJob) :
    ((importJobJson job).value (ascii "duplicate_reused") (.bool false)).getBoolean =
      .ok job.duplicateReused := by
  have hfield : (importJobJson job).field? (ascii "duplicate_reused") =
      some (.bool job.duplicateReused) := by
    rw [importJobJson, field?_object]
    simp [List.lookup_cons]
  rw [value, hfield]
  rfl

theorem failed_ne_completed : ascii "failed" ≠ ascii "completed" := by decide

theorem readJob_record (request : ImportRequest) (jobId : Bytes) (attempts : Nat)
    (ending : Ending) :
    readJob request jobId attempts (importJobJson (ending.record jobId)) =
      .ok (ending.told request) := by
  rw [readJob, status_importJobJson, resourceId_importJobJson, error_importJobJson,
    existing_importJobJson]
  cases ending with
  | completed result => rfl
  | threw what =>
    simp only [Ending.record, bind, Except.bind, if_neg failed_ne_completed, if_true]
    rfl
  | unknown =>
    simp only [Ending.record, bind, Except.bind, if_neg failed_ne_completed, if_true]
    rfl

theorem readJob_open {request : ImportRequest} {jobId : Bytes} {attempts : Nat}
    {job : ImportJob} (h : Open jobId job) :
    readJob request jobId attempts (importJobJson job) = .ok (.waiting request jobId attempts) := by
  obtain ⟨status, rfl, hcompleted, hfailed⟩ := h
  rw [readJob, status_importJobJson]
  simp only [bind, Except.bind, if_neg hcompleted, if_neg hfailed]
  rfl

theorem lookup_modifyJob (jobs : Jobs) (jobId k : Bytes) (f : ImportJob → ImportJob) :
    (modifyJob jobs jobId f).lookup k =
      if jobId = k then (jobs.lookup k).map f else jobs.lookup k := by
  rw [modifyJob]
  cases hlookup : jobs.lookup jobId with
  | none =>
    by_cases hk : jobId = k
    · rw [if_pos hk, ← hk, hlookup]
      rfl
    · rw [if_neg hk]
  | some job =>
    by_cases hk : jobId = k
    · rw [if_pos hk, ← hk, hlookup, Assoc.lookup_set_self]
      rfl
    · rw [if_neg hk, Assoc.lookup_set_ne hk]

/-- What the last write makes of the job of an import that went on. -/
theorem lookup_endImportJob {jobs : Jobs} {jobId : Bytes} {ending : Ending}
    (h : ∀ job, jobs.lookup jobId = some job → Open jobId job) (k : Bytes) :
    (endImportJob jobs jobId ending).lookup k =
      if jobId = k then (jobs.lookup k).map fun _ => ending.record k else jobs.lookup k := by
  have hwrite : ∀ f : ImportJob → ImportJob,
      (∀ status, f { jobId, status } = ending.record jobId) →
        (modifyJob jobs jobId f).lookup k =
          if jobId = k then (jobs.lookup k).map fun _ => ending.record k else jobs.lookup k := by
    intro f hf
    rw [lookup_modifyJob]
    split
    case isTrue hk =>
      subst hk
      refine Option.map_congr fun job hjob => ?_
      obtain ⟨status, rfl, _⟩ := h job hjob
      exact hf status
    case isFalse => rfl
  cases ending with
  | completed result => exact hwrite _ fun _ => rfl
  | threw what => exact hwrite _ fun _ => rfl
  | unknown => exact hwrite _ fun _ => rfl

/-- What holds of the jobs whatever the commands do. -/
structure State.Sound (s : State γ) : Prop where
  entered : ∀ id job, s.jobs.lookup id = some job → id ∈ s.started.map Prod.fst
  running : ∀ id request, s.threads.lookup id = some request →
    (∃ c, (id, c, request) ∈ s.started) ∧ id ∉ s.endings.map Prod.fst
  ended : ∀ id request ending, (id, request, ending) ∈ s.endings →
    ∃ c, (id, c, request) ∈ s.started
  told : ∀ id job, s.jobs.lookup id = some job →
    (∃ request ending, (id, request, ending) ∈ s.endings ∧ job = ending.record id) ∨
      (id ∉ s.endings.map Prod.fst ∧ Open id job)
  once : (s.endings.map Prod.fst).Nodup
  apart : (s.started.map Prod.fst).Nodup
  waits : ∀ c request id attempts, s.commands c = .waiting request id attempts →
    (id, c, request) ∈ s.started
  answers : ∀ c, (s.commands c).settled = true → ∃ id request ending,
    (id, c, request) ∈ s.started ∧ (id, request, ending) ∈ s.endings ∧
      s.commands c = ending.told request

omit [DecidableEq γ] in
theorem sound_start (commands : γ → Command) (h : ∀ c, commands c = .idle) :
    (State.mk [] [] commands [] []).Sound where
  entered _ _ hlookup := by cases hlookup
  running _ _ hlookup := by cases hlookup
  ended _ _ _ hmem := by cases hmem
  told _ _ hlookup := by cases hlookup
  once := List.nodup_nil
  apart := List.nodup_nil
  waits c _ _ _ hc := by cases (h c).symm.trans hc
  answers c hc := by
    have hidle : (State.mk [] [] commands [] [] : State γ).commands c = .idle := h c
    rw [hidle] at hc
    cases hc

namespace State.Sound

variable {s t : State γ}

theorem setCommand (h : s.Sound) {c : γ} {command : Command}
    (hwaits : ∀ request id attempts, command = .waiting request id attempts →
      (id, c, request) ∈ s.started)
    (hanswers : command.settled = true → ∃ id request ending,
      (id, c, request) ∈ s.started ∧ (id, request, ending) ∈ s.endings ∧
        command = ending.told request) : (s.setCommand c command).Sound where
  entered := h.entered
  running := h.running
  ended := h.ended
  told := h.told
  once := h.once
  apart := h.apart
  waits d request id attempts hd := by
    simp only [State.setCommand, Function.update_apply] at hd
    split at hd
    case isTrue hdc => exact hdc ▸ hwaits request id attempts hd
    case isFalse => exact h.waits d request id attempts hd
  answers d hd := by
    simp only [State.setCommand, Function.update_apply] at hd ⊢
    by_cases hdc : d = c
    · simp only [if_pos hdc] at hd ⊢
      exact hdc ▸ hanswers hd
    · simp only [if_neg hdc] at hd ⊢
      exact h.answers d hd

/-- A command that stops without an answer. -/
theorem stop (h : s.Sound) (c : γ) {command : Command} (hsettled : command.settled = false)
    (hwaits : ∀ request id attempts, command ≠ .waiting request id attempts) :
    (s.setCommand c command).Sound :=
  h.setCommand (fun request id attempts hc => absurd hc (hwaits request id attempts))
    fun hc => by simp [hsettled] at hc

omit [DecidableEq γ] in
/-- A new job. -/
theorem enter (h : s.Sound) {uuid : Bytes} (hnew : uuid ∉ s.started.map Prod.fst) (c : γ)
    (request : ImportRequest) :
    State.Sound { s with
      jobs := Assoc.set uuid { jobId := uuid } s.jobs
      started := (uuid, c, request) :: s.started } := by
  have hending : uuid ∉ s.endings.map Prod.fst := by
    intro hmem
    obtain ⟨⟨id, asked, ending⟩, hin, rfl⟩ := List.mem_map.mp hmem
    obtain ⟨d, hd⟩ := h.ended id asked ending hin
    exact hnew (List.mem_map.mpr ⟨_, hd, rfl⟩)
  constructor
  · intro id job hlookup
    by_cases hid : uuid = id
    · exact hid ▸ List.mem_cons_self
    · rw [Assoc.lookup_set_ne hid] at hlookup
      exact List.mem_cons_of_mem _ (h.entered id job hlookup)
  · intro id asked hlookup
    obtain ⟨⟨d, hd⟩, hopen⟩ := h.running id asked hlookup
    exact ⟨⟨d, List.mem_cons_of_mem _ hd⟩, hopen⟩
  · intro id asked ending hmem
    obtain ⟨d, hd⟩ := h.ended id asked ending hmem
    exact ⟨d, List.mem_cons_of_mem _ hd⟩
  · intro id job hlookup
    by_cases hid : uuid = id
    · subst hid
      rw [Assoc.lookup_set_self, Option.some.injEq] at hlookup
      exact .inr ⟨hending, ascii "queued", hlookup.symm, by decide, by decide⟩
    · rw [Assoc.lookup_set_ne hid] at hlookup
      exact h.told id job hlookup
  · exact h.once
  · exact List.nodup_cons.mpr ⟨hnew, h.apart⟩
  · intro d asked id attempts hd
    exact List.mem_cons_of_mem _ (h.waits d asked id attempts hd)
  · intro d hd
    obtain ⟨id, asked, ending, hstarted, hended, hcommand⟩ := h.answers d hd
    exact ⟨id, asked, ending, List.mem_cons_of_mem _ hstarted, hended, hcommand⟩

omit [DecidableEq γ] in
/-- The thread of a new job. -/
theorem spawn (h : s.Sound) {uuid : Bytes} {c : γ} {request : ImportRequest}
    (hstarted : (uuid, c, request) ∈ s.started) (hending : uuid ∉ s.endings.map Prod.fst) :
    State.Sound { s with threads := (uuid, request) :: s.threads } where
  entered := h.entered
  running id asked hlookup := by
    rw [Assoc.lookup_cons_eq] at hlookup
    split at hlookup
    case isTrue hid =>
      rw [← Option.some.inj hlookup, ← eq_of_beq hid]
      exact ⟨⟨c, hstarted⟩, hending⟩
    case isFalse => exact h.running id asked hlookup
  ended := h.ended
  told := h.told
  once := h.once
  apart := h.apart
  waits := h.waits
  answers := h.answers

theorem post (h : s.Sound) {c : γ} {request : ImportRequest} {w : Checks} {uuid : Bytes}
    {starts : Bool} (hnew : uuid ∉ s.started.map Prod.fst) :
    (s.post c request w uuid starts).Sound := by
  rw [State.post]
  split
  case h_1 => exact h.stop c rfl fun _ _ _ h => by cases h
  case h_2 admitted hchecked =>
    rw [checkRequest_body hchecked, jobId_entered]
    have hentered := h.enter hnew c request
    cases starts with
    | false => exact hentered.stop c rfl fun _ _ _ h => by cases h
    | true =>
      have hending : uuid ∉ s.endings.map Prod.fst := by
        intro hmem
        obtain ⟨⟨id, asked, ending⟩, hin, rfl⟩ := List.mem_map.mp hmem
        obtain ⟨d, hd⟩ := h.ended id asked ending hin
        exact hnew (List.mem_map.mpr ⟨_, hd, rfl⟩)
      have hspawned := hentered.spawn List.mem_cons_self hending
      by_cases hempty : uuid = []
      · simp only [if_pos hempty]
        exact hspawned.stop c rfl fun _ _ _ h => by cases h
      · simp only [if_neg hempty]
        refine hspawned.setCommand (fun asked id attempts hc => ?_) (fun hc => by cases hc)
        cases hc
        exact List.mem_cons_self

omit [DecidableEq γ] in
theorem progress (h : s.Sound) {id : Bytes} {request : ImportRequest}
    (hthread : s.threads.lookup id = some request) (stage : AssetImportStage) :
    State.Sound { s with jobs := updateImportJob s.jobs id (stageText stage) [] } := by
  have hopen := (h.running id request hthread).2
  have hlookup : ∀ k, (updateImportJob s.jobs id (stageText stage) []).lookup k =
      if id = k then (s.jobs.lookup k).map fun job =>
        { job with status := stageText stage, error := [] }
      else s.jobs.lookup k :=
    fun k => lookup_modifyJob s.jobs id k _
  refine { h with entered := fun k job hk => ?_, told := fun k job hk => ?_ }
  · rw [hlookup] at hk
    split at hk
    case isTrue =>
      obtain ⟨before, hbefore, _⟩ := Option.map_eq_some_iff.mp hk
      exact h.entered k before hbefore
    case isFalse => exact h.entered k job hk
  · rw [hlookup] at hk
    split at hk
    case isTrue hid =>
      subst hid
      obtain ⟨before, hbefore, rfl⟩ := Option.map_eq_some_iff.mp hk
      rcases h.told id before hbefore with ⟨asked, ending, hmem, _⟩ | ⟨_, status, rfl, _⟩
      · exact absurd (List.mem_map.mpr ⟨_, hmem, rfl⟩) hopen
      · exact .inr ⟨hopen, stageText stage, rfl, by cases stage <;> decide,
          by cases stage <;> decide⟩
    case isFalse => exact h.told k job hk

omit [DecidableEq γ] in
theorem finish (h : s.Sound) {id : Bytes} {request : ImportRequest}
    (hthread : s.threads.lookup id = some request) (ending : Ending) :
    State.Sound { s with
      jobs := endImportJob s.jobs id ending
      threads := Assoc.erase id s.threads
      endings := (id, request, ending) :: s.endings } := by
  obtain ⟨⟨c, hstarted⟩, hopen⟩ := h.running id request hthread
  have hjob : ∀ job, s.jobs.lookup id = some job → Open id job := by
    intro job hlookup
    rcases h.told id job hlookup with ⟨asked, before, hmem, _⟩ | ⟨_, hjob⟩
    · exact absurd (List.mem_map.mpr ⟨_, hmem, rfl⟩) hopen
    · exact hjob
  constructor
  · intro k job hk
    rw [lookup_endImportJob hjob] at hk
    split at hk
    case isTrue =>
      obtain ⟨before, hbefore, _⟩ := Option.map_eq_some_iff.mp hk
      exact h.entered k before hbefore
    case isFalse => exact h.entered k job hk
  · intro k asked hk
    by_cases hid : id = k
    · rw [← hid, Assoc.lookup_erase_self] at hk
      cases hk
    · rw [Assoc.lookup_erase_ne hid] at hk
      obtain ⟨howner, hnot⟩ := h.running k asked hk
      refine ⟨howner, ?_⟩
      rw [List.map_cons, List.mem_cons]
      rintro (rfl | hmem)
      · exact hid rfl
      · exact hnot hmem
  · intro k asked e hmem
    rcases List.mem_cons.mp hmem with heq | hmem
    · cases heq
      exact ⟨c, hstarted⟩
    · exact h.ended k asked e hmem
  · intro k job hk
    rw [lookup_endImportJob hjob] at hk
    split at hk
    case isTrue hid =>
      obtain ⟨before, _, rfl⟩ := Option.map_eq_some_iff.mp hk
      exact .inl ⟨request, ending, hid ▸ List.mem_cons_self, rfl⟩
    case isFalse hid =>
      rcases h.told k job hk with ⟨asked, e, hmem, hrecord⟩ | ⟨hnot, hjobOpen⟩
      · exact .inl ⟨asked, e, List.mem_cons_of_mem _ hmem, hrecord⟩
      · refine .inr ⟨?_, hjobOpen⟩
        rw [List.map_cons, List.mem_cons]
        rintro (rfl | hmem)
        · exact hid rfl
        · exact hnot hmem
  · exact List.nodup_cons.mpr ⟨hopen, h.once⟩
  · exact h.apart
  · exact h.waits
  · intro d hd
    obtain ⟨k, asked, e, hstarted, hended, hcommand⟩ := h.answers d hd
    exact ⟨k, asked, e, hstarted, List.mem_cons_of_mem _ hended, hcommand⟩

omit [DecidableEq γ] in
theorem restart (h : s.Sound) : State.Sound { s with jobs := [], threads := [] } where
  entered _ _ hlookup := by cases hlookup
  running _ _ hlookup := by cases hlookup
  ended := h.ended
  told _ _ hlookup := by cases hlookup
  once := h.once
  apart := h.apart
  waits := h.waits
  answers := h.answers

omit [DecidableEq γ] in
/-- What a poll of a waiting command's job can say. -/
theorem polled (h : s.Sound) {c : γ} {request : ImportRequest} {id : Bytes} {left : Nat}
    (hc : s.commands c = .waiting request id left) (attempts : Nat) :
    match s.getImport id with
    | none => s.polled request id attempts = .threw request
    | some _ =>
      (∃ ending, (id, request, ending) ∈ s.endings ∧
        s.polled request id attempts = ending.told request) ∨
      (id ∉ s.endings.map Prod.fst ∧
        s.polled request id attempts = .waiting request id attempts) := by
  have hstarted := h.waits c request id left hc
  rw [State.polled, State.getImport]
  cases hlookup : s.jobs.lookup id with
  | none => rfl
  | some job =>
    by_cases hwritten : (importJobJson job).encodable = true
    · simp only [if_pos hwritten]
      rcases h.told id job hlookup with ⟨asked, ending, hmem, rfl⟩ | ⟨hnot, hopen⟩
      · obtain ⟨d, hd⟩ := h.ended id asked ending hmem
        have howner := List.inj_on_of_nodup_map h.apart hstarted hd rfl
        cases howner
        exact .inl ⟨ending, hmem, by rw [readJob_record]⟩
      · exact .inr ⟨hnot, by rw [readJob_open hopen]⟩
    · simp only [if_neg hwritten]

theorem poll (h : s.Sound) {c : γ} {request : ImportRequest} {id : Bytes} {attempts : Nat}
    (hc : s.commands c = .waiting request id (attempts + 1)) :
    (s.setCommand c (s.polled request id attempts)).Sound := by
  have hpolled := h.polled hc attempts
  have hstarted := h.waits c request id _ hc
  split at hpolled
  case h_1 => exact hpolled ▸ h.stop c rfl fun _ _ _ h => by cases h
  case h_2 =>
    rcases hpolled with ⟨ending, hmem, hpolled⟩ | ⟨_, hpolled⟩
    · rw [hpolled]
      refine h.setCommand (fun asked k left hwaiting => ?_) fun _ =>
        ⟨id, request, ending, hstarted, hmem, rfl⟩
      cases ending <;> cases hwaiting
    · rw [hpolled]
      refine h.setCommand (fun asked k left hwaiting => ?_) fun hsettled => by cases hsettled
      cases hwaiting
      exact hstarted

theorem step (h : s.Sound) {l : Step γ} (hfresh : s.fresh l) (hstep : s.step l = some t) :
    t.Sound := by
  cases l with
  | post c request w uuid starts =>
    simp only [State.step] at hstep
    split at hstep
    case h_1 => exact Option.some.inj hstep ▸ h.post hfresh
    case h_2 => cases hstep
  | progress id stage =>
    simp only [State.step] at hstep
    split at hstep
    case h_1 request hthread => exact Option.some.inj hstep ▸ h.progress hthread stage
    case h_2 => cases hstep
  | finish id ending =>
    simp only [State.step] at hstep
    split at hstep
    case h_1 request hthread => exact Option.some.inj hstep ▸ h.finish hthread ending
    case h_2 => cases hstep
  | poll c =>
    simp only [State.step] at hstep
    split at hstep
    case h_1 request id attempts hc => exact Option.some.inj hstep ▸ h.poll hc
    case h_2 => exact Option.some.inj hstep ▸ h.stop c rfl fun _ _ _ h => by cases h
    case h_3 => cases hstep
  | lose c =>
    simp only [State.step] at hstep
    split at hstep
    case h_1 => exact Option.some.inj hstep ▸ h.stop c rfl fun _ _ _ h => by cases h
    case h_2 => cases hstep
  | restart => exact Option.some.inj hstep ▸ h.restart

end State.Sound

/-- However commands, threads and restarts of the daemon are interleaved: a command that reports
an import reports how the one import that was run for it, of the file it named, ended, and a poll
reports it at once. -/
theorem import_reported {commands : γ → Command} (hidle : ∀ c, commands c = .idle)
    {ls : List (Step γ)} {s : State γ}
    (hfresh : Machine.Along State.step State.fresh (State.mk [] [] commands [] []) ls)
    (hrun : Machine.run State.step (State.mk [] [] commands [] []) ls = some s) :
    (s.started.map Prod.fst).Nodup ∧ (s.endings.map Prod.fst).Nodup ∧
    (∀ c, (s.commands c).settled = true → ∃ id request ending,
      (id, c, request) ∈ s.started ∧ (id, request, ending) ∈ s.endings ∧
        s.commands c = ending.told request) ∧
    ∀ c request id attempts, s.commands c = .waiting request id (attempts + 1) →
      ∀ job, s.getImport id = some job →
        ∃ t, s.step (.poll c) = some t ∧
          ((∃ ending, (id, request, ending) ∈ s.endings ∧ t.commands c = ending.told request) ∨
            (id ∉ s.endings.map Prod.fst ∧ t.commands c = .waiting request id attempts)) := by
  have hsound : s.Sound := Machine.run_invariant_along State.step
    (fun _ _ _ h hok hstep => h.step hok hstep) (sound_start commands hidle) hfresh hrun
  refine ⟨hsound.apart, hsound.once, hsound.answers, ?_⟩
  intro c request id attempts hc job hjob
  have hpolled := hsound.polled hc attempts
  rw [hjob] at hpolled
  refine ⟨s.setCommand c (s.polled request id attempts), ?_, ?_⟩
  · simp only [State.step, hc]
  · simpa only [State.setCommand, Function.update_self] using hpolled

end Steps

def sampleRequest (file : Bytes) : ImportRequest := ⟨ascii "p", ascii "c", ascii "l", file⟩

def everything : Checks where
  services := true
  isRegularFile _ := true
  locationProject _ := some (ascii "p")
  bound _ _ := true

/-- Two commands import at once; one import throws, and the other command is still waiting. -/
def twoImports : List (Step Bool) :=
  [.post true (sampleRequest (ascii "/a")) everything (ascii "j1") true,
    .post false (sampleRequest (ascii "/b")) everything (ascii "j2") true,
    .progress (ascii "j2") .staging, .progress (ascii "j1") .staging, .poll true,
    .finish (ascii "j1") (.threw (ascii "disk full")), .poll false, .poll true]

theorem import_reported_two :
    ∃ s : State Bool,
      Machine.run State.step (State.mk [] [] (fun _ => .idle) [] []) twoImports = some s ∧
      (∃ id request ending, (id, true, request) ∈ s.started ∧
        (id, request, ending) ∈ s.endings ∧ s.commands true = ending.told request) := by
  obtain ⟨s, hs, hsettled⟩ := Machine.run_of_any State.step
    (State.mk [] [] (fun _ => .idle) [] []) twoImports
    (fun s => (s.commands true).settled) (by decide +kernel)
  refine ⟨s, hs, (import_reported (fun _ => rfl) ?_ hs).2.2.1 true hsettled⟩
  decide +kernel

end ImportJobs

end HolderDaemon
