import HolderDaemon.Assoc
import HolderDaemon.Json
import HolderDaemon.RequestLane
import HolderDaemon.Rows

/-!
Model runners (`llm/RunnerRegistry.cpp`, `llm/LocalModelRunner.cpp`, `api/routes/ai/AiRunnerRoutes.cpp`,
`api/routes/ai/runner/AiRunnerPullRoutes.cpp`): the table of runners, the clients that a worker
keeps for them, and the requests that change either.
-/

set_option autoImplicit false

open Bytes
open Json (of_bind_ok)

namespace HolderDaemon

namespace Runners

structure Runner where
  runnerId : Bytes
  name : Bytes
  kind : Bytes
  baseUrl : Option Bytes
  source : Bytes
  enabled : Bool
  createdAt : Int
  updatedAt : Int
  deriving DecidableEq, Repr

def kAutoLocalRunnerId : Bytes := ascii "auto-local"

def autoLocalRunnerRecord : Runner where
  runnerId := kAutoLocalRunnerId
  name := ascii "Local Ollama"
  kind := ascii "ollama"
  baseUrl := some (ascii "http://127.0.0.1:11434")
  source := ascii "auto_local"
  enabled := true
  createdAt := 0
  updatedAt := 0

structure ParsedBaseUrl where
  host : Bytes
  port : Bytes
  deriving DecidableEq, Repr

def rfind (b : UInt8) (s : Bytes) : Option Nat :=
  if b ∈ s then some (s.length - 1 - s.reverse.idxOf b) else none

def splitHostPort (value : Bytes) : Option ParsedBaseUrl :=
  match rfind 58 value with
  | none => none
  | some colon =>
    if colon = 0 ∨ colon = value.length - 1 then none
    else some ⟨value.take colon, value.drop (colon + 1)⟩

def parseHttpBaseUrl (baseUrl : Option Bytes) : Option ParsedBaseUrl :=
  match baseUrl with
  | none => none
  | some value =>
    if ¬ (ascii "http://").isPrefixOf value then none
    else
      let rest := value.drop (ascii "http://").length
      splitHostPort (rest.take (rest.idxOf 47))

/-! Pull jobs of a client -/

inductive PullStatus where
  | queued | downloading | verifying | completed | failed
  deriving DecidableEq, Repr

structure PullJob where
  jobId : Bytes
  model : Bytes
  status : PullStatus
  stage : Bytes := []
  completed : Int := 0
  total : Int := 0
  updatedAt : Int
  error : Bytes := []
  deriving DecidableEq, Repr

structure Client where
  address : ParsedBaseUrl
  pulls : List PullJob
  named : ∀ job ∈ pulls, job.jobId ≠ []
  deriving DecidableEq

/-- A client without pull jobs, as it is made. -/
def Client.fresh (address : ParsedBaseUrl) : Client := ⟨address, [], List.forall_mem_nil _⟩

def Client.getPull (c : Client) (jobId : Bytes) : Option PullJob :=
  Rows.get PullJob.jobId jobId c.pulls

/-- `pulls_[job.job_id] = job`. -/
def Client.setPull (c : Client) (job : PullJob) (h : job.jobId ≠ []) : Client where
  address := c.address
  pulls := Rows.put PullJob.jobId job c.pulls
  named := by
    intro other hother
    rcases Rows.mem_put PullJob.jobId hother with rfl | hmem
    · exact h
    · exact c.named other hmem

def generateJobId (now seq : Nat) : Bytes :=
  ascii "pull-" ++ decimal now ++ ascii "-" ++ decimal seq

theorem generateJobId_ne_nil (now seq : Nat) : generateJobId now seq ≠ [] := by
  intro h
  have hlen := congrArg List.length h
  simp only [generateJobId, List.length_append, List.length_nil] at hlen
  have hpull : (ascii "pull-").length = 5 := by decide
  omega

def PullStatus.active (status : PullStatus) : Bool :=
  status = .queued ∨ status = .downloading ∨ status = .verifying

/-- An active job of the model, or a new one; `seq` numbers the job if it is new. -/
def Client.startPull (c : Client) (model : Bytes) (now seq : Nat) (epoch : Int) : PullJob × Client :=
  if model = [] then
    (⟨[], [], .failed, [], 0, 0, epoch, ascii "missing model"⟩, c)
  else
    match c.pulls.find? fun job => job.model = model ∧ job.status.active with
    | some existing => (existing, c)
    | none =>
      let job : PullJob :=
        { jobId := generateJobId now seq, model, status := .queued, updatedAt := epoch }
      (job, c.setPull job (generateJobId_ne_nil now seq))

/-- One progress line of a pull. -/
structure PullUpdate where
  status : Option PullStatus
  error : Bytes
  stage : Bytes
  completed : Int
  total : Int
  updatedAt : Int
  deriving Repr

def PullJob.apply (job : PullJob) (u : PullUpdate) : PullJob :=
  { job with
    status := u.status.getD job.status
    error := if u.error = [] then job.error else u.error
    stage := if u.stage = [] then job.stage else u.stage
    total := if u.total > 0 then u.total else job.total
    completed := if u.completed > 0 then u.completed else job.completed
    updatedAt := u.updatedAt }

def Client.progress (c : Client) (jobId : Bytes) (u : PullUpdate) : Client where
  address := c.address
  pulls := c.pulls.map fun job => if job.jobId = jobId then job.apply u else job
  named := by
    intro job hjob
    obtain ⟨old, hold, rfl⟩ := List.mem_map.mp hjob
    split
    · exact c.named old hold
    · exact c.named old hold

theorem getPull_setPull (c : Client) (job : PullJob) (h : job.jobId ≠ []) (jobId : Bytes) :
    (c.setPull job h).getPull jobId = if job.jobId = jobId then some job else c.getPull jobId :=
  Rows.get_put _ _ _ _

theorem getPull_jobId {c : Client} {jobId : Bytes} {job : PullJob}
    (h : c.getPull jobId = some job) : job.jobId = jobId :=
  Rows.key_of_get PullJob.jobId h

theorem getPull_ne_nil {c : Client} {jobId : Bytes} {job : PullJob}
    (h : c.getPull jobId = some job) : jobId ≠ [] :=
  getPull_jobId h ▸ c.named job (Rows.mem_of_get PullJob.jobId h)

theorem startPull_address (c : Client) (model : Bytes) (now seq : Nat) (epoch : Int) :
    (c.startPull model now seq epoch).2.address = c.address := by
  unfold Client.startPull
  split
  · rfl
  · split <;> rfl

/-- A job that is not failed when `start_pull` answers is found under its id. -/
theorem getPull_startPull {c : Client} {model : Bytes} {now seq : Nat} {epoch : Int}
    (h : (c.startPull model now seq epoch).1.status ≠ .failed) :
    ((c.startPull model now seq epoch).2.getPull
      (c.startPull model now seq epoch).1.jobId).isSome = true := by
  unfold Client.startPull at h ⊢
  by_cases hmodel : model = []
  · simp [hmodel] at h
  · simp only [hmodel, if_false]
    cases hfind : c.pulls.find? fun job => job.model = model ∧ job.status.active with
    | some existing =>
      exact Rows.get_isSome_of_mem PullJob.jobId (List.mem_of_find?_eq_some hfind)
    | none => simp [getPull_setPull]

theorem getPull_startPull_mono {c : Client} {jobId : Bytes} (h : (c.getPull jobId).isSome = true)
    (model : Bytes) (now seq : Nat) (epoch : Int) :
    ((c.startPull model now seq epoch).2.getPull jobId).isSome = true := by
  unfold Client.startPull
  split
  · exact h
  · split
    · exact h
    · rw [getPull_setPull]
      split
      · rfl
      · exact h

theorem getPull_progress {c : Client} {jobId : Bytes} (h : (c.getPull jobId).isSome = true)
    (other : Bytes) (u : PullUpdate) : ((c.progress other u).getPull jobId).isSome = true := by
  obtain ⟨job, hjob⟩ := Option.isSome_iff_exists.mp h
  have hid := getPull_jobId hjob
  have hmem : (if job.jobId = other then job.apply u else job) ∈ (c.progress other u).pulls :=
    List.mem_map.mpr ⟨job, Rows.mem_of_get PullJob.jobId hjob, rfl⟩
  have hkey : (if job.jobId = other then job.apply u else job).jobId = jobId := by
    split
    · exact hid
    · exact hid
  exact hkey ▸ Rows.get_isSome_of_mem PullJob.jobId hmem

/-! The table and a worker's clients -/

structure RunnerTable where
  rows : List Runner
  unique : (rows.map Runner.runnerId).Nodup

namespace RunnerTable

def get (t : RunnerTable) (runnerId : Bytes) : Option Runner := Rows.get Runner.runnerId runnerId t.rows

def upsert (t : RunnerTable) (runner : Runner) : RunnerTable :=
  ⟨Rows.put Runner.runnerId runner t.rows, Rows.nodup_put Runner.runnerId t.unique⟩

def remove (t : RunnerTable) (runnerId : Bytes) : RunnerTable :=
  ⟨Rows.drop Runner.runnerId runnerId t.rows, Rows.nodup_drop Runner.runnerId t.unique⟩

theorem get_upsert (t : RunnerTable) (runner : Runner) (runnerId : Bytes) :
    (t.upsert runner).get runnerId =
      if runner.runnerId = runnerId then some runner else t.get runnerId :=
  Rows.get_put _ _ _ _

theorem get_remove (t : RunnerTable) (runnerId other : Bytes) :
    (t.remove runnerId).get other = if other = runnerId then none else t.get other :=
  Rows.get_drop _ _ _ _

end RunnerTable

/-- The address a client is made for, where the row is for one. -/
def clientAddress (runner : Runner) : Option ParsedBaseUrl :=
  if !runner.enabled ∨ runner.source ≠ ascii "manual" ∨ runner.kind ≠ ascii "ollama" then none
  else parseHttpBaseUrl runner.baseUrl

abbrev Clients := List (Bytes × Client)

def loadManualClients (t : RunnerTable) : Clients :=
  t.rows.filterMap fun runner =>
    ((clientAddress runner).map Client.fresh).map fun c => (runner.runnerId, c)

theorem lookup_loadManualClients (t : RunnerTable) (runnerId : Bytes) :
    (loadManualClients t).lookup runnerId =
      (t.get runnerId).bind fun runner => (clientAddress runner).map Client.fresh :=
  Rows.lookup_filterMap Runner.runnerId _ t.unique runnerId

/-! Requests -/

inductive Answer where
  | runner (status : Nat) (runner : Runner)
  | removed (runnerId : Bytes)
  | pullStarted (job : PullJob) (runnerId : Bytes)
  | pullJob (job : PullJob) (runnerId : Bytes)
  | error (status : Nat) (code message : Bytes)
  deriving DecidableEq, Repr

def badRequest (message : Bytes) : Answer := .error 400 (ascii "bad_request") message

def notFound (message : String) : Answer := .error 404 (ascii "not_found") (ascii message)

def getString (j : Json) : Except Answer Bytes := j.getString.mapError badRequest

def getBoolean (j : Json) : Except Answer Bool := j.getBoolean.mapError badRequest

/-- The field, where it is there and not null. -/
def given (body : Json) (key : String) : Option Json :=
  match body.field? (ascii key) with
  | some .null => none
  | other => other

def isSpace (b : UInt8) : Bool := b = 32 || (9 ≤ b.toNat && b.toNat ≤ 13)

def trimAscii (s : Bytes) : Bytes :=
  ((s.dropWhile isSpace).reverse.dropWhile isSpace).reverse

/-- None where the field is missing or null and not required. -/
def validatedRunnerBaseUrl (body : Json) (required : Bool) : Except Answer (Option Bytes) :=
  match given body "base_url" with
  | none =>
    if required then .error (badRequest (ascii "Missing base_url.")) else .ok none
  | some j => do
    let value := trimAscii (← getString j)
    if value = [] then .error (badRequest (ascii "base_url cannot be empty."))
    else if ¬ (ascii "http://").isPrefixOf value then
      .error (badRequest (ascii "base_url must use http://host:port format."))
    else if (splitHostPort (value.drop (ascii "http://").length)).isNone then
      .error (badRequest (ascii "base_url must use http://host:port format."))
    else .ok (some value)

def createRunner (uuid : Bytes) (now : Int) (body : Json) : Except Answer Runner := do
  match given body "name", given body "kind" with
  | some nameField, some kindField =>
    let name := trimAscii (← getString nameField)
    let kind := trimAscii (← getString kindField)
    if name = [] then .error (badRequest (ascii "name cannot be empty."))
    else if kind ≠ ascii "ollama" then .error (badRequest (ascii "Unsupported runner kind."))
    else
      let baseUrl ← validatedRunnerBaseUrl body true
      let enabled ←
        match given body "enabled" with
        | none => .ok true
        | some j => getBoolean j
      .ok { runnerId := ascii "manual-" ++ uuid, name, kind, baseUrl, source := ascii "manual",
            enabled, createdAt := now, updatedAt := now }
  | _, _ => .error (badRequest (ascii "Missing name or kind."))

/-- What a runner that is created is made of. -/
theorem createRunner_ok {uuid : Bytes} {now : Int} {body : Json} {runner : Runner}
    (h : createRunner uuid now body = .ok runner) :
    ∃ nameField kindField name kind baseUrl enabled,
      (given body "name" = some nameField ∧ getString nameField = .ok name) ∧
      (given body "kind" = some kindField ∧ getString kindField = .ok kind) ∧
      trimAscii kind = ascii "ollama" ∧ validatedRunnerBaseUrl body true = .ok baseUrl ∧
      runner = ⟨ascii "manual-" ++ uuid, trimAscii name, trimAscii kind, baseUrl, ascii "manual",
        enabled, now, now⟩ := by
  unfold createRunner at h
  split at h
  · rename_i nameField kindField hname hkind
    obtain ⟨name, hgetName, h⟩ := of_bind_ok h
    obtain ⟨kind, hgetKind, h⟩ := of_bind_ok h
    dsimp only at h
    split at h
    · cases h
    split at h
    · cases h
    rename_i hollama
    obtain ⟨baseUrl, hbase, h⟩ := of_bind_ok h
    have hrow : ∃ enabled, runner = ⟨ascii "manual-" ++ uuid, trimAscii name, trimAscii kind,
        baseUrl, ascii "manual", enabled, now, now⟩ := by
      split at h
      all_goals
        obtain ⟨enabled, _, h⟩ := of_bind_ok h
        cases h
        exact ⟨enabled, rfl⟩
    obtain ⟨enabled, hrow⟩ := hrow
    exact ⟨nameField, kindField, name, kind, baseUrl, enabled, ⟨hname, hgetName⟩,
      ⟨hkind, hgetKind⟩, not_not.mp hollama, hbase, hrow⟩
  · cases h

def patchRunner (existing : Runner) (now : Int) (body : Json) : Except Answer Runner := do
  let name ←
    match given body "name" with
    | none => .ok existing.name
    | some j => do
      let name := trimAscii (← getString j)
      if name = [] then .error (badRequest (ascii "name cannot be empty.")) else .ok name
  let enabled ←
    match given body "enabled" with
    | none => .ok existing.enabled
    | some j => getBoolean j
  let baseUrl ←
    if body.contains (ascii "base_url") then validatedRunnerBaseUrl body false
    else .ok existing.baseUrl
  .ok { existing with name, enabled, baseUrl, updatedAt := now }

/-- What a patch changes. -/
theorem patchRunner_ok {existing : Runner} {now : Int} {body : Json} {runner : Runner}
    (h : patchRunner existing now body = .ok runner) :
    ∃ name enabled baseUrl,
      (name = existing.name ∨ ∃ field value, given body "name" = some field ∧
        getString field = .ok value ∧ name = trimAscii value) ∧
      (baseUrl = existing.baseUrl ∨ validatedRunnerBaseUrl body false = .ok baseUrl) ∧
      runner = { existing with name, enabled, baseUrl, updatedAt := now } := by
  unfold patchRunner at h
  simp only [bind, Except.bind] at h
  repeat' split at h
  all_goals cases h
  all_goals
    refine ⟨_, _, _, ?_, ?_, rfl⟩
    · first
        | exact .inl rfl
        | exact .inr ⟨_, _, ‹given body "name" = _›, ‹getString _ = _›, rfl⟩
    · first
        | exact .inl rfl
        | exact .inr ‹validatedRunnerBaseUrl _ _ = _›

inductive Change where
  | upsert (runner : Runner)
  | remove (runnerId : Bytes)
  deriving DecidableEq, Repr

def Change.apply : Change → RunnerTable → RunnerTable
  | .upsert runner, t => t.upsert runner
  | .remove runnerId, t => t.remove runnerId

/-- What a request leads to after its checks: an answer, a write with the answer that follows
it, or a bare refresh of the worker's registry. -/
inductive Prepared where
  | answer (answer : Answer)
  | write (change : Change) (answer : Answer)
  | refresh (answer : Answer)
  deriving DecidableEq, Repr

def Prepared.ofWrite (status : Nat) : Except Answer Runner → Prepared
  | .error failure => .answer failure
  | .ok runner => .write (.upsert runner) (.runner status runner)

/-- POST /ai/runners, POST /ai/runners/{id}/retry, PATCH and DELETE /ai/runners/{id}; none is
another route. `client` is the worker's `get_client`. -/
def prepare (t : RunnerTable) (client : Bytes → Option Client) (method : Method) (path : Bytes)
    (body : Except Bytes Json) (uuid : Bytes) (now : Int) : Option Prepared :=
  if path = ascii "/ai/runners" ∧ method = .post then
    some (.ofWrite 201 (body.mapError badRequest >>= createRunner uuid now))
  else if ¬ (ascii "/ai/runners/").isPrefixOf path then none
  else
    let suffix := path.drop (ascii "/ai/runners/").length
    let slash := suffix.idxOf 47
    let runnerId := suffix.take slash
    let subresource := suffix.drop (slash + 1)
    if runnerId = [] then none
    else if subresource = ascii "retry" ∧ method = .post then
      let runner :=
        if runnerId = kAutoLocalRunnerId then some autoLocalRunnerRecord else t.get runnerId
      match runner, client runnerId with
      | some runner, some _ => some (.refresh (.runner 200 runner))
      | _, _ => some (.answer (notFound "Runner not configured."))
    else if subresource ≠ [] then none
    else
      match method with
      | .patch =>
        if runnerId = kAutoLocalRunnerId then
          some (.answer (badRequest (ascii "auto-local runner is not editable.")))
        else
          match t.get runnerId with
          | none => some (.answer (notFound "Runner not found."))
          | some existing =>
            some (.ofWrite 200 (body.mapError badRequest >>= patchRunner existing now))
      | .delete =>
        if runnerId = kAutoLocalRunnerId then
          some (.answer (badRequest (ascii "auto-local runner is not deletable.")))
        else
          match t.get runnerId with
          | none => some (.answer (notFound "Runner not found."))
          | some _ => some (.write (.remove runnerId) (.removed runnerId))
      | _ => none

/-- The runner that a pull request is about: its query parameter, else a POST's body. -/
def requestedRunnerId (query : Bytes) (body : Except Bytes Json) : Bytes :=
  if query ≠ [] then query
  else
    match body with
    | .error _ => kAutoLocalRunnerId
    | .ok body =>
      match given body "runner_id" with
      | some (.str s) => if s ≠ [] then s else kAutoLocalRunnerId
      | _ => kAutoLocalRunnerId

/-- GET /ai/runner/pull/{job_id} on a worker whose client of the runner is `client`. -/
def pullAnswer (client : Option Client) (runnerId jobId : Bytes) : Answer :=
  match client with
  | none => notFound "Runner not configured."
  | some c =>
    if jobId = [] then notFound "Pull job not found."
    else
      match c.getPull jobId with
      | none => notFound "Pull job not found."
      | some job => .pullJob job runnerId

/-- POST /ai/runner/pull with the runner's status known: the model to pull, or an answer. -/
def pullModel (available : Bool) (body : Except Bytes Json) : Except Answer Bytes :=
  if !available then
    .error (.error 503 (ascii "runner_unavailable") (ascii "Local model runner unavailable."))
  else do
    let body ← body.mapError badRequest
    match body.field? (ascii "model") with
    | none => .error (badRequest (ascii "Missing model."))
    | some j => getString j

/-! What the checks let through -/

theorem ofWrite_upsert {status : Nat} {x : Except Answer Runner} {runner : Runner}
    {answer : Answer} (h : Prepared.ofWrite status x = .write (.upsert runner) answer) :
    x = .ok runner := by
  cases x with
  | error e => cases h
  | ok row =>
    simp only [Prepared.ofWrite, Prepared.write.injEq, Change.upsert.injEq] at h
    rw [h.1]

theorem prepare_congr {t t' : RunnerTable} (h : ∀ runnerId, t.get runnerId = t'.get runnerId)
    (client : Bytes → Option Client) (method : Method) (path : Bytes) (body : Except Bytes Json)
    (uuid : Bytes) (now : Int) :
    prepare t client method path body uuid now = prepare t' client method path body uuid now := by
  simp only [prepare, h]

theorem isSpace_lt {b : UInt8} (h : isSpace b = true) : b.toNat < 0x80 := by
  simp only [isSpace, Bool.or_eq_true, decide_eq_true_eq, Bool.and_eq_true] at h
  rcases h with rfl | ⟨_, hb⟩
  · decide
  · omega

theorem validUtf8_dropWhile {s : Bytes} (h : validUtf8 s = true) :
    validUtf8 (s.dropWhile isSpace) = true := by
  induction s with
  | nil => exact h
  | cons b s ih =>
    rw [List.dropWhile_cons]
    split
    · rename_i hb
      exact ih (validUtf8_split (s := []) (isSpace_lt hb) h).2
    · exact h

theorem validUtf8_trimAscii {s : Bytes} (h : validUtf8 s = true) :
    validUtf8 (trimAscii s) = true := by
  have hback : ∀ t : Bytes, validUtf8 t.reverse = true →
      validUtf8 (t.dropWhile isSpace).reverse = true := by
    intro t ht
    induction t with
    | nil => exact ht
    | cons b t ih =>
      rw [List.dropWhile_cons]
      split
      · rename_i hb
        rw [List.reverse_cons] at ht
        exact ih (validUtf8_split (isSpace_lt hb) ht).1
      · exact ht
  refine hback _ ?_
  rw [List.reverse_reverse]
  exact validUtf8_dropWhile h

end Runners

end HolderDaemon
