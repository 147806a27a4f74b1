import HolderDaemon.Machine
import HolderDaemon.RunnerRegistry

/-!
The listener's workers over one table of runners, each with a registry of its own, and when
they agree on the runners and on the pull jobs.
-/

set_option autoImplicit false

open Bytes
open Json (of_bind_ok)

namespace HolderDaemon

/-- The worker exists. -/
def ConcurrencyProfile.has (profile : ConcurrencyProfile) : Worker → Bool
  | .save i => i < profile.saveWorkers
  | .general i => i < profile.generalWorkers

namespace Runners

/-- Where a worker is in a runner request: before its write, or before its refresh. -/
inductive Job where
  | idle
  | writing (change : Change) (answer : Answer)
  | refreshing (answer : Answer)
  deriving DecidableEq

/-- `answered` holds the job and the runner of every pull request answered with a job, as long
as that runner is stored and enabled. -/
structure Pool where
  table : RunnerTable
  autoLocal : Option Client
  registries : Worker → Clients
  jobs : Worker → Job := fun _ => .idle
  sequence : Nat := 0
  answered : List (Bytes × Bytes) := []
  answers : List Answer := []

/-- `repo.upsert` or `repo.remove`, then `persist_device_config`, each of which can throw. -/
inductive WriteResult where
  | done
  | writeFailed (what : Bytes)
  | persistFailed (what : Bytes)
  deriving DecidableEq, Repr

inductive Step where
  | request (worker : Worker) (method : Method) (path : Bytes) (body : Except Bytes Json)
      (uuid : Bytes) (now : Int)
  | write (worker : Worker) (result : WriteResult)
  | refresh (worker : Worker) (listError : Option Bytes)
  | pull (worker : Worker) (query : Bytes) (body : Except Bytes Json) (available : Bool)
      (now : Nat) (epoch : Int)
  | progress (worker : Worker) (runnerId jobId : Bytes) (update : PullUpdate)

namespace Pool

def clientFor (t : Pool) (worker : Worker) (runnerId : Bytes) : Option Client :=
  if runnerId = kAutoLocalRunnerId then t.autoLocal else (t.registries worker).lookup runnerId

/-- The auto-local client is one for all workers. -/
def setClient (t : Pool) (worker : Worker) (runnerId : Bytes) (c : Client) : Pool :=
  if runnerId = kAutoLocalRunnerId then { t with autoLocal := some c }
  else
    { t with
      registries := Function.update t.registries worker
        (Assoc.set runnerId c (t.registries worker)) }

def finish (t : Pool) (worker : Worker) (answer : Answer) : Pool :=
  { t with
    jobs := Function.update t.jobs worker .idle
    answers := t.answers ++ [answer] }

def request (t : Pool) (worker : Worker) : Prepared → Pool
  | .answer answer => { t with answers := t.answers ++ [answer] }
  | .write change answer =>
    { t with jobs := Function.update t.jobs worker (.writing change answer) }
  | .refresh answer => { t with jobs := Function.update t.jobs worker (.refreshing answer) }

/-- The runner is stored and enabled; the auto-local one always is. -/
def enabled (table : RunnerTable) (runnerId : Bytes) : Bool :=
  runnerId = kAutoLocalRunnerId || (table.get runnerId).any Runner.enabled

def live (table : RunnerTable) (answered : List (Bytes × Bytes)) : List (Bytes × Bytes) :=
  answered.filter fun p => enabled table p.2

def store (t : Pool) (change : Change) : Pool :=
  { t with
    table := change.apply t.table
    answered := live (change.apply t.table) t.answered }

def write (t : Pool) (worker : Worker) (change : Change) (answer : Answer) : WriteResult → Pool
  | .writeFailed what => t.finish worker (badRequest what)
  | .persistFailed what => (t.store change).finish worker (badRequest what)
  | .done =>
    { t.store change with jobs := Function.update t.jobs worker (.refreshing answer) }

/-- `refresh()`: the map is cleared before the table is read. -/
def refresh (t : Pool) (worker : Worker) (answer : Answer) : Option Bytes → Pool
  | none =>
    { t with registries := Function.update t.registries worker (loadManualClients t.table) }.finish
      worker answer
  | some what =>
    { t with registries := Function.update t.registries worker [] }.finish worker
      (badRequest what)

def pull (t : Pool) (worker : Worker) (runnerId : Bytes) (body : Except Bytes Json)
    (available : Bool) (now : Nat) (epoch : Int) : Pool :=
  match t.clientFor worker runnerId with
  | none => { t with answers := t.answers ++ [notFound "Runner not configured."] }
  | some c =>
    match pullModel available body with
    | .error answer => { t with answers := t.answers ++ [answer] }
    | .ok model =>
      let started := c.startPull model now (t.sequence + 1) epoch
      let u := { t.setClient worker runnerId started.2 with sequence := t.sequence + 1 }
      if started.1.status = .failed then
        { u with
          answers := u.answers ++
            [badRequest (if started.1.error = [] then ascii "Pull failed." else started.1.error)] }
      else
        { u with
          answered := live u.table (u.answered ++ [(started.1.jobId, runnerId)])
          answers := u.answers ++ [.pullStarted started.1 runnerId] }

def step (profile : ConcurrencyProfile) (t : Pool) : Step → Option Pool
  | .request worker method path body uuid now =>
    if t.jobs worker = .idle ∧ profile.serves worker (classifyRequestLane method path) then
      (prepare t.table (t.clientFor worker) method path body uuid now).map (t.request worker)
    else none
  | .write worker result =>
    match t.jobs worker with
    | .writing change answer => some (t.write worker change answer result)
    | _ => none
  | .refresh worker listError =>
    match t.jobs worker with
    | .refreshing answer => some (t.refresh worker answer listError)
    | _ => none
  | .pull worker query body available now epoch =>
    if t.jobs worker = .idle ∧
        profile.serves worker (classifyRequestLane .post (ascii "/ai/runner/pull")) then
      some (t.pull worker (requestedRunnerId query body) body available now epoch)
    else none
  | .progress worker runnerId jobId update =>
    (t.clientFor worker runnerId).map fun c =>
      t.setClient worker runnerId (c.progress jobId update)

/-- The listener starts: every worker reads the table, and no pull job exists. -/
def start (table : RunnerTable) (autoLocal : Option ParsedBaseUrl) : Pool where
  table := table
  autoLocal := autoLocal.map Client.fresh
  registries := fun _ => loadManualClients table

end Pool

/-! Agreement -/

/-- The rows that the routes write. -/
def Runner.Manual (runner : Runner) : Prop :=
  runner.source = ascii "manual" ∧ runner.kind = ascii "ollama"

/-- Between runner requests every worker has a client for exactly the enabled runners with a
usable address, at that address; and every job answered is found by every worker that serves
the route, as long as its runner is stored and enabled. -/
structure Agree (profile : ConcurrencyProfile) (t : Pool) : Prop where
  clients : (∀ worker, t.jobs worker = .idle) → ∀ worker, profile.has worker = true →
    ∀ runnerId, runnerId ≠ kAutoLocalRunnerId →
      (t.clientFor worker runnerId).map Client.address =
        (t.table.get runnerId).bind fun runner =>
          if runner.enabled then parseHttpBaseUrl runner.baseUrl else none
  pulls : ∀ jobId runnerId, (jobId, runnerId) ∈ t.answered → ∀ worker,
    profile.serves worker .background = true → ∃ job : PullJob, job.jobId = jobId ∧
      pullAnswer (t.clientFor worker runnerId) runnerId jobId = .pullJob job runnerId

/-- The address `load_manual_clients` makes a client for. -/
def wanted (table : RunnerTable) (runnerId : Bytes) : Option ParsedBaseUrl :=
  (table.get runnerId).bind clientAddress

/-- The conditions on the write, the refresh and the pull of a request. -/
def Harmless (profile : ConcurrencyProfile) (t : Pool) : Step → Prop
  | .write worker result => ∀ change answer, t.jobs worker = .writing change answer →
      (∃ what, result = .writeFailed what) ∨
      (∀ runnerId, wanted (change.apply t.table) runnerId = wanted t.table runnerId) ∨
      (∀ other, profile.has other = true → other = worker) ∧ result = .done
  | .refresh _ listError =>
      (∀ jobId runnerId, (jobId, runnerId) ∈ t.answered → runnerId = kAutoLocalRunnerId) ∧
      (listError = none ∨ ∀ runnerId, wanted t.table runnerId = none)
  | .pull worker query body _ _ _ => requestedRunnerId query body = kAutoLocalRunnerId ∨
      ∀ other, profile.serves other .background = true → other = worker
  | _ => True

section Steps
variable {profile : ConcurrencyProfile}

def Synced (t : Pool) (worker : Worker) : Prop :=
  ∀ runnerId, ((t.registries worker).lookup runnerId).map Client.address = wanted t.table runnerId

def Found (t : Pool) (worker : Worker) (jobId runnerId : Bytes) : Prop :=
  ∃ c, t.clientFor worker runnerId = some c ∧ (c.getPull jobId).isSome = true

structure Inv (profile : ConcurrencyProfile) (t : Pool) : Prop where
  manual : ∀ runner ∈ t.table.rows, runner.Manual
  pending : ∀ worker runner answer, t.jobs worker = .writing (.upsert runner) answer →
    runner.Manual
  synced : ∀ worker, profile.has worker = true → (∀ answer, t.jobs worker ≠ .refreshing answer) →
    Synced t worker
  found : ∀ jobId runnerId, (jobId, runnerId) ∈ t.answered → ∀ worker,
    profile.serves worker .background = true → Found t worker jobId runnerId

theorem synced_load (table : RunnerTable) (runnerId : Bytes) :
    ((loadManualClients table).lookup runnerId).map Client.address = wanted table runnerId := by
  rw [lookup_loadManualClients, Option.map_bind, wanted]
  congr 1
  funext runner
  cases h : clientAddress runner <;> simp [h, Client.fresh]

theorem inv_start {table : RunnerTable} (h : ∀ runner ∈ table.rows, runner.Manual)
    (autoLocal : Option ParsedBaseUrl) : Inv profile (Pool.start table autoLocal) :=
  ⟨h, by simp [Pool.start], fun _ _ _ runnerId => synced_load table runnerId,
    by simp [Pool.start]⟩

theorem manual_apply {table : RunnerTable} {change : Change}
    (h : ∀ runner ∈ table.rows, runner.Manual)
    (hchange : ∀ runner, change = .upsert runner → runner.Manual) :
    ∀ runner ∈ (change.apply table).rows, runner.Manual := by
  intro runner hrunner
  cases change with
  | upsert row =>
    rcases Rows.mem_put Runner.runnerId hrunner with rfl | hmem
    · exact hchange runner rfl
    · exact h runner hmem
  | remove runnerId => exact h runner (List.mem_filter.mp hrunner).1

theorem createRunner_manual {uuid : Bytes} {now : Int} {body : Json} {runner : Runner}
    (h : createRunner uuid now body = .ok runner) : runner.Manual := by
  obtain ⟨_, _, _, _, _, _, -, -, hollama, -, rfl⟩ := createRunner_ok h
  exact ⟨rfl, hollama⟩

theorem patchRunner_manual {existing : Runner} {now : Int} {body : Json} {runner : Runner}
    (hexisting : existing.Manual) (h : patchRunner existing now body = .ok runner) :
    runner.Manual := by
  obtain ⟨_, _, _, -, -, rfl⟩ := patchRunner_ok h
  exact hexisting

theorem prepare_manual {table : RunnerTable} (htable : ∀ runner ∈ table.rows, runner.Manual)
    {client : Bytes → Option Client} {method : Method} {path : Bytes} {body : Except Bytes Json}
    {uuid : Bytes} {now : Int} {runner : Runner} {answer : Answer}
    (h : prepare table client method path body uuid now = some (.write (.upsert runner) answer)) :
    runner.Manual := by
  unfold prepare at h
  split at h
  · obtain ⟨json, _, hcreate⟩ := of_bind_ok (ofWrite_upsert (Option.some.inj h))
    exact createRunner_manual hcreate
  · simp only at h
    repeat' split at h
    all_goals try cases h
    rename_i existing hget
    obtain ⟨json, _, hpatch⟩ := of_bind_ok (ofWrite_upsert (Option.some.inj h))
    exact patchRunner_manual (htable existing (Rows.mem_of_get Runner.runnerId hget)) hpatch

/-! One step -/

theorem Inv.answers {t : Pool} (h : Inv profile t) (answers : List Answer) :
    Inv profile { t with answers := answers } := ⟨h.manual, h.pending, h.synced, h.found⟩

theorem Inv.job {t : Pool} (h : Inv profile t) {worker : Worker} (job : Job)
    (hpending : ∀ runner answer, job = .writing (.upsert runner) answer → runner.Manual)
    (hsynced : (∀ answer, job ≠ .refreshing answer) → profile.has worker = true →
      Synced t worker) :
    Inv profile { t with jobs := Function.update t.jobs worker job } := by
  refine ⟨h.manual, fun w runner answer hw => ?_, fun w hw hidle => ?_, h.found⟩
  · by_cases hk : w = worker
    · simp only [hk, Function.update_self] at hw
      exact hpending runner answer hw
    · simp only [Function.update_of_ne hk] at hw
      exact h.pending w runner answer hw
  · by_cases hk : w = worker
    · simp only [hk, Function.update_self] at hidle
      exact hk ▸ hsynced hidle (hk ▸ hw)
    · simp only [Function.update_of_ne hk] at hidle
      exact h.synced w hw hidle

theorem Inv.request {t : Pool} (h : Inv profile t) {worker : Worker}
    (hidle : t.jobs worker = .idle) {prepared : Prepared}
    (hmanual : ∀ runner answer, prepared = .write (.upsert runner) answer → runner.Manual) :
    Inv profile (t.request worker prepared) := by
  cases prepared with
  | answer answer => exact h.answers _
  | write change answer =>
    refine h.job _ (fun runner _ hjob => ?_) fun _ hw => h.synced worker hw (by simp [hidle])
    cases hjob
    exact hmanual runner answer rfl
  | refresh answer => exact h.job _ (by simp) fun hno => absurd rfl (hno answer)

theorem Inv.store {t : Pool} (h : Inv profile t) {change : Change}
    (hchange : ∀ runner, change = .upsert runner → runner.Manual)
    (hsame : ∀ runnerId, wanted (change.apply t.table) runnerId = wanted t.table runnerId) :
    Inv profile (t.store change) := by
  refine ⟨manual_apply h.manual hchange, h.pending, fun w hw hidle runnerId => ?_, ?_⟩
  · exact (h.synced w hw hidle runnerId).trans (hsame runnerId).symm
  · intro jobId runnerId hmem
    exact h.found jobId runnerId (List.mem_filter.mp hmem).1

theorem Inv.write {t : Pool} (h : Inv profile t) {worker : Worker} {change : Change}
    {answer : Answer} (hjob : t.jobs worker = .writing change answer) {result : WriteResult}
    (hok : Harmless profile t (.write worker result)) :
    Inv profile (t.write worker change answer result) := by
  have hchange : ∀ runner, change = .upsert runner → runner.Manual := fun runner hc =>
    h.pending worker runner answer (hc ▸ hjob)
  have hsynced : profile.has worker = true → Synced t worker := fun hw =>
    h.synced worker hw (by simp [hjob])
  rcases hok change answer hjob with ⟨what, rfl⟩ | hsame | ⟨honly, rfl⟩
  · exact (h.job .idle (by simp) fun _ => hsynced).answers _
  · have hstore := h.store hchange hsame
    have hstored : profile.has worker = true → Synced (t.store change) worker := fun hw =>
      hstore.synced worker hw (by simp [Pool.store, hjob])
    cases result with
    | writeFailed what => exact (h.job .idle (by simp) fun _ => hsynced).answers _
    | persistFailed what => exact (hstore.job .idle (by simp) fun _ => hstored).answers _
    | done => exact hstore.job _ (by simp) fun _ => hstored
  · refine ⟨manual_apply h.manual hchange, fun w runner a hw => ?_, fun w hw hidle => ?_, ?_⟩
    · by_cases hk : w = worker
      · simp [Pool.write, hk] at hw
      · simp only [Pool.write, Function.update_of_ne hk] at hw
        exact h.pending w runner a hw
    · have hk := honly w hw
      simp [Pool.write, hk] at hidle
    · intro jobId runnerId hmem
      exact h.found jobId runnerId (List.mem_filter.mp hmem).1

/-- A registry whose clients are the wanted ones, where no job of its own is still due. -/
theorem Inv.reload {t : Pool} (h : Inv profile t) {worker : Worker} (clients : Clients)
    (hclients : ∀ runnerId, (clients.lookup runnerId).map Client.address = wanted t.table runnerId)
    (hauto : ∀ jobId runnerId, (jobId, runnerId) ∈ t.answered → runnerId = kAutoLocalRunnerId)
    (answer : Answer) :
    Inv profile
      ({ t with registries := Function.update t.registries worker clients }.finish worker
        answer) := by
  have hregistry : Inv profile { t with
      registries := Function.update t.registries worker clients } := by
    refine ⟨h.manual, h.pending, fun w hw hidle runnerId => ?_, fun jobId runnerId hmem w hw => ?_⟩
    · by_cases hk : w = worker
      · simpa [hk] using hclients runnerId
      · simpa [Function.update_of_ne hk] using h.synced w hw hidle runnerId
    · obtain ⟨c, hc, hjob⟩ := h.found jobId runnerId hmem w hw
      refine ⟨c, ?_, hjob⟩
      simpa [Pool.clientFor, hauto jobId runnerId hmem] using hc
  refine (hregistry.job .idle (by simp) fun _ _ runnerId => ?_).answers _
  simpa using hclients runnerId

theorem Inv.refresh {t : Pool} (h : Inv profile t) {worker : Worker} {answer : Answer}
    {listError : Option Bytes} (hok : Harmless profile t (.refresh worker listError)) :
    Inv profile (t.refresh worker answer listError) := by
  cases listError with
  | none => exact h.reload _ (synced_load t.table) hok.1 answer
  | some what =>
    have hnone : ∀ runnerId, wanted t.table runnerId = none := by simpa using hok.2
    exact h.reload [] (fun runnerId => (hnone runnerId).symm) hok.1 (badRequest what)

theorem clientFor_setClient (t : Pool) (worker w : Worker) (runnerId id : Bytes) (c : Client) :
    (t.setClient worker runnerId c).clientFor w id =
      if id = runnerId ∧ (runnerId = kAutoLocalRunnerId ∨ w = worker) then some c
      else t.clientFor w id := by
  unfold Pool.setClient Pool.clientFor
  by_cases hauto : runnerId = kAutoLocalRunnerId
  · by_cases hid : id = kAutoLocalRunnerId <;> simp [hauto, hid]
  · simp only [hauto, if_false, false_or]
    by_cases hk : w = worker
    · subst hk
      by_cases hid : id = runnerId
      · subst hid
        simp [hauto, Assoc.lookup_set_self]
      · simp [hid, Assoc.lookup_set_ne (Ne.symm hid)]
    · simp [hk]

theorem setClient_address {t : Pool} {worker : Worker} {runnerId : Bytes} {c c' : Client}
    (hc : t.clientFor worker runnerId = some c) (haddress : c'.address = c.address)
    (w : Worker) (id : Bytes) :
    (((t.setClient worker runnerId c').registries w).lookup id).map Client.address =
      ((t.registries w).lookup id).map Client.address := by
  unfold Pool.setClient
  split
  · rfl
  · rename_i hauto
    by_cases hk : w = worker
    · subst hk
      by_cases hid : id = runnerId
      · subst hid
        simp only [Pool.clientFor, hauto, if_false] at hc
        simp [Assoc.lookup_set_self, hc, haddress]
      · simp [Assoc.lookup_set_ne (Ne.symm hid)]
    · simp [Function.update_of_ne hk]

/-- A client that keeps its address and its jobs takes the place of another. -/
theorem Inv.setClient {t : Pool} (h : Inv profile t) {worker : Worker} {runnerId : Bytes}
    {c c' : Client} (hc : t.clientFor worker runnerId = some c)
    (haddress : c'.address = c.address)
    (hjobs : ∀ jobId, (c.getPull jobId).isSome = true → (c'.getPull jobId).isSome = true) :
    Inv profile (t.setClient worker runnerId c') := by
  have htable : (t.setClient worker runnerId c').table = t.table := by
    unfold Pool.setClient
    split <;> rfl
  have hqueue : (t.setClient worker runnerId c').jobs = t.jobs := by
    unfold Pool.setClient
    split <;> rfl
  have hdue : (t.setClient worker runnerId c').answered = t.answered := by
    unfold Pool.setClient
    split <;> rfl
  refine ⟨?_, ?_, fun w hw hidle id => ?_, fun jobId id hmem w hw => ?_⟩
  · rw [htable]
    exact h.manual
  · rw [hqueue]
    exact h.pending
  · rw [hqueue] at hidle
    rw [htable, setClient_address hc haddress]
    exact h.synced w hw hidle id
  · rw [hdue] at hmem
    obtain ⟨old, hold, hjob⟩ := h.found jobId id hmem w hw
    by_cases hit : id = runnerId ∧ (runnerId = kAutoLocalRunnerId ∨ w = worker)
    · refine ⟨c', by rw [clientFor_setClient, if_pos hit], hjobs jobId ?_⟩
      have hsame : t.clientFor w id = t.clientFor worker runnerId := by
        obtain ⟨rfl, hauto | rfl⟩ := hit
        · simp [Pool.clientFor, hauto]
        · rfl
      rw [hsame, hc] at hold
      exact Option.some.inj hold ▸ hjob
    · exact ⟨old, by rw [clientFor_setClient, if_neg hit, hold], hjob⟩

theorem Inv.due {t : Pool} (h : Inv profile t) {jobId runnerId : Bytes}
    (hfound : ∀ w, profile.serves w .background = true → Found t w jobId runnerId) :
    Inv profile { t with answered := Pool.live t.table (t.answered ++ [(jobId, runnerId)]) } := by
  refine ⟨h.manual, h.pending, h.synced, fun job id hmem w hw => ?_⟩
  rcases List.mem_append.mp (List.mem_filter.mp hmem).1 with hold | hnew
  · exact h.found job id hold w hw
  · obtain ⟨rfl, rfl⟩ := Prod.mk.inj (List.mem_singleton.mp hnew)
    exact hfound w hw

theorem Inv.pull {t : Pool} (h : Inv profile t) {worker : Worker} {runnerId : Bytes}
    (hone : runnerId = kAutoLocalRunnerId ∨
      ∀ other, profile.serves other .background = true → other = worker)
    (body : Except Bytes Json) (available : Bool) (now : Nat) (epoch : Int) :
    Inv profile (t.pull worker runnerId body available now epoch) := by
  unfold Pool.pull
  split
  · exact h.answers _
  · rename_i c hc
    split
    · exact h.answers _
    · rename_i model _
      have hset := h.setClient hc (startPull_address c model now (t.sequence + 1) epoch)
        fun _ hjob => getPull_startPull_mono hjob model now (t.sequence + 1) epoch
      generalize hstarted : c.startPull model now (t.sequence + 1) epoch = started at hset
      have hseq : Inv profile
          { t.setClient worker runnerId started.2 with sequence := t.sequence + 1 } :=
        ⟨hset.manual, hset.pending, hset.synced, hset.found⟩
      simp only
      split
      · exact hseq.answers _
      · rename_i hstatus
        refine (hseq.due fun w hw => ?_).answers _
        refine ⟨started.2, ?_, hstarted ▸ getPull_startPull (hstarted ▸ hstatus)⟩
        rw [show Pool.clientFor
            { t.setClient worker runnerId started.2 with sequence := t.sequence + 1 } w runnerId =
            (t.setClient worker runnerId started.2).clientFor w runnerId from rfl,
          clientFor_setClient, if_pos ⟨rfl, hone.imp_right fun hall => hall w hw⟩]

theorem inv_step (t : Pool) (s : Step) (u : Pool) (h : Inv profile t)
    (hok : Harmless profile t s) (hstep : t.step profile s = some u) : Inv profile u := by
  cases s with
  | request worker method path body uuid now =>
    simp only [Pool.step] at hstep
    split at hstep
    · rename_i hready
      obtain ⟨prepared, hprepared, rfl⟩ := Option.map_eq_some_iff.mp hstep
      exact h.request hready.1 fun runner answer hp =>
        prepare_manual h.manual (hp ▸ hprepared)
    · cases hstep
  | write worker result =>
    simp only [Pool.step] at hstep
    split at hstep
    · rename_i change answer hjob
      cases hstep
      exact h.write hjob hok
    · cases hstep
  | refresh worker listError =>
    simp only [Pool.step] at hstep
    split at hstep
    · cases hstep
      exact h.refresh hok
    · cases hstep
  | pull worker query body available now epoch =>
    simp only [Pool.step] at hstep
    split at hstep
    · cases hstep
      exact h.pull hok body available now epoch
    · cases hstep
  | progress worker runnerId jobId update =>
    obtain ⟨c, hc, rfl⟩ := Option.map_eq_some_iff.mp hstep
    exact h.setClient hc rfl fun _ hjob => getPull_progress hjob jobId update

theorem Inv.agree {t : Pool} (h : Inv profile t) : Agree profile t := by
  refine ⟨fun hidle w hw runnerId hmanual => ?_, fun jobId runnerId hmem w hw => ?_⟩
  · have hsynced := h.synced w hw (by simp [hidle]) runnerId
    rw [Pool.clientFor, if_neg hmanual, hsynced, wanted]
    cases hget : t.table.get runnerId with
    | none => rfl
    | some runner =>
      obtain ⟨hsource, hkind⟩ := h.manual runner (Rows.mem_of_get Runner.runnerId hget)
      cases henabled : runner.enabled <;> simp [clientAddress, hsource, hkind, henabled]
  · obtain ⟨c, hc, hjob⟩ := h.found jobId runnerId hmem w hw
    obtain ⟨job, hget⟩ := Option.isSome_iff_exists.mp hjob
    refine ⟨job, getPull_jobId hget, ?_⟩
    simp [pullAnswer, hc, hget, getPull_ne_nil hget]

/-- In every run whose requests meet the conditions, the workers agree in every state. -/
theorem workers_agree (profile : ConcurrencyProfile) (table : RunnerTable)
    (hmanual : ∀ runner ∈ table.rows, runner.Manual) (autoLocal : Option ParsedBaseUrl)
    (steps : List Step) (t : Pool)
    (hrun : Machine.run (Pool.step profile) (Pool.start table autoLocal) steps = some t)
    (hok : Machine.Along (Pool.step profile) (Harmless profile) (Pool.start table autoLocal)
      steps) :
    Agree profile t :=
  (Machine.run_invariant_along (Pool.step profile) inv_step (inv_start hmanual autoLocal) hok
    hrun).agree

end Steps

theorem not_agree_of_missing {profile : ConcurrencyProfile} {t : Pool} {jobId runnerId : Bytes}
    (hmem : (jobId, runnerId) ∈ t.answered) {worker : Worker}
    (hserves : profile.serves worker .background = true) {message : String}
    (hmissing : pullAnswer (t.clientFor worker runnerId) runnerId jobId = notFound message) :
    ¬ Agree profile t := by
  intro h
  obtain ⟨job, _, hjob⟩ := h.pulls jobId runnerId hmem worker hserves
  rw [hmissing] at hjob
  cases hjob

/-- POST /ai/runners and POST /ai/runner/pull, both on the first general worker. -/
def createAndPull : List Step :=
  [.request (.general 0) .post (ascii "/ai/runners")
      (.ok (.obj [(ascii "base_url", .str (ascii "http://h:1")), (ascii "kind", .str (ascii "ollama")),
        (ascii "name", .str (ascii "n"))])) (ascii "u") 7,
    .write (.general 0) .done, .refresh (.general 0) none,
    .pull (.general 0) (ascii "manual-u") (.ok (.obj [(ascii "model", .str (ascii "m"))])) true 5 7]

/-- A PATCH of the runner's name, on the same worker. -/
def renameRunner : List Step :=
  [.request (.general 0) .patch (ascii "/ai/runners/manual-u")
      (.ok (.obj [(ascii "name", .str (ascii "o"))])) (ascii "v") 8,
    .write (.general 0) .done, .refresh (.general 0) none]

def noRunners : RunnerTable := ⟨[], List.nodup_nil⟩

/-- The second general worker knows neither the runner nor its pull job; with one general
worker, a later PATCH of the name drops the job. -/
theorem runner_unknown_to_others :
    (∃ t, Machine.run (Pool.step {}) (Pool.start noRunners none) createAndPull = some t ∧
      t.table.get (ascii "manual-u") = some ⟨ascii "manual-u", ascii "n", ascii "ollama",
        some (ascii "http://h:1"), ascii "manual", true, 7, 7⟩ ∧
      (∀ worker ∈ [Worker.save 0, .general 0, .general 1, .general 2], t.jobs worker = .idle) ∧
      t.clientFor (.general 1) (ascii "manual-u") = none ∧
      ¬ Agree {} t) ∧
    ∃ t, Machine.run (Pool.step { generalWorkers := 1 }) (Pool.start noRunners none)
        (createAndPull ++ renameRunner) = some t ∧
      ¬ Agree { generalWorkers := 1 } t := by
  constructor
  · obtain ⟨t, hrun, htest⟩ := Machine.run_of_any (Pool.step {}) (Pool.start noRunners none)
      createAndPull (fun t => decide (t.table.get (ascii "manual-u") =
          some ⟨ascii "manual-u", ascii "n", ascii "ollama", some (ascii "http://h:1"),
            ascii "manual", true, 7, 7⟩) &&
        decide (∀ worker ∈ [Worker.save 0, .general 0, .general 1, .general 2],
          t.jobs worker = .idle) &&
        decide (t.clientFor (.general 1) (ascii "manual-u") = none) &&
        decide ((ascii "pull-5-1", ascii "manual-u") ∈ t.answered)) (by decide +kernel)
    simp only [Bool.and_eq_true, decide_eq_true_eq] at htest
    obtain ⟨⟨⟨hrow, hidle⟩, hclient⟩, hmem⟩ := htest
    refine ⟨t, hrun, hrow, hidle, hclient, ?_⟩
    have hmissing : pullAnswer (t.clientFor (.general 1) (ascii "manual-u")) (ascii "manual-u")
        (ascii "pull-5-1") = notFound "Runner not configured." := by
      rw [hclient]
      rfl
    exact not_agree_of_missing hmem (by decide) hmissing
  · obtain ⟨t, hrun, htest⟩ := Machine.run_of_any (Pool.step { generalWorkers := 1 })
      (Pool.start noRunners none) (createAndPull ++ renameRunner)
      (fun t => decide ((ascii "pull-5-1", ascii "manual-u") ∈ t.answered) &&
        decide (pullAnswer (t.clientFor (.general 0) (ascii "manual-u")) (ascii "manual-u")
          (ascii "pull-5-1") = notFound "Pull job not found.")) (by decide +kernel)
    simp only [Bool.and_eq_true, decide_eq_true_eq] at htest
    exact ⟨t, hrun, not_agree_of_missing htest.1 (by decide) htest.2⟩

/-- A pull on the auto-local runner and a DELETE of an unknown runner. -/
theorem workers_agree_auto_local :
    let steps : List Step :=
      [.pull (.general 0) [] (.ok (.obj [(ascii "model", .str (ascii "m"))])) true 5 7,
        .request (.general 1) .delete (ascii "/ai/runners/manual-u") (.ok .null) [] 8]
    ∃ t, Machine.run (Pool.step {}) (Pool.start noRunners (some ⟨ascii "h", ascii "1"⟩)) steps =
      some t ∧ Agree {} t := by
  intro steps
  obtain ⟨t, hrun, _⟩ := Machine.run_of_any (Pool.step {})
    (Pool.start noRunners (some ⟨ascii "h", ascii "1"⟩)) steps (fun _ => true) (by decide +kernel)
  refine ⟨t, hrun, workers_agree {} noRunners (by simp [noRunners]) _ steps t hrun ?_⟩
  exact ⟨.inl (by decide +kernel), fun _ _ => ⟨trivial, fun _ _ => trivial⟩⟩

end Runners

end HolderDaemon
