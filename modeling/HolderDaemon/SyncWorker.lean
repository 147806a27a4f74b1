import HolderDaemon.Bytes
import HolderDaemon.Monitored

/-!
The worker that synchronises projects (`sync/ProjectSyncWorker.cpp`): a pass of pulls at the
start, then cycles until the daemon stops. What the worker calls is the environment: it may throw
at any call and answer anything.
-/

set_option autoImplicit false

open Bytes

namespace HolderDaemon

namespace SyncWorker

open Monitored

structure Project where
  projectId : Bytes
  rootPath : Bytes
  gitRemoteUrl : Option Bytes
  deriving DecidableEq

structure SyncState where
  lastPullAt : Option Int
  nextPullRetryAt : Option Int
  lastPushAt : Option Int
  nextRetryAt : Option Int
  deriving DecidableEq

structure RepoSyncMetrics where
  uncommittedChangesCount : Int
  unpushedCommitsCount : Int
  deriving DecidableEq

structure SyncOptions where
  pull : Bool
  push : Bool
  pushAfterFailedPull : Bool
  branch : Bytes := []
  setUpstream : Bool := true
  now : Int
  deriving DecidableEq

/-- The calls of the worker, with what they are answered. -/
inductive Event where
  | opened (ok : Bool)
  | timed (now : Int)
  | listed (projects : Option (List Project))
  | locked (rootPath : Bytes) (ok : Bool)
  | unlocked (rootPath : Bytes)
  | repoOpened (rootPath : Bytes) (ok : Bool)
  | remoteSet (url : Bytes) (ok : Bool)
  | inspected (rootPath : Bytes) (metrics : Option RepoSyncMetrics)
  | counted (projectId : Bytes) (metrics : RepoSyncMetrics) (updatedAt : Int) (ok : Bool)
  | looked (projectId : Bytes) (state : Option (Option SyncState))
  | synced (projectId : Bytes) (options : SyncOptions) (ok : Bool)
  | polled (requested : Bool)
  | slept

structure Intervals where
  push : Int := 1200
  pull : Int := 300
  poll : Nat := 30

structure Environment where
  throws : List Event → Bool
  projects : List Event → List Project
  metrics : List Event → RepoSyncMetrics
  state : List Event → Option SyncState
  now : List Event → Int
  requested : List Event → Bool

/-- `should_attempt_pull` and `should_attempt_push`, of the last time, the next retry, the time
and the interval. -/
structure Policy where
  shouldAttemptPull : Option Int → Option Int → Int → Int → Bool
  shouldAttemptPush : Option Int → Option Int → Int → Int → Bool

def hasRemote (p : Project) : Bool :=
  match p.gitRemoteUrl with
  | none => false
  | some url => url ≠ []

section Worker
variable (env : Environment) (policy : Policy) (intervals : Intervals)

/-- A call that answers nothing. -/
def call (event : Bool → Event) : Prog Event Unit :=
  .ask (fun log => !env.throws log) event fun ok => if ok then some () else none

/-- A call that answers something. -/
def fetch {α : Type} (answer : List Event → α) (event : Option α → Event) : Prog Event α :=
  .ask (fun log => if env.throws log then none else some (answer log)) event id

/-- `lock_operation`, held while the body runs. -/
def lockOperation {α : Type} (rootPath : Bytes) (body : Prog Event α) : Prog Event α := do
  call env (.locked rootPath)
  body.always (.unlocked rootPath)

def refreshMetrics (p : Project) (now : Int) : Prog Event Unit := do
  let metrics ← fetch env env.metrics (.inspected p.rootPath)
  call env (.counted p.projectId metrics now)

def refresh (p : Project) (now : Int) : Prog Event Unit := do
  call env (.repoOpened p.rootPath)
  call env (.remoteSet (p.gitRemoteUrl.getD []))
  refreshMetrics env p now

/-- The metrics after a synchronisation. -/
def afterwards (p : Project) (now : Int) (due : Bool) : Prog Event Unit :=
  if due then do
    let _ ← (lockOperation env p.rootPath (refreshMetrics env p now)).attempt
    pure ()
  else pure ()

def startupOptions (now : Int) : SyncOptions :=
  { pull := true, push := false, pushAfterFailedPull := false, now }

def pullDue (state : Option SyncState) (now : Int) : Bool :=
  policy.shouldAttemptPull (state.bind (·.lastPullAt)) (state.bind (·.nextPullRetryAt)) now
    intervals.pull

def pushDue (state : Option SyncState) (now : Int) : Bool :=
  policy.shouldAttemptPush (state.bind (·.lastPushAt)) (state.bind (·.nextRetryAt)) now
    intervals.push

def cycleOptions (state : Option SyncState) (now : Int) : SyncOptions :=
  { pull := pullDue policy intervals state now, push := pushDue policy intervals state now,
    pushAfterFailedPull := true, now }

def startupProject (now : Int) (p : Project) : Prog Event Unit :=
  if hasRemote p = false then pure ()
  else do
    let _ ← lockOperation env p.rootPath (refresh env p now).attempt
    let current ← fetch env env.state (.looked p.projectId)
    if (current.bind (·.lastPullAt)).isSome then pure ()
    else do
      call env (.synced p.projectId (startupOptions now))
      afterwards env p now true

/-- `now_epoch_seconds`. -/
def nowEpochSeconds : Prog Event Int := .ask env.now .timed some

/-- `run_startup_pull_pass`. -/
def runStartupPullPass : Prog Event Unit := do
  call env .opened
  let now ← nowEpochSeconds env
  let projects ← fetch env env.projects .listed
  .each (startupProject env now) projects

def cycleProject (now : Int) (p : Project) : Prog Event Unit :=
  if hasRemote p = false then pure ()
  else do
    let refreshed ← lockOperation env p.rootPath (refresh env p now).attempt
    if refreshed = false then pure ()
    else do
      let state ← fetch env env.state (.looked p.projectId)
      if pullDue policy intervals state now = false ∧ pushDue policy intervals state now = false
      then pure ()
      else do
        call env (.synced p.projectId (cycleOptions policy intervals state now))
        afterwards env p now (pullDue policy intervals state now)
        afterwards env p now (pushDue policy intervals state now)

/-- `run_push_cycle`. -/
def runPushCycle : Prog Event Unit := do
  call env .opened
  let now ← nowEpochSeconds env
  let projects ← fetch env env.projects .listed
  .each (cycleProject env policy intervals now) projects

def isRequested : Prog Event Bool := .ask env.requested .polled some

/-- The seconds between two cycles. -/
def sleep : Nat → Prog Event Unit
  | 0 => do
    let _ ← isRequested env
    pure ()
  | seconds + 1 => do
    if ← isRequested env then pure ()
    else do
      .ask (fun _ => ()) (fun _ => .slept) some
      sleep seconds

/-- The loop of `run`, for some of its cycles. -/
def cycles : Nat → Prog Event Unit
  | 0 => pure ()
  | n + 1 => do
    if ← isRequested env then pure ()
    else do
      let _ ← (runPushCycle env policy intervals).attempt
      sleep env intervals.poll
      cycles n

/-- `run`. -/
def run (n : Nat) : Prog Event Unit := do
  let _ ← (runStartupPullPass env).attempt
  cycles env policy intervals n

end Worker

/-! What the worker may do -/

def Event.threw : Event → Bool
  | .opened ok => !ok
  | .timed _ => false
  | .listed projects => projects.isNone
  | .locked _ ok => !ok
  | .unlocked _ => false
  | .repoOpened _ ok => !ok
  | .remoteSet _ ok => !ok
  | .inspected _ metrics => metrics.isNone
  | .counted _ _ _ ok => !ok
  | .looked _ state => state.isNone
  | .synced _ _ ok => !ok
  | .polled _ => false
  | .slept => false

/-- The operation that is locked: its root, whether the repository was opened under the lock, and
what was seen of it there. -/
structure Operation where
  rootPath : Bytes
  repoOpened : Bool := false
  metrics : Option RepoSyncMetrics := none

/-- What a pass has listed, what of it is still to be looked at, whether a call of the pass threw,
and the synchronisation that has to come next. -/
structure Monitor where
  pass : Nat := 0
  now : Int := 0
  listing : List Project := []
  waiting : List Project := []
  failed : Bool := false
  operation : Option Operation := none
  owed : Option (Bytes × SyncOptions) := none
  stopped : Bool := false

/-- What is left behind the first project with this id. -/
def dropThrough (projectId : Bytes) : List Project → Option (List Project)
  | [] => none
  | p :: rest => if p.projectId = projectId then some rest else dropThrough projectId rest

/-- A project is passed over only when a call of the pass threw. -/
def Monitor.takeUp (m : Monitor) (projectId : Bytes) : Option (List Project) :=
  if m.failed then dropThrough projectId m.waiting
  else
    match m.waiting with
    | [] => none
    | p :: rest => if p.projectId = projectId then some rest else none

def Monitor.Free (m : Monitor) : Prop :=
  m.operation.isNone ∧ m.owed.isNone ∧ m.stopped = false

instance (m : Monitor) : Decidable m.Free := inferInstanceAs (Decidable (_ ∧ _))

theorem Monitor.Free.no_operation {m : Monitor} (h : m.Free) : m.operation = none :=
  Option.isNone_iff_eq_none.mp h.1

theorem Monitor.Free.nothing_owed {m : Monitor} (h : m.Free) : m.owed = none :=
  Option.isNone_iff_eq_none.mp h.2.1

section Monitor
variable (policy : Policy) (intervals : Intervals)

/-- The synchronisation that the state of a project asks for, if any. -/
def wanted (pass : Nat) (state : Option SyncState) (now : Int) : Option SyncOptions :=
  if pass = 1 then
    if (state.bind (·.lastPullAt)).isSome then none else some (startupOptions now)
  else
    let options := cycleOptions policy intervals state now
    if options.pull || options.push then some options else none

/-- Outside of a lock a pass begins, a project that is listed is locked, and the projects are
looked at in their order; what the state of one asks for is the next that is done. Under the lock
of a project only its own repository is touched. -/
def Monitor.next (m : Monitor) : Event → Option Monitor
  | .opened _ =>
    if m.Free then
      some { m with pass := m.pass + 1, listing := [], waiting := [], failed := false }
    else none
  | .timed now => if m.Free then some { m with now } else none
  | .listed projects =>
    if m.Free then
      some { m with
        listing := projects.getD [], waiting := (projects.getD []).filter hasRemote,
        failed := false }
    else none
  | .locked rootPath ok =>
    if m.Free ∧ ∃ p ∈ m.listing, p.rootPath = rootPath ∧ hasRemote p = true then
      some { m with operation := if ok then some { rootPath } else none }
    else none
  | .unlocked rootPath =>
    match m.operation with
    | some o => if o.rootPath = rootPath then some { m with operation := none } else none
    | none => none
  | .repoOpened rootPath ok =>
    match m.operation with
    | some o =>
      if o.rootPath = rootPath then some { m with operation := some { o with repoOpened := ok } }
      else none
    | none => none
  | .remoteSet url _ =>
    match m.operation with
    | some o =>
      if o.repoOpened = true ∧
          ∃ p ∈ m.listing, p.rootPath = o.rootPath ∧ p.gitRemoteUrl = some url then some m
      else none
    | none => none
  | .inspected rootPath metrics =>
    match m.operation with
    | some o =>
      if o.rootPath = rootPath then some { m with operation := some { o with metrics } } else none
    | none => none
  | .counted projectId metrics updatedAt _ =>
    match m.operation with
    | some o =>
      if (o.metrics = some metrics ∧ m.now = updatedAt) ∧
          ∃ p ∈ m.listing, p.rootPath = o.rootPath ∧ p.projectId = projectId then some m
      else none
    | none => none
  | .looked projectId state =>
    match m.takeUp projectId with
    | some rest =>
      if m.Free then
        some { m with
          waiting := rest,
          owed := state.bind fun s =>
            (wanted policy intervals m.pass s m.now).map fun options => (projectId, options) }
      else none
    | none => none
  | .synced projectId options _ =>
    if m.owed = some (projectId, options) then some { m with owed := none } else none
  | .polled requested =>
    if m.operation.isNone ∧ m.owed.isNone ∧ (m.failed = true ∨ m.waiting = []) then
      some { m with stopped := requested }
    else none
  | .slept => if m.Free then some m else none

def Monitor.step (m : Monitor) (e : Event) : Option Monitor :=
  (m.next policy intervals e).map fun t => if e.threw then { t with failed := true } else t

end Monitor

/-! The worker keeps to it -/

section Accepted
variable {policy : Policy} {intervals : Intervals} {env : Environment}

/-- Between two calls of a pass, outside of a lock. -/
structure Between (first : Bool) (m : Monitor) : Prop where
  operation : m.operation = none
  owed : m.owed = none
  running : m.stopped = false
  pass : decide (m.pass = 1) = first
  begun : 1 ≤ m.pass

/-- At the end of a pass. -/
structure Calm (first : Bool) (m : Monitor) : Prop extends Between first m where
  settled : m.failed = true ∨ m.waiting = []

/-- `rest` is what the pass has still to come to. -/
structure Idle (first : Bool) (now : Int) (all rest : List Project) (m : Monitor) : Prop
    extends Between first m where
  time : m.now = now
  listing : m.listing = all
  part : rest <:+ all
  waiting : rest.filter hasRemote <:+ m.waiting
  exact : m.failed = false → m.waiting = rest.filter hasRemote

/-- The same under the lock of a root. -/
def Held (first : Bool) (now : Int) (all rest : List Project) (rootPath : Bytes)
    (P : Operation → Prop) (m : Monitor) : Prop :=
  ∃ o, m.operation = some o ∧ o.rootPath = rootPath ∧ P o ∧
    Idle first now all rest { m with operation := none }

variable {first : Bool} {now : Int} {all rest : List Project} {p : Project}

theorem Between.free {m : Monitor} (h : Between first m) : m.Free :=
  ⟨by simp [h.operation], by simp [h.owed], h.running⟩

theorem Idle.skip {m : Monitor} (h : Idle first now all (p :: rest) m)
    (hskip : hasRemote p = false ∨ m.failed = true) : Idle first now all rest m where
  toBetween := h.toBetween
  time := h.time
  listing := h.listing
  part := (List.suffix_cons p rest).trans h.part
  waiting := ((List.suffix_cons p rest).filter hasRemote).trans h.waiting
  exact hfailed := by
    rcases hskip with hnone | htrue
    · rw [h.exact hfailed, List.filter_cons_of_neg (by simp [hnone])]
    · rw [hfailed] at htrue
      cases htrue

theorem Idle.fail {m : Monitor} (h : Idle first now all rest m) :
    Idle first now all rest { m with failed := true } where
  toBetween := ⟨h.operation, h.owed, h.running, h.pass, h.begun⟩
  time := h.time
  listing := h.listing
  part := h.part
  waiting := h.waiting
  exact hfailed := by cases hfailed

theorem Idle.settle {m : Monitor} (h : Idle first now all rest { m with owed := none })
    (howed : m.owed = none) : Idle first now all rest m where
  toBetween := ⟨h.operation, howed, h.running, h.pass, h.begun⟩
  time := h.time
  listing := h.listing
  part := h.part
  waiting := h.waiting
  exact := h.exact

theorem Held.fail {P Q : Operation → Prop} {root : Bytes} {m : Monitor}
    (h : Held first now all rest root P m) (hpq : ∀ o, P o → Q o) :
    Held first now all rest root Q { m with failed := true } := by
  obtain ⟨o, ho, hroot, hp, hidle⟩ := h
  exact ⟨o, ho, hroot, hpq o hp, hidle.fail⟩

theorem Idle.calm {m : Monitor} (h : Idle first now all rest m) (hfailed : m.failed = true) :
    Calm first m := ⟨h.toBetween, .inl hfailed⟩

theorem Idle.mem {m : Monitor} (h : Idle first now all (p :: rest) m) : p ∈ all :=
  h.part.subset List.mem_cons_self

theorem dropThrough_suffix {w l : List Project} (h : p :: l <:+ w) :
    ∃ w', dropThrough p.projectId w = some w' ∧ l <:+ w' := by
  induction w with
  | nil => cases List.suffix_nil.mp h
  | cons q w ih =>
    rw [dropThrough]
    by_cases hq : q.projectId = p.projectId
    · rw [if_pos hq]
      refine ⟨w, rfl, ?_⟩
      rcases List.suffix_cons_iff.mp h with heq | hlater
      · rw [(List.cons.inj heq).2]
      · exact (List.suffix_cons p l).trans hlater
    · rw [if_neg hq]
      rcases List.suffix_cons_iff.mp h with heq | hlater
      · exact absurd (congrArg Project.projectId (List.cons.inj heq).1.symm) hq
      · exact ih hlater

/-- The next project with a remote can be taken up. -/
theorem Idle.takeUp {m : Monitor} (h : Idle first now all (p :: rest) m)
    (hremote : hasRemote p = true) :
    ∃ left, m.takeUp p.projectId = some left ∧ rest.filter hasRemote <:+ left ∧
      (m.failed = false → left = rest.filter hasRemote) := by
  have hwaiting := h.waiting
  rw [List.filter_cons_of_pos hremote] at hwaiting
  cases hfailed : m.failed with
  | true =>
    obtain ⟨left, hdrop, hleft⟩ := dropThrough_suffix hwaiting
    exact ⟨left, by rw [Monitor.takeUp, if_pos hfailed, hdrop], hleft, fun hf => by cases hf⟩
  | false =>
    have hexact := h.exact hfailed
    rw [List.filter_cons_of_pos hremote] at hexact
    exact ⟨rest.filter hasRemote, by simp [Monitor.takeUp, hfailed, hexact], List.suffix_refl _,
      fun _ => rfl⟩

theorem url_of_hasRemote (h : hasRemote p = true) :
    p.gitRemoteUrl = some (p.gitRemoteUrl.getD []) := by
  rw [hasRemote] at h
  split at h
  case h_1 => cases h
  case h_2 url hurl =>
    rw [hurl]
    rfl

/-- A call from `P` to `Q`, or to `R` where it throws. -/
theorem call_meets {P Q R : Monitor → Prop} {event : Bool → Event}
    (hthrew : ∀ ok, (event ok).threw = !ok)
    (h : ∀ ok m, P m → ∃ t, m.next policy intervals (event ok) = some t ∧
      if ok then Q t else R { t with failed := true }) :
    Meets (Monitor.step policy intervals) {} P (call env event) (fun _ => Q) R := by
  refine .ask fun ok m hm => ?_
  obtain ⟨t, ht, hpost⟩ := h ok m hm
  cases ok with
  | true => exact ⟨t, by simp [Monitor.step, ht, hthrew], hpost⟩
  | false => exact ⟨{ t with failed := true }, by simp [Monitor.step, ht, hthrew], hpost⟩

theorem fetch_meets {α : Type} {answer : List Event → α} {event : Option α → Event}
    {P R : Monitor → Prop} {Q : α → Monitor → Prop}
    (hthrew : ∀ result, (event result).threw = result.isNone)
    (h : ∀ result m, P m → ∃ t, m.next policy intervals (event result) = some t ∧
      match result with
      | some a => Q a t
      | none => R { t with failed := true }) :
    Meets (Monitor.step policy intervals) {} P (fetch env answer event) Q R := by
  refine .ask fun result m hm => ?_
  obtain ⟨t, ht, hpost⟩ := h result m hm
  cases result with
  | some a => exact ⟨t, by simp [Monitor.step, ht, hthrew], hpost⟩
  | none => exact ⟨{ t with failed := true }, by simp [Monitor.step, ht, hthrew], hpost⟩

/-- Under a lock, and a call threw. -/
def Broken (first : Bool) (now : Int) (all rest : List Project) (rootPath : Bytes)
    (m : Monitor) : Prop :=
  Held first now all rest rootPath (fun _ => True) m ∧ m.failed = true

theorem Held.broken {P : Operation → Prop} {root : Bytes} {m : Monitor}
    (h : Held first now all rest root P m) :
    Broken first now all rest root { m with failed := true } :=
  ⟨h.fail fun _ _ => trivial, rfl⟩

theorem refreshMetrics_meets (hp : p ∈ all) :
    Meets (Monitor.step policy intervals) {}
      (Held first now all rest p.rootPath fun _ => True) (refreshMetrics env p now)
      (fun _ => Held first now all rest p.rootPath fun _ => True)
      (Broken first now all rest p.rootPath) := by
  have hinspect : Meets (Monitor.step policy intervals) {}
      (Held first now all rest p.rootPath fun _ => True)
      (fetch env env.metrics (.inspected p.rootPath))
      (fun metrics => Held first now all rest p.rootPath fun o => o.metrics = some metrics)
      (Broken first now all rest p.rootPath) := by
    refine fetch_meets (fun _ => rfl) fun metrics m hm => ?_
    obtain ⟨o, ho, hroot, -, hidle⟩ := hm
    have hheld : Held first now all rest p.rootPath (fun o' => o'.metrics = metrics)
        { m with operation := some { o with metrics } } := ⟨_, rfl, hroot, rfl, hidle⟩
    refine ⟨{ m with operation := some { o with metrics } }, ?_, ?_⟩
    · simp only [Monitor.next, ho, if_pos hroot]
    · cases metrics with
      | none => exact hheld.broken
      | some metrics => exact hheld
  refine .bind hinspect fun metrics => call_meets (fun _ => rfl) fun ok m hm => ?_
  have hheld := hm
  obtain ⟨o, ho, hroot, hmetrics, hidle⟩ := hm
  have hguard : (o.metrics = some metrics ∧ m.now = now) ∧
      ∃ q ∈ m.listing, q.rootPath = o.rootPath ∧ q.projectId = p.projectId :=
    ⟨⟨hmetrics, hidle.time⟩, p, hidle.listing.symm ▸ hp, hroot.symm, rfl⟩
  refine ⟨m, by simp only [Monitor.next, ho, if_pos hguard], ?_⟩
  cases ok with
  | true => exact ⟨o, ho, hroot, trivial, hidle⟩
  | false => exact hheld.broken

theorem refresh_meets (hp : p ∈ all) (hremote : hasRemote p = true) :
    Meets (Monitor.step policy intervals) {}
      (Held first now all rest p.rootPath fun _ => True) (refresh env p now)
      (fun _ => Held first now all rest p.rootPath fun _ => True)
      (Broken first now all rest p.rootPath) := by
  have hopen : Meets (Monitor.step policy intervals) {}
      (Held first now all rest p.rootPath fun _ => True) (call env (.repoOpened p.rootPath))
      (fun _ => Held first now all rest p.rootPath fun o => o.repoOpened = true)
      (Broken first now all rest p.rootPath) := by
    refine call_meets (fun _ => rfl) fun ok m hm => ?_
    obtain ⟨o, ho, hroot, -, hidle⟩ := hm
    have hheld : Held first now all rest p.rootPath (fun o' => o'.repoOpened = ok)
        { m with operation := some { o with repoOpened := ok } } := ⟨_, rfl, hroot, rfl, hidle⟩
    refine ⟨{ m with operation := some { o with repoOpened := ok } }, ?_, ?_⟩
    · simp only [Monitor.next, ho, if_pos hroot]
    · cases ok with
      | true => exact hheld
      | false => exact hheld.broken
  refine .bind hopen fun _ => .bind ?_ fun _ => refreshMetrics_meets hp
  refine call_meets (fun _ => rfl) fun ok m hm => ?_
  have hheld := hm
  obtain ⟨o, ho, hroot, hopened, hidle⟩ := hm
  have hguard : o.repoOpened = true ∧ ∃ q ∈ m.listing,
      q.rootPath = o.rootPath ∧ q.gitRemoteUrl = some (p.gitRemoteUrl.getD []) :=
    ⟨hopened, p, hidle.listing.symm ▸ hp, hroot.symm, url_of_hasRemote hremote⟩
  refine ⟨m, by simp only [Monitor.next, ho, if_pos hguard], ?_⟩
  cases ok with
  | true => exact ⟨o, ho, hroot, trivial, hidle⟩
  | false => exact hheld.broken

/-- The lock is given back whatever its body does; `C` says what is known of the failures. -/
theorem lockOperation_meets {α : Type} {body : Prog Event α} (C : α → Bool → Prop) (hp : p ∈ all)
    (hremote : hasRemote p = true)
    (hbody : Meets (Monitor.step policy intervals) {}
      (Held first now all rest p.rootPath fun _ => True) body
      (fun a m => Held first now all rest p.rootPath (fun _ => True) m ∧ C a m.failed)
      (Broken first now all rest p.rootPath)) :
    Meets (Monitor.step policy intervals) {} (Idle first now all rest)
      (lockOperation env p.rootPath body)
      (fun a m => Idle first now all rest m ∧ C a m.failed)
      (fun m => Idle first now all rest m ∧ m.failed = true) := by
  have hlock : Meets (Monitor.step policy intervals) {} (Idle first now all rest)
      (call env (.locked p.rootPath)) (fun _ => Held first now all rest p.rootPath fun _ => True)
      (fun m => Idle first now all rest m ∧ m.failed = true) := by
    refine call_meets (fun _ => rfl) fun ok m hm => ?_
    have hguard : m.Free ∧ ∃ q ∈ m.listing, q.rootPath = p.rootPath ∧ hasRemote q = true :=
      ⟨hm.free, p, hm.listing.symm ▸ hp, rfl, hremote⟩
    have hbare : Idle first now all rest { m with operation := none } :=
      ⟨⟨rfl, hm.owed, hm.running, hm.pass, hm.begun⟩, hm.time, hm.listing, hm.part, hm.waiting,
        hm.exact⟩
    refine ⟨_, by simp only [Monitor.next, if_pos hguard]; rfl, ?_⟩
    cases ok with
    | false => exact ⟨hbare.fail, rfl⟩
    | true => exact ⟨_, rfl, rfl, trivial, hbare⟩
  have hunlock : ∀ {c : Bool → Prop} m,
      Held first now all rest p.rootPath (fun _ => True) m ∧ c m.failed →
      ∃ t, m.step policy intervals (.unlocked p.rootPath) = some t ∧
        Idle first now all rest t ∧ c t.failed := by
    rintro c m ⟨⟨o, ho, hroot, -, hidle⟩, hc⟩
    refine ⟨{ m with operation := none }, ?_, hidle, hc⟩
    simp only [Monitor.step, Monitor.next, ho, if_pos hroot]
    rfl
  exact .bind hlock fun _ => .always hbody (fun a => hunlock) (hunlock (c := (· = true)))

theorem looked_meets (hremote : hasRemote p = true) :
    Meets (Monitor.step policy intervals) {} (Idle first now all (p :: rest))
      (fetch env env.state (.looked p.projectId))
      (fun state m => Idle first now all rest { m with owed := none } ∧
        m.owed = (wanted policy intervals m.pass state now).map fun options =>
          (p.projectId, options))
      (Calm first) := by
  refine fetch_meets (fun _ => rfl) fun state m hm => ?_
  obtain ⟨left, htake, hleft, hexact⟩ := hm.takeUp hremote
  have hidle : Idle first now all rest { m with waiting := left, owed := none } :=
    ⟨⟨hm.operation, rfl, hm.running, hm.pass, hm.begun⟩, hm.time, hm.listing,
      (List.suffix_cons p rest).trans hm.part, hleft, hexact⟩
  refine ⟨_, by simp only [Monitor.next, htake, if_pos hm.free]; rfl, ?_⟩
  cases state with
  | none => exact (Idle.fail hidle).calm rfl
  | some s => exact ⟨hidle, by rw [← hm.time]; rfl⟩

theorem synced_meets {options : SyncOptions} :
    Meets (Monitor.step policy intervals) {}
      (fun m => Idle first now all rest { m with owed := none } ∧
        m.owed = some (p.projectId, options))
      (call env (.synced p.projectId options)) (fun _ => Idle first now all rest)
      (Calm first) := by
  refine call_meets (fun _ => rfl) fun ok m hm => ?_
  obtain ⟨hidle, howed⟩ := hm
  refine ⟨{ m with owed := none }, by simp only [Monitor.next, if_pos howed], ?_⟩
  cases ok with
  | true => exact hidle
  | false => exact hidle.fail.calm rfl

/-- The metrics before a synchronisation, whose failure is caught under the lock. -/
theorem before_meets (hp : p ∈ all) (hremote : hasRemote p = true) :
    Meets (Monitor.step policy intervals) {} (Idle first now all rest)
      (lockOperation env p.rootPath (refresh env p now).attempt)
      (fun refreshed m => Idle first now all rest m ∧ (refreshed = false → m.failed = true))
      (Calm first) := by
  have hbody : Meets (Monitor.step policy intervals) {}
      (Held first now all rest p.rootPath fun _ => True) (refresh env p now).attempt
      (fun refreshed m => Held first now all rest p.rootPath (fun _ => True) m ∧
        (refreshed = false → m.failed = true))
      (Broken first now all rest p.rootPath) :=
    .attempt ((refresh_meets hp hremote).weaken (fun _ h => h)
      (fun _ _ h => ⟨h, fun hf => by cases hf⟩) fun _ h => ⟨h.1, fun _ => h.2⟩) _
  exact (lockOperation_meets (fun ok failed => ok = false → failed = true) hp hremote hbody).weaken
    (fun _ h => h) (fun _ _ h => h) fun _ h => h.1.calm h.2

theorem afterwards_meets (hp : p ∈ all) (hremote : hasRemote p = true) (due : Bool) :
    Meets (Monitor.step policy intervals) {} (Idle first now all rest)
      (afterwards env p now due) (fun _ => Idle first now all rest) (Calm first) := by
  cases due with
  | false => exact .pure () fun _ hm => hm
  | true =>
    have hbody : Meets (Monitor.step policy intervals) {}
        (Held first now all rest p.rootPath fun _ => True) (refreshMetrics env p now)
        (fun _ m => Held first now all rest p.rootPath (fun _ => True) m ∧ True)
        (Broken first now all rest p.rootPath) :=
      (refreshMetrics_meets hp).weaken (fun _ h => h) (fun _ _ h => ⟨h, trivial⟩) fun _ h => h
    have hlocked := @lockOperation_meets _ _ env _ _ _ _ _ _ _ (fun _ _ => True) hp hremote hbody
    exact .bind (.attempt (hlocked.weaken (fun _ h => h) (fun _ _ h => h.1) fun _ h => h.1) _)
      fun _ => .pure () fun _ hm => hm

theorem startupProject_meets :
    Meets (Monitor.step policy intervals) {} (Idle true now all (p :: rest))
      (startupProject env now p) (fun _ => Idle true now all rest) (Calm true) := by
  by_cases hp : p ∈ all
  swap
  · intro log m hm hidle
    exact absurd hidle.mem hp
  rw [startupProject]
  split
  case isTrue hnone => exact .pure () fun _ hm => hm.skip (.inl hnone)
  case isFalse hnot =>
    have hremote : hasRemote p = true := by simpa using hnot
    refine .bind (before_meets hp hremote) fun _ => ?_
    refine .bind ((looked_meets hremote).pre fun _ h => h.1) fun current => ?_
    have hwanted : ∀ m : Monitor, decide (m.pass = 1) = true →
        wanted policy intervals m.pass current now =
          if (current.bind (·.lastPullAt)).isSome then none else some (startupOptions now) :=
      fun m hpass => by rw [wanted, if_pos (of_decide_eq_true hpass)]
    split
    case isTrue hpulled =>
      refine .pure () fun m hm => ?_
      obtain ⟨hidle, howed⟩ := hm
      rw [hwanted m hidle.pass, if_pos hpulled] at howed
      exact hidle.settle howed
    case isFalse hnever =>
      refine .bind (synced_meets.pre fun m hm => ⟨hm.1, ?_⟩) fun _ =>
        afterwards_meets hp hremote true
      rw [hm.2, hwanted m hm.1.pass, if_neg hnever, Option.map_some]

theorem cycleProject_meets :
    Meets (Monitor.step policy intervals) {} (Idle false now all (p :: rest))
      (cycleProject env policy intervals now p) (fun _ => Idle false now all rest)
      (Calm false) := by
  by_cases hp : p ∈ all
  swap
  · intro log m hm hidle
    exact absurd hidle.mem hp
  rw [cycleProject]
  split
  case isTrue hnone => exact .pure () fun _ hm => hm.skip (.inl hnone)
  case isFalse hnot =>
    have hremote : hasRemote p = true := by simpa using hnot
    refine .bind (before_meets hp hremote) fun refreshed => ?_
    split
    case isTrue hfalse => exact .pure () fun _ hm => hm.1.skip (.inr (hm.2 hfalse))
    case isFalse =>
      refine .bind ((looked_meets hremote).pre fun _ h => h.1) fun state => ?_
      have hwanted : ∀ m : Monitor, decide (m.pass = 1) = false →
          wanted policy intervals m.pass state now =
            if pullDue policy intervals state now || pushDue policy intervals state now then
              some (cycleOptions policy intervals state now)
            else none :=
        fun m hpass => by rw [wanted, if_neg (of_decide_eq_false hpass)]; rfl
      split
      case isTrue hnot =>
        refine .pure () fun m hm => ?_
        obtain ⟨hidle, howed⟩ := hm
        rw [hwanted m hidle.pass, hnot.1, hnot.2] at howed
        exact hidle.settle howed
      case isFalse hdue =>
        have hor : (pullDue policy intervals state now || pushDue policy intervals state now) =
            true := by
          rw [Bool.or_eq_true]
          by_contra hneither
          rw [not_or, Bool.not_eq_true, Bool.not_eq_true] at hneither
          exact hdue hneither
        refine .bind (synced_meets.pre fun m hm => ⟨hm.1, ?_⟩) fun _ =>
          .bind (afterwards_meets hp hremote _) fun _ => afterwards_meets hp hremote _
        rw [hm.2, hwanted m hm.1.pass, if_pos hor, Option.map_some]

variable (env) in
/-- A pass, of projects that are dealt with one after the other. -/
theorem pass_meets {P : Monitor → Prop} {f : Int → Project → Prog Event Unit}
    (hbegin : ∀ m, P m → m.operation = none ∧ m.owed = none ∧ m.stopped = false ∧
      decide (m.pass + 1 = 1) = first)
    (hproject : ∀ now all p rest, Meets (Monitor.step policy intervals) {}
      (Idle first now all (p :: rest)) (f now p) (fun _ => Idle first now all rest)
      (Calm first)) :
    Meets (Monitor.step policy intervals) {} P
      (do
        call env .opened
        let now ← nowEpochSeconds env
        let projects ← fetch env env.projects .listed
        .each (f now) projects)
      (fun _ => Calm first) (Calm first) := by
  have hopen : Meets (Monitor.step policy intervals) {} P (call env .opened) (fun _ => Calm first)
      (Calm first) := by
    refine call_meets (fun _ => rfl) fun ok m hm => ?_
    obtain ⟨hoperation, howed, hrunning, hpass⟩ := hbegin m hm
    have hfree : m.Free := ⟨by simp [hoperation], by simp [howed], hrunning⟩
    have hbetween : ∀ failed, Between first { m with
        pass := m.pass + 1, listing := [], waiting := [], failed } :=
      fun _ => ⟨hoperation, howed, hrunning, hpass, Nat.le_add_left 1 m.pass⟩
    refine ⟨_, by simp only [Monitor.next, if_pos hfree]; rfl, ?_⟩
    cases ok with
    | true => exact ⟨hbetween false, .inr rfl⟩
    | false => exact ⟨hbetween true, .inl rfl⟩
  have htime : Meets (Monitor.step policy intervals) {} (Calm first) (nowEpochSeconds env)
      (fun now m => Between first m ∧ m.now = now) (Calm first) := by
    refine .ask fun now m hm => ?_
    refine ⟨{ m with now }, ?_, ⟨hm.operation, hm.owed, hm.running, hm.pass, hm.begun⟩, rfl⟩
    simp only [Monitor.step, Monitor.next, if_pos hm.free]
    rfl
  have hlist : ∀ now, Meets (Monitor.step policy intervals) {}
      (fun m => Between first m ∧ m.now = now) (fetch env env.projects .listed)
      (fun projects => Idle first now projects projects) (Calm first) := by
    intro now
    refine fetch_meets (fun _ => rfl) fun projects m hm => ?_
    obtain ⟨hbetween, hnow⟩ := hm
    have hlisted : ∀ listing waiting failed, Between first { m with listing, waiting, failed } :=
      fun _ _ _ => ⟨hbetween.operation, hbetween.owed, hbetween.running, hbetween.pass,
        hbetween.begun⟩
    refine ⟨_, by simp only [Monitor.next, if_pos hbetween.free]; rfl, ?_⟩
    cases projects with
    | none => exact ⟨hlisted _ _ _, .inl rfl⟩
    | some projects =>
      exact ⟨hlisted _ _ _, hnow, rfl, List.suffix_refl _, List.suffix_refl _, fun _ => rfl⟩
  have hend : ∀ now all m, Idle first now all [] m → Calm first m := by
    intro now all m hm
    cases hfailed : m.failed with
    | true => exact hm.calm hfailed
    | false => exact ⟨hm.toBetween, .inr (hm.exact hfailed)⟩
  refine .bind hopen fun _ => .bind htime fun now => .bind (hlist now) fun projects => ?_
  exact (Meets.each (fun p rest => hproject now projects p rest) projects).weaken
    (fun _ h => h) (fun _ => hend now projects) fun _ h => h

/-- Between two passes, whether or not the worker was told to stop. -/
structure Resting (m : Monitor) : Prop where
  operation : m.operation = none
  owed : m.owed = none
  settled : m.failed = true ∨ m.waiting = []
  begun : 1 ≤ m.pass

theorem Calm.resting {m : Monitor} (h : Calm first m) : Resting m :=
  ⟨h.operation, h.owed, h.settled, h.begun⟩

theorem isRequested_meets (R : Monitor → Prop) :
    Meets (Monitor.step policy intervals) {} Resting (isRequested env)
      (fun requested m => Resting m ∧ m.stopped = requested) R := by
  refine .ask fun requested m hm => ?_
  have hguard : m.operation.isNone ∧ m.owed.isNone ∧ (m.failed = true ∨ m.waiting = []) :=
    ⟨by simp [hm.operation], by simp [hm.owed], hm.settled⟩
  refine ⟨{ m with stopped := requested }, ?_, ⟨hm.operation, hm.owed, hm.settled, hm.begun⟩, rfl⟩
  simp only [Monitor.step, Monitor.next, if_pos hguard]
  rfl

theorem sleep_meets (seconds : Nat) (R : Monitor → Prop) :
    Meets (Monitor.step policy intervals) {} Resting (sleep env seconds) (fun _ => Resting) R := by
  induction seconds with
  | zero => exact .bind (isRequested_meets R) fun _ => .pure () fun _ hm => hm.1
  | succ seconds ih =>
    refine .bind (isRequested_meets R) fun requested => ?_
    cases requested with
    | true => exact .pure () fun _ hm => hm.1
    | false =>
      refine .bind (.ask fun _ m hm => ?_) fun _ => ih
      have hfree : m.Free := ⟨by simp [hm.1.operation], by simp [hm.1.owed], hm.2⟩
      refine ⟨m, ?_, hm.1⟩
      simp only [Monitor.step, Monitor.next, if_pos hfree]
      rfl

theorem cycles_meets (n : Nat) (R : Monitor → Prop) :
    Meets (Monitor.step policy intervals) {} Resting (cycles env policy intervals n)
      (fun _ => Resting) R := by
  induction n with
  | zero => exact .pure () fun _ hm => hm
  | succ n ih =>
    refine .bind (isRequested_meets R) fun requested => ?_
    cases requested with
    | true => exact .pure () fun _ hm => hm.1
    | false =>
      have hbegin : ∀ m : Monitor, Resting m ∧ m.stopped = false → m.operation = none ∧
          m.owed = none ∧ m.stopped = false ∧ decide (m.pass + 1 = 1) = false := by
        rintro m ⟨hresting, hrunning⟩
        have hbegun := hresting.begun
        exact ⟨hresting.operation, hresting.owed, hrunning, decide_eq_false (by omega)⟩
      have hcycle := pass_meets env hbegin fun now all p rest =>
        @cycleProject_meets policy intervals env now all rest p
      have hattempt : Meets (Monitor.step policy intervals) {}
          (fun m => Resting m ∧ m.stopped = false) (runPushCycle env policy intervals).attempt
          (fun _ => Resting) R :=
        .attempt (hcycle.weaken (fun _ h => h) (fun _ _ h => h.resting) fun _ h => h.resting) R
      exact .bind hattempt fun _ => .bind (sleep_meets intervals.poll R) fun _ => ih

theorem run_meets (n : Nat) (R : Monitor → Prop) :
    Meets (Monitor.step policy intervals) {} (fun m => m = {}) (run env policy intervals n)
      (fun _ => Resting) R := by
  have hbegin : ∀ m : Monitor, m = {} → m.operation = none ∧ m.owed = none ∧
      m.stopped = false ∧ decide (m.pass + 1 = 1) = true := by
    rintro m rfl
    exact ⟨rfl, rfl, rfl, rfl⟩
  have hstartup := pass_meets env hbegin fun now all p rest =>
    @startupProject_meets policy intervals env now all rest p
  have hattempt : Meets (Monitor.step policy intervals) {} (fun m => m = {})
      (runStartupPullPass env).attempt (fun _ => Resting) R :=
    .attempt (hstartup.weaken (fun _ h => h) (fun _ _ h => h.resting) fun _ h => h.resting) R
  exact .bind hattempt fun _ => cycles_meets n R

end Accepted

/-! What that says of the calls -/

section Calls

def Event.beginsPass : Event → Bool
  | .opened _ => true
  | _ => false

def Event.atTime : Event → Option Int
  | .timed now => some now
  | _ => none

def Event.takesLock : Event → Bool
  | .locked _ ok => ok
  | _ => false

def Event.givesLock : Event → Bool
  | .unlocked _ => true
  | _ => false

def Event.looksAt : Event → Option Bytes
  | .looked projectId _ => some projectId
  | _ => none

/-- Neither a listing nor what begins or follows a pass. -/
def Event.withinPass : Event → Bool
  | .opened _ | .listed _ | .polled _ => false
  | _ => true

/-- What a lock may not be held for: synchronising takes the lock itself, and sleeping would keep
the others out. -/
def Event.lockFree : Event → Bool
  | .opened _ | .listed _ | .looked .. | .synced .. | .polled _ | .slept => true
  | _ => false

def locksHeld (log : List Event) : Int := log.countP Event.takesLock - log.countP Event.givesLock

def passOf (log : List Event) : Nat := log.countP Event.beginsPass

def timeOf (log : List Event) : Int := (log.filterMap Event.atTime).getLastD 0

def remotes (projects : List Project) : List Bytes := (projects.filter hasRemote).map (·.projectId)

variable (policy : Policy) (intervals : Intervals)

structure Orderly (log : List Event) : Prop where
  /-- A project is synchronised right after its state was looked at, as the state asks for. -/
  asked : ∀ before projectId options ok after,
    log = before ++ .synced projectId options ok :: after →
      ∃ earlier state, before = earlier ++ [.looked projectId (some state)] ∧
        wanted policy intervals (passOf before) state (timeOf before) = some options
  /-- What the state of a project asks for is done next. -/
  answered : ∀ before projectId state after,
    log = before ++ .looked projectId (some state) :: after →
      ∀ options, wanted policy intervals (passOf before) state (timeOf before) = some options →
        ∃ ok rest, after = .synced projectId options ok :: rest
  unlocked : ∀ before e after, log = before ++ e :: after → e.lockFree = true →
    locksHeld before = 0
  released : locksHeld log = 0
  /-- The projects of a pass are looked at in their order and at most once. -/
  inOrder : ∀ before projects middle after,
    log = before ++ .listed (some projects) :: (middle ++ after) →
      (∀ e ∈ middle, e.withinPass = true) →
        (middle.filterMap Event.looksAt).Sublist (remotes projects)
  /-- Where nothing throws, all of them are. -/
  complete : ∀ before projects middle requested after,
    log = before ++ .listed (some projects) :: (middle ++ .polled requested :: after) →
      (∀ e ∈ middle, e.withinPass = true ∧ e.threw = false) →
        middle.filterMap Event.looksAt = remotes projects

variable {policy intervals}

/-- What a step does to what the calls are counted by. -/
structure Moved (m : Monitor) (e : Event) (t : Monitor) : Prop where
  pass : t.pass = m.pass + if e.beginsPass then 1 else 0
  now : t.now = e.atTime.getD m.now
  locks : ((if t.operation.isSome then 1 else 0) : Int) =
    (if m.operation.isSome then 1 else 0) + (if e.takesLock then 1 else 0) -
      if e.givesLock then 1 else 0
  lockFree : e.lockFree = true → m.operation = none ∨ m.owed.isSome
  waiting : e.looksAt = none → e.withinPass = true → t.waiting = m.waiting ∧ t.failed = m.failed
  owed : e.looksAt = none → t.owed = none ∨ t.owed = m.owed ∧ m.operation.isSome

theorem next_looked {m t : Monitor} {projectId : Bytes} {state : Option (Option SyncState)}
    (h : m.next policy intervals (.looked projectId state) = some t) :
    ∃ left, m.takeUp projectId = some left ∧ m.Free ∧ t = { m with
      waiting := left,
      owed := state.bind fun s =>
        (wanted policy intervals m.pass s m.now).map fun options => (projectId, options) } := by
  rw [Monitor.next] at h
  split at h
  case h_1 left htake =>
    obtain ⟨hfree, ht⟩ := Option.ite_none_right_eq_some.mp h
    cases ht
    exact ⟨left, htake, hfree, rfl⟩
  case h_2 => cases h

theorem under_lock {m t : Monitor} {f : Operation → Option Monitor}
    (h : (match m.operation with
      | some o => f o
      | none => none) = some t) : ∃ o, m.operation = some o ∧ f o = some t := by
  split at h
  case h_1 o ho => exact ⟨o, ho, h⟩
  case h_2 => cases h

theorem next_moved {m t : Monitor} {e : Event} (h : m.next policy intervals e = some t) :
    Moved m e t := by
  cases e with
  | opened ok =>
    obtain ⟨hfree, ht⟩ := Option.ite_none_right_eq_some.mp h
    cases ht
    exact ⟨rfl, rfl, by simp [Event.takesLock, Event.givesLock], fun _ => .inl hfree.no_operation,
      (fun _ hw => by cases hw),
      fun _ => .inl hfree.nothing_owed⟩
  | timed now =>
    obtain ⟨hfree, ht⟩ := Option.ite_none_right_eq_some.mp h
    cases ht
    exact ⟨rfl, rfl, by simp [Event.takesLock, Event.givesLock], (fun hl => by cases hl),
      fun _ _ => ⟨rfl, rfl⟩,
      fun _ => .inl hfree.nothing_owed⟩
  | listed projects =>
    obtain ⟨hfree, ht⟩ := Option.ite_none_right_eq_some.mp h
    cases ht
    exact ⟨rfl, rfl, by simp [Event.takesLock, Event.givesLock], fun _ => .inl hfree.no_operation,
      (fun _ hw => by cases hw),
      fun _ => .inl hfree.nothing_owed⟩
  | locked rootPath ok =>
    obtain ⟨hguard, ht⟩ := Option.ite_none_right_eq_some.mp h
    cases ht
    refine ⟨rfl, rfl, ?_, (fun hl => by cases hl), fun _ _ => ⟨rfl, rfl⟩,
      fun _ => .inl hguard.1.nothing_owed⟩
    cases ok <;> simp [hguard.1.no_operation, Event.takesLock, Event.givesLock]
  | unlocked rootPath =>
    obtain ⟨o, ho, hrest⟩ := under_lock h
    obtain ⟨-, ht⟩ := Option.ite_none_right_eq_some.mp hrest
    cases ht
    exact ⟨rfl, rfl, by simp [ho, Event.takesLock, Event.givesLock], (fun hl => by cases hl),
      fun _ _ => ⟨rfl, rfl⟩,
      fun _ => .inr ⟨rfl, by simp [ho]⟩⟩
  | repoOpened rootPath ok =>
    obtain ⟨o, ho, hrest⟩ := under_lock h
    obtain ⟨-, ht⟩ := Option.ite_none_right_eq_some.mp hrest
    cases ht
    exact ⟨rfl, rfl, by simp [ho, Event.takesLock, Event.givesLock], (fun hl => by cases hl),
      fun _ _ => ⟨rfl, rfl⟩,
      fun _ => .inr ⟨rfl, by simp [ho]⟩⟩
  | remoteSet url ok =>
    obtain ⟨o, ho, hrest⟩ := under_lock h
    obtain ⟨-, ht⟩ := Option.ite_none_right_eq_some.mp hrest
    cases ht
    exact ⟨rfl, rfl, by simp [Event.takesLock, Event.givesLock], (fun hl => by cases hl),
      fun _ _ => ⟨rfl, rfl⟩,
      fun _ => .inr ⟨rfl, by simp [ho]⟩⟩
  | inspected rootPath metrics =>
    obtain ⟨o, ho, hrest⟩ := under_lock h
    obtain ⟨-, ht⟩ := Option.ite_none_right_eq_some.mp hrest
    cases ht
    exact ⟨rfl, rfl, by simp [ho, Event.takesLock, Event.givesLock], (fun hl => by cases hl),
      fun _ _ => ⟨rfl, rfl⟩,
      fun _ => .inr ⟨rfl, by simp [ho]⟩⟩
  | counted projectId metrics updatedAt ok =>
    obtain ⟨o, ho, hrest⟩ := under_lock h
    obtain ⟨-, ht⟩ := Option.ite_none_right_eq_some.mp hrest
    cases ht
    exact ⟨rfl, rfl, by simp [Event.takesLock, Event.givesLock], (fun hl => by cases hl),
      fun _ _ => ⟨rfl, rfl⟩,
      fun _ => .inr ⟨rfl, by simp [ho]⟩⟩
  | looked projectId state =>
    obtain ⟨left, -, hfree, ht⟩ := next_looked h
    subst ht
    exact ⟨rfl, rfl, by simp [Event.takesLock, Event.givesLock], fun _ => .inl hfree.no_operation,
      (fun hl _ => by cases hl), fun hl => by cases hl⟩
  | synced projectId options ok =>
    obtain ⟨howed, ht⟩ := Option.ite_none_right_eq_some.mp h
    cases ht
    exact ⟨rfl, rfl, by simp [Event.takesLock, Event.givesLock],
      fun _ => .inr (by rw [howed]; rfl), fun _ _ => ⟨rfl, rfl⟩,
      fun _ => .inl rfl⟩
  | polled requested =>
    obtain ⟨hguard, ht⟩ := Option.ite_none_right_eq_some.mp h
    cases ht
    have hnone := Option.isNone_iff_eq_none.mp hguard.1
    exact ⟨rfl, rfl, by simp [Event.takesLock, Event.givesLock], fun _ => .inl hnone,
      (fun _ hw => by cases hw),
      fun _ => .inl (Option.isNone_iff_eq_none.mp hguard.2.1)⟩
  | slept =>
    obtain ⟨hfree, ht⟩ := Option.ite_none_right_eq_some.mp h
    cases ht
    exact ⟨rfl, rfl, by simp [Event.takesLock, Event.givesLock], fun _ => .inl hfree.no_operation,
      fun _ _ => ⟨rfl, rfl⟩,
      fun _ => .inl hfree.nothing_owed⟩

/-- A synchronisation is owed right after a state was looked at, and then nothing else can come. -/
structure Past (policy : Policy) (intervals : Intervals) (past : List Event) (m : Monitor) :
    Prop where
  pass : m.pass = passOf past
  now : m.now = timeOf past
  locks : ((if m.operation.isSome then 1 else 0) : Int) = locksHeld past
  owed : ∀ projectId options, m.owed = some (projectId, options) →
    m.operation = none ∧ ∃ earlier state, past = earlier ++ [.looked projectId (some state)] ∧
      wanted policy intervals m.pass state m.now = some options

theorem next_owed {m t : Monitor} {e : Event} (h : m.next policy intervals e = some t)
    {projectId : Bytes} {options : SyncOptions} (howed : t.owed = some (projectId, options)) :
    (t.operation = none ∧ ∃ state, e = .looked projectId (some state) ∧
      wanted policy intervals t.pass state t.now = some options) ∨
    (m.owed = some (projectId, options) ∧ m.operation.isSome) := by
  cases hlook : e.looksAt with
  | none =>
    rcases (next_moved h).owed hlook with hnone | ⟨hsame, hsome⟩
    · rw [hnone] at howed
      cases howed
    · exact .inr ⟨hsame ▸ howed, hsome⟩
  | some id =>
    cases e with
    | looked id' state =>
      obtain ⟨left, -, hfree, rfl⟩ := next_looked h
      obtain ⟨s, rfl, hs⟩ := Option.bind_eq_some_iff.mp howed
      obtain ⟨options', hwanted, hpair⟩ := Option.map_eq_some_iff.mp hs
      cases hpair
      exact .inl ⟨hfree.no_operation, s, rfl, hwanted⟩
    | _ => cases hlook

theorem past_keep {past : List Event} {m t : Monitor} {e : Event}
    (hpast : Past policy intervals past m) (h : m.step policy intervals e = some t) :
    Past policy intervals (past ++ [e]) t := by
  obtain ⟨u, hu, hfailed⟩ := Option.map_eq_some_iff.mp h
  have hmoved := next_moved hu
  have hkept : Past policy intervals (past ++ [e]) u := by
    refine ⟨?_, ?_, ?_, ?_⟩
    · rw [hmoved.pass, hpast.pass, passOf, passOf, List.countP_append, List.countP_singleton]
    · rw [hmoved.now, hpast.now, timeOf, timeOf, List.filterMap_append]
      cases htime : e.atTime <;> simp [htime]
    · rw [hmoved.locks, hpast.locks, locksHeld, locksHeld, List.countP_append, List.countP_append,
        List.countP_singleton, List.countP_singleton]
      push_cast
      ring
    · intro projectId options howed
      rcases next_owed hu howed with ⟨hnone, state, rfl, hwanted⟩ | ⟨hbefore, hsome⟩
      · exact ⟨hnone, past, state, rfl, hwanted⟩
      · rw [(hpast.owed _ _ hbefore).1] at hsome
        cases hsome
  rw [← hfailed]
  split
  · exact ⟨hkept.pass, hkept.now, hkept.locks, hkept.owed⟩
  · exact hkept

/-- Since a listing: what of it was dealt with. -/
def Gone (all : List Project) (middle : List Event) (m : Monitor) : Prop :=
  (∀ e ∈ middle, e.withinPass = true) → ∃ gone, gone ++ m.waiting = all.filter hasRemote ∧
    (middle.filterMap Event.looksAt).Sublist (gone.map (·.projectId)) ∧
    ((∀ e ∈ middle, e.threw = false) → m.failed = false ∧
      middle.filterMap Event.looksAt = gone.map (·.projectId))

theorem dropThrough_some {projectId : Bytes} {w left : List Project}
    (h : dropThrough projectId w = some left) :
    ∃ skipped p, w = skipped ++ p :: left ∧ p.projectId = projectId := by
  induction w with
  | nil => cases h
  | cons q w ih =>
    rw [dropThrough] at h
    split at h
    case isTrue hq =>
      cases h
      exact ⟨[], q, rfl, hq⟩
    case isFalse =>
      obtain ⟨skipped, p, rfl, hp⟩ := ih h
      exact ⟨q :: skipped, p, rfl, hp⟩

theorem takeUp_some {m : Monitor} {projectId : Bytes} {left : List Project}
    (h : m.takeUp projectId = some left) :
    ∃ skipped p, m.waiting = skipped ++ p :: left ∧ p.projectId = projectId ∧
      (m.failed = false → skipped = []) := by
  rw [Monitor.takeUp] at h
  split at h
  case isTrue hfailed =>
    obtain ⟨skipped, p, hw, hp⟩ := dropThrough_some h
    exact ⟨skipped, p, hw, hp, fun hf => by rw [hfailed] at hf; cases hf⟩
  case isFalse =>
    split at h
    case h_1 => cases h
    case h_2 p rest hw =>
      obtain ⟨hp, hrest⟩ := Option.ite_none_right_eq_some.mp h
      cases hrest
      exact ⟨[], p, hw, hp, fun _ => rfl⟩

theorem gone_keep {all : List Project} {middle : List Event} {m t : Monitor} {e : Event}
    (hgone : Gone all middle m) (h : m.step policy intervals e = some t) :
    Gone all (middle ++ [e]) t := by
  intro hwithin
  obtain ⟨gone, hall, hsub, hexact⟩ :=
    hgone fun e' he' => hwithin e' (List.mem_append_left _ he')
  have hw : e.withinPass = true := hwithin e (by simp)
  obtain ⟨u, hu, hfailed⟩ := Option.map_eq_some_iff.mp h
  have hwaiting : t.waiting = u.waiting := by
    rw [← hfailed]
    split <;> rfl
  have hstill : e.threw = false → t.failed = u.failed := by
    intro hthrew
    rw [← hfailed, if_neg (by simp [hthrew])]
  have hpast : (∀ e' ∈ middle ++ [e], e'.threw = false) →
      e.threw = false ∧ ∀ e' ∈ middle, e'.threw = false := fun hall =>
    ⟨hall e (by simp), fun e' he' => hall e' (List.mem_append_left _ he')⟩
  rw [List.filterMap_append, hwaiting]
  cases hlook : e.looksAt with
  | none =>
    obtain ⟨hsame, hflag⟩ := (next_moved hu).waiting hlook hw
    refine ⟨gone, by rw [hsame, hall], ?_, fun hthrew => ?_⟩
    · simpa [hlook] using hsub
    · obtain ⟨hlast, hrest⟩ := hpast hthrew
      obtain ⟨hm, hlooks⟩ := hexact hrest
      exact ⟨by rw [hstill hlast, hflag, hm], by simpa [hlook] using hlooks⟩
  | some projectId =>
    cases e with
    | looked id state =>
      cases hlook
      obtain ⟨left, htake, -, rfl⟩ := next_looked hu
      obtain ⟨skipped, p, hwait, rfl, hskip⟩ := takeUp_some htake
      refine ⟨gone ++ (skipped ++ [p]), ?_, ?_, fun hthrew => ?_⟩
      · rw [← hall, hwait]
        simp
      · rw [List.map_append, List.map_append]
        exact hsub.append (List.sublist_append_right _ _)
      · obtain ⟨hlast, hrest⟩ := hpast hthrew
        obtain ⟨hm, hlooks⟩ := hexact hrest
        refine ⟨by rw [hstill hlast]; exact hm, ?_⟩
        rw [hlooks, hskip hm, List.map_append]
        rfl
    | _ => cases hlook

theorem gone_of_run {before middle rest : List Event} {projects : List Project} {m : Monitor}
    (h : Machine.run (Monitor.step policy intervals) {}
      (before ++ .listed (some projects) :: (middle ++ rest)) = some m) :
    ∃ t, Gone projects middle t ∧
      Machine.run (Monitor.step policy intervals) t rest = some m := by
  obtain ⟨s, -, hlisted⟩ := Machine.run_split h
  obtain ⟨t, ht, hafter⟩ := Machine.run_cons_some _ hlisted
  obtain ⟨u, hmiddle, hrest⟩ := Machine.run_split hafter
  refine ⟨u, ?_, hrest⟩
  refine Machine.run_history (fun past s l t hgone hstep => gone_keep hgone hstep) ?_ hmiddle
  obtain ⟨v, hv, hsame⟩ := Option.map_eq_some_iff.mp ht
  obtain ⟨-, hv⟩ := Option.ite_none_right_eq_some.mp hv
  cases hv
  rw [← hsame]
  exact fun _ => ⟨[], rfl, List.Sublist.refl _, fun _ => ⟨rfl, rfl⟩⟩

theorem past_of_run {log : List Event} {m : Monitor}
    (h : Machine.run (Monitor.step policy intervals) {} log = some m) :
    Past policy intervals log m := by
  refine Machine.run_history (fun past s l t hpast hstep => past_keep hpast hstep) ?_ h
  exact ⟨rfl, rfl, rfl, fun _ _ howed => by cases howed⟩

/-- Where a synchronisation is owed nothing else comes. -/
theorem next_of_owed {m t : Monitor} {e : Event} {projectId : Bytes} {options : SyncOptions}
    (howed : m.owed = some (projectId, options)) (hnone : m.operation = none)
    (h : m.next policy intervals e = some t) : ∃ ok, e = .synced projectId options ok := by
  have hbusy : ¬ m.Free := by simp [Monitor.Free, howed]
  cases e with
  | synced id given ok =>
    obtain ⟨hsame, -⟩ := Option.ite_none_right_eq_some.mp h
    rw [howed] at hsame
    cases hsame
    exact ⟨ok, rfl⟩
  | looked id state =>
    obtain ⟨left, -, hfree, -⟩ := next_looked h
    exact absurd hfree hbusy
  | _ => simp [Monitor.next, hbusy, hnone, howed] at h

theorem orderly_of_run {log : List Event} {m : Monitor}
    (h : Machine.run (Monitor.step policy intervals) {} log = some m)
    (hend : m.operation = none ∧ m.owed = none) : Orderly policy intervals log where
  asked before projectId options ok after hlog := by
    rw [hlog] at h
    obtain ⟨s, hs, hrest⟩ := Machine.run_split h
    obtain ⟨t, ht, -⟩ := Machine.run_cons_some _ hrest
    obtain ⟨u, hu, -⟩ := Option.map_eq_some_iff.mp ht
    obtain ⟨howed, -⟩ := Option.ite_none_right_eq_some.mp hu
    have hpast := past_of_run hs
    obtain ⟨-, earlier, state, hbefore, hwanted⟩ := hpast.owed _ _ howed
    refine ⟨earlier, state, hbefore, ?_⟩
    rw [← hpast.pass, ← hpast.now, hwanted]
  answered before projectId state after hlog options hoptions := by
    rw [hlog] at h
    obtain ⟨s, hs, hrest⟩ := Machine.run_split h
    obtain ⟨t, ht, hafter⟩ := Machine.run_cons_some _ hrest
    have hpast := past_of_run hs
    rw [← hpast.pass, ← hpast.now] at hoptions
    obtain ⟨u, hu, hsame⟩ := Option.map_eq_some_iff.mp ht
    obtain ⟨left, -, hfree, rfl⟩ := next_looked hu
    have howed : t.owed = some (projectId, options) := by
      rw [← hsame]
      simp [Event.threw, hoptions]
    have hnone : t.operation = none := by
      rw [← hsame]
      exact Option.isNone_iff_eq_none.mp hfree.1
    cases after with
    | nil =>
      cases hafter
      rw [hend.2] at howed
      cases howed
    | cons e rest =>
      obtain ⟨v, hv, -⟩ := Machine.run_cons_some _ hafter
      obtain ⟨w, hw, -⟩ := Option.map_eq_some_iff.mp hv
      obtain ⟨ok, rfl⟩ := next_of_owed howed hnone hw
      exact ⟨ok, rest, rfl⟩
  unlocked before e after hlog hfree := by
    rw [hlog] at h
    obtain ⟨s, hs, hrest⟩ := Machine.run_split h
    obtain ⟨t, ht, -⟩ := Machine.run_cons_some _ hrest
    obtain ⟨u, hu, -⟩ := Option.map_eq_some_iff.mp ht
    have hpast := past_of_run hs
    have hnone : s.operation = none := by
      rcases (next_moved hu).lockFree hfree with hnone | hsome
      · exact hnone
      · obtain ⟨⟨projectId, options⟩, howed⟩ := Option.isSome_iff_exists.mp hsome
        exact (hpast.owed _ _ howed).1
    rw [← hpast.locks, hnone]
    rfl
  released := by
    rw [← (past_of_run h).locks, hend.1]
    rfl
  inOrder before projects middle after hlog hwithin := by
    obtain ⟨t, hgone, -⟩ := gone_of_run (hlog ▸ h)
    obtain ⟨gone, hall, hsub, -⟩ := hgone hwithin
    refine hsub.trans ?_
    rw [remotes, ← hall, List.map_append]
    exact List.sublist_append_left _ _
  complete before projects middle requested after hlog hwithin := by
    obtain ⟨t, hgone, hrest⟩ := gone_of_run (hlog ▸ h)
    obtain ⟨gone, hall, -, hexact⟩ := hgone fun e he => (hwithin e he).1
    obtain ⟨hfailed, hlooks⟩ := hexact fun e he => (hwithin e he).2
    obtain ⟨u, hu, -⟩ := Machine.run_cons_some _ hrest
    obtain ⟨v, hv, -⟩ := Option.map_eq_some_iff.mp hu
    obtain ⟨⟨-, -, hsettled⟩, -⟩ := Option.ite_none_right_eq_some.mp hv
    have hempty : t.waiting = [] := by
      rcases hsettled with htrue | hempty
      · rw [hfailed] at htrue
        cases htrue
      · exact hempty
    rw [hlooks, remotes, ← hall, hempty, List.append_nil]

/-- However its calls go, the worker synchronises what the states ask for and nothing else,
never under a lock, in the order of the listing; it gives back every lock, and where nothing
throws it leaves no project out. -/
theorem worker_orderly (env : Environment) (policy : Policy) (intervals : Intervals) (n : Nat) :
    Orderly policy intervals (run env policy intervals n []).2 := by
  obtain ⟨m, hm, hresting⟩ := run_meets n (fun _ => False) [] {} rfl rfl
  cases hresult : (run env policy intervals n []).1 with
  | none =>
    rw [hresult] at hresting
    exact absurd hresting id
  | some _ =>
    rw [hresult] at hresting
    exact orderly_of_run hm ⟨hresting.operation, hresting.owed⟩

end Calls

end SyncWorker

end HolderDaemon
