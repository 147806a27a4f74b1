import HolderDaemon.Json

/-!
POST /ai/runs from the moment its run row exists (`api/routes/ai/runs/AiRunPostRoute.cpp`): the
steps the cloud path and the local path take on given answers, and what they leave where one
of them throws.
-/

set_option autoImplicit false

open Bytes

namespace HolderDaemon

namespace AiRuns

inductive EventName where
  | runStarted | progress | router | routerResult | chunk | fallback | done | failed
  deriving DecidableEq, Repr

def EventName.terminal (name : EventName) : Bool := name = .done ∨ name = .failed

inductive Status where
  | started | completed | failed
  deriving DecidableEq, Repr

/-- Calls that can throw and that touch neither the journal, nor the run's status, nor the
assistant's messages. -/
inductive Call where
  | activate | sendStarted
  | appendUserMessage | loadThreadCompactionState | loadCloudModelCooldown
  | loadCloudWindowUsage | runCloudModel | clearCloudModelCooldown | recordCloudUsageEvent
  | upsertThreadCompactionState | recordCloudModelFailure | rollThreadCompactionState
  | dumpPolicyTrace | getThread | generateThreadTitle | updateTitle | persistAiThread
  | streamGenerate | parseRankedModels
  deriving DecidableEq, Repr

inductive Op where
  /-- `append_run_event` of the first event, which is sent later. -/
  | appendStarted
  /-- The constructor of `RunStreamCompletion`. -/
  | guard
  /-- `send_event`: the event is journaled, then sent. -/
  | event (name : EventName)
  /-- `send_event` from the `on_chunk` of a `stream_generate`. -/
  | callback (name : EventName)
  | appendAssistantMessage
  | updateStatus (status : Status)
  | call (call : Call)
  deriving DecidableEq, Repr

/-! The cloud path -/

/-- Limits of a model in the catalog; zero is no limit. -/
structure Quota where
  rpm : Int := 0
  rpd : Int := 0
  tpm : Int := 0

structure Usage where
  minuteRequests : Int := 0
  minuteTokens : Int := 0
  dayRequests : Int := 0

inductive Reason where
  | noCompactModel | belowThreshold | minIntervalNotElapsed | minDeltaNotMet
  | cooldownActive | rpmExceeded | rpdExceeded | tpmExceeded
  deriving DecidableEq, Repr

def quotaReason (quota : Quota) (usage : Usage) (projectedTokens : Int) : Option Reason :=
  if quota.rpm > 0 ∧ usage.minuteRequests + 1 > quota.rpm then some .rpmExceeded
  else if quota.rpd > 0 ∧ usage.dayRequests + 1 > quota.rpd then some .rpdExceeded
  else if quota.tpm > 0 ∧ usage.minuteTokens + projectedTokens > quota.tpm then some .tpmExceeded
  else none

structure Cooldown where
  failureCount : Int
  cooldownUntil : Int
  lastError : Bytes := []

def cooldownActive (cooldown : Option Cooldown) (now : Int) : Bool :=
  cooldown.any fun c => c.cooldownUntil > now

/-- The catalog's `summary_refresh`. -/
structure SummaryRefresh where
  triggerContextTokens : Int
  minIntervalSeconds : Int
  minDeltaTokens : Int
  forceRefreshTokens : Int

/-- What the summary refresh of a thread with a context finds. `lastRefreshAt` is 0 for a
thread without a compaction state, and `answer` tells whether the model's text passed
`normalize_and_validate_rolling_summary`. -/
structure Refresh where
  compactModel : Option Quota
  contextTokens : Int
  summaryTokens : Int
  lastRefreshAt : Int
  now : Int
  cooldown : Option Cooldown
  usage : Usage
  projectedTokens : Int
  answer : Option Bool

/-- Why the refresh is skipped before any cooldown is looked up. -/
def skipReason (cfg : SummaryRefresh) (r : Refresh) : Option Reason :=
  let threshold := max 1 cfg.triggerContextTokens
  let forced := r.contextTokens ≥ max threshold cfg.forceRefreshTokens
  let tokenDelta := max 0 (r.contextTokens - r.summaryTokens)
  if r.compactModel.isNone then some .noCompactModel
  else if r.contextTokens < threshold then some .belowThreshold
  else if ¬ forced ∧ r.lastRefreshAt > 0 ∧
      r.now - r.lastRefreshAt < max 0 cfg.minIntervalSeconds then
    some .minIntervalNotElapsed
  else if ¬ forced ∧ tokenDelta < max 0 cfg.minDeltaTokens then some .minDeltaNotMet
  else none

/-- The steps of the summary refresh, and `summary_refreshed`. -/
def refreshSummary (cfg : SummaryRefresh) (r : Refresh) : List Op × Bool :=
  match skipReason cfg r with
  | some _ => ([], false)
  | none =>
    if cooldownActive r.cooldown r.now then ([.call .loadCloudModelCooldown], false)
    else
      let looked := [Op.call .loadCloudModelCooldown, .call .loadCloudWindowUsage,
        .call .loadCloudWindowUsage]
      match quotaReason (r.compactModel.getD {}) r.usage r.projectedTokens with
      | some _ => (looked, false)
      | none =>
        let asked := looked ++ [.event .progress, .call .runCloudModel]
        match r.answer with
        | none => (asked ++ [.call .recordCloudModelFailure], false)
        | some accepted =>
          let recorded := asked ++ [.call .clearCloudModelCooldown, .call .recordCloudUsageEvent]
          if accepted then (recorded ++ [.call .upsertThreadCompactionState], true)
          else (recorded, false)

/-- A candidate model: what the database holds for it, and whether it would answer. -/
structure Candidate where
  model : Bytes
  quota : Quota := {}
  cooldown : Option Cooldown := none
  now : Int
  usage : Usage := {}
  projectedTokens : Int := 0
  answers : Bool

/-- What `policy_trace` records of a candidate whose cooldown is active. -/
def rejectedAttempt (c : Candidate) (cooldown : Cooldown) : Json :=
  .object [
    (ascii "model", .str c.model),
    (ascii "decision", .str (ascii "rejected")),
    (ascii "reason", .str (ascii "cooldown_active")),
    (ascii "cooldown", .object [
      (ascii "failure_count", .int cooldown.failureCount),
      (ascii "cooldown_until", .int cooldown.cooldownUntil),
      (ascii "remaining_seconds", .int (cooldown.cooldownUntil - c.now)),
      (ascii "last_error",
        if cooldown.lastError = [] then .null else .str cooldown.lastError)])]

/-- The candidates in turn, and whether one of them answered. -/
def tryCandidates : List Candidate → List Op × Bool
  | [] => ([], false)
  | c :: rest =>
    let later := tryCandidates rest
    if cooldownActive c.cooldown c.now then
      (.call .loadCloudModelCooldown :: later.1, later.2)
    else
      let looked := [Op.call .loadCloudModelCooldown, .call .loadCloudWindowUsage,
        .call .loadCloudWindowUsage]
      if (quotaReason c.quota c.usage c.projectedTokens).isSome then
        (looked ++ later.1, later.2)
      else
        let asked : List Op := looked ++ [.event .progress, .call .runCloudModel]
        if c.answers then (asked ++ [.call .clearCloudModelCooldown], true)
        else
          (asked ++ [.call .recordCloudModelFailure, .event .fallback] ++ later.1, later.2)

/-- What `maybe_update_thread_title` finds: a thread whose title it should refresh, and a new
title for it. -/
structure Title where
  shouldRefresh : Bool
  generated : Bool

def maybeUpdateThreadTitle (thread textEmpty : Bool) (title : Title) : List Op :=
  if ¬ thread ∨ textEmpty then []
  else if !title.shouldRefresh then [.call .getThread]
  else if !title.generated then [.call .getThread, .call .generateThreadTitle]
  else
    [.call .getThread, .call .generateThreadTitle, .call .updateTitle, .call .getThread,
      .call .persistAiThread]

def opening : List Op := [.appendStarted, .call .activate, .call .sendStarted, .guard]

structure CloudInput where
  thread : Bool
  contextEmpty : Bool
  summaryRefresh : SummaryRefresh
  refresh : Refresh
  candidates : List Candidate
  textEmpty : Bool
  title : Title

/-- The end of a path: the assistant's message and the title of a run that has its answer, the
run row, and the terminal event. -/
def ending (thread textEmpty answered : Bool) (title : Title) (trace : List Op) : List Op :=
  if answered then
    (if thread then [.appendAssistantMessage] else []) ++
      maybeUpdateThreadTitle thread textEmpty title ++ trace ++
      [.updateStatus .completed, .event .done]
  else trace ++ [.updateStatus .failed, .event .failed]

/-- The steps of the cloud path between the guard and its result. -/
def cloudBody (input : CloudInput) : List Op :=
  let compacted : Bool := input.thread && !input.contextEmpty
  let message : List Op :=
    if input.thread then [.call .appendUserMessage, .call .loadThreadCompactionState] else []
  let refreshed : List Op × Bool :=
    if compacted then refreshSummary input.summaryRefresh input.refresh else ([], false)
  let tried := tryCandidates input.candidates
  let roll : List Op :=
    if compacted && !refreshed.2 then [.call .rollThreadCompactionState] else []
  let answer : List Op :=
    if tried.2 then [.call .recordCloudUsageEvent, .event .chunk] else []
  .event .progress :: message ++ refreshed.1 ++ tried.1 ++ roll ++ answer

def executeCloudPostPath (input : CloudInput) : List Op :=
  opening ++ cloudBody input ++
    ending input.thread input.textEmpty (tryCandidates input.candidates).2 input.title
      [.call .dumpPolicyTrace]

/-! The local path -/

inductive Routing where
  | forced
  | single
  /-- The router model was asked, and answered in so many chunks. -/
  | ranked (chunks : Nat)

def routingOps : Routing → List Op
  | .forced => [.event .router]
  | .single => [.event .router]
  | .ranked chunks =>
    [.call .streamGenerate] ++ List.replicate chunks (.callback .router) ++
      [.call .parseRankedModels, .event .routerResult]

/-- What `stream_generate` did for a model: the chunks it handed on, and its result. -/
structure Generation where
  chunks : Nat
  ok : Bool

/-- The models in turn, and whether one of them was chosen. -/
def tryModels : List Generation → List Op × Bool
  | [] => ([], false)
  | g :: rest =>
    let later := tryModels rest
    let asked := [Op.event .progress, .call .streamGenerate] ++
      List.replicate g.chunks (.callback .chunk)
    if g.ok ∧ g.chunks > 0 then (asked, true)
    else (asked ++ [.event .fallback] ++ later.1, later.2)

structure LocalInput where
  thread : Bool
  routing : Routing
  models : List Generation
  textEmpty : Bool
  title : Title

def localBody (input : LocalInput) : List Op :=
  (if input.thread then [.call .appendUserMessage] else []) ++ routingOps input.routing ++
    (tryModels input.models).1

def executeLocalPostPath (input : LocalInput) : List Op :=
  opening ++ localBody input ++
    ending input.thread input.textEmpty (tryModels input.models).2 input.title []

/-! Executing a path -/

inductive Input where
  | cloud (input : CloudInput)
  | local (input : LocalInput)

def Input.thread : Input → Bool
  | .cloud input => input.thread
  | .local input => input.thread

def Input.path : Input → List Op
  | .cloud input => executeCloudPostPath input
  | .local input => executeLocalPostPath input

/-- The run's journal, its row, whether its assistant message is stored, and whether the
completion guard exists. -/
structure Records where
  events : List EventName := []
  status : Status := .started
  assistant : Bool := false
  guarded : Bool := false
  deriving DecidableEq, Repr

def Op.effect : Op → Records → Records
  | .appendStarted, r => { r with events := r.events ++ [.runStarted] }
  | .guard, r => { r with guarded := true }
  | .event name, r => { r with events := r.events ++ [name] }
  | .callback name, r => { r with events := r.events ++ [name] }
  | .appendAssistantMessage, r => { r with assistant := true }
  | .updateStatus status, r => { r with status := status }
  | .call _, r => r

/-- A step passes, or throws before it has taken effect (an event that cannot be encoded),
or throws after it (a message stored but not indexed). -/
inductive Fate where
  | passes | throws | throwsAfter
  deriving DecidableEq, Repr

/-- Which steps of a path throw, whether the model client swallows what `on_chunk` throws (as
the HTTP client does, line by line), and whether the `append_run_event` of the completion
handler throws. -/
structure Env where
  fate : Nat → Fate
  absorbs : Bool
  handlerThrows : Bool

def Env.absorbed (env : Env) : Op → Bool
  | .callback _ => env.absorbs
  | _ => false

def Env.takesEffect (env : Env) (i : Nat) : Bool := env.fate i ≠ .throws

/-- The step throws out of the path. -/
def Env.stops (env : Env) (i : Nat) (op : Op) : Bool := env.fate i ≠ .passes ∧ ¬ env.absorbed op

def Env.apply (env : Env) (i : Nat) (op : Op) (r : Records) : Records :=
  if env.takesEffect i then op.effect r else r

/-- The records a path leaves, and whether a step threw out of it. -/
def execute (env : Env) : Nat → List Op → Records → Records × Bool
  | _, [], r => (r, false)
  | i, op :: ops, r =>
    if env.stops i op then (env.apply i op r, true)
    else execute env (i + 1) ops (env.apply i op r)

/-- `~RunStreamCompletion` while an exception is in flight. -/
def completeRun (env : Env) (r : Records) : Records :=
  { r with
    status := .failed
    events := if env.handlerThrows then r.events else r.events ++ [.failed] }

def outcome (env : Env) (input : Input) : Records :=
  match execute env 0 input.path {} with
  | (r, false) => r
  | (r, true) => if r.guarded then completeRun env r else r

end AiRuns

end HolderDaemon
