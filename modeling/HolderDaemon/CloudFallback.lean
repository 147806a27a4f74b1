import HolderDaemon.CloudClient
import HolderDaemon.RateLimit

/-!
The candidates of a cloud run (`execute_cloud_post_path` in `api/routes/ai/runs/AiRunPostRoute.cpp`)
and the cooldowns of their models (`api/support/CloudQuota.cpp`), which pass an error's text from
one run to later ones. An event or a trace that is not UTF-8 throws where it is encoded.
-/

set_option autoImplicit false

open Bytes

namespace HolderDaemon

namespace CloudFallback

open CloudClient CloudQuota

/-! Cooldowns -/

/-- A row of `ai_cloud_model_cooldowns`. -/
structure CooldownRow where
  provider : Text
  modelId : Text
  failureCount : Int
  cooldownUntil : Int
  lastError : Text
  updatedAt : Int
  deriving DecidableEq

def CooldownRow.key (row : CooldownRow) : Text × Text := (row.provider, row.modelId)

/-- A configured model, with its effective cooldown policy. -/
structure CloudModel where
  id : Bytes
  endpoint : Bytes
  limits : ModelLimits := {}
  cooldownBase : Int
  cooldownCap : Int

def loadCloudModelCooldown (db : List CooldownRow) (provider : CloudProvider)
    (model : CloudModel) : Option CooldownRow :=
  Rows.get CooldownRow.key (cString provider.id, cString model.id) db

def failureCooldownSeconds (failureCount baseSeconds capSeconds : Int) : Int :=
  if failureCount ≤ 0 then 0
  else
    let safeBase := max 1 baseSeconds
    min (safeBase * 2 ^ (min (failureCount - 1) 5).toNat) (max safeBase capSeconds)

def recordCloudModelFailure (db : List CooldownRow) (provider : CloudProvider) (model : CloudModel)
    (error : Bytes) (now : Int) : CooldownRow × List CooldownRow :=
  let failureCount :=
    match loadCloudModelCooldown db provider model with
    | some row => max 1 (row.failureCount + 1)
    | none => 1
  let row : CooldownRow :=
    { provider := cString provider.id, modelId := cString model.id, failureCount
      cooldownUntil := now +
        failureCooldownSeconds failureCount model.cooldownBase model.cooldownCap
      lastError := cString error, updatedAt := now }
  (row, Rows.put CooldownRow.key row db)

def clearCloudModelCooldown (db : List CooldownRow) (provider : CloudProvider) (model : CloudModel)
    (now : Int) : List CooldownRow :=
  Rows.put CooldownRow.key
    { provider := cString provider.id, modelId := cString model.id, failureCount := 0
      cooldownUntil := 0, lastError := cString [], updatedAt := now } db

/-! Traces and events -/

def record (fields : List (String × Json)) : Json :=
  Json.object (fields.map fun f => (ascii f.1, f.2))

def literal (s : String) : Json := .str (ascii s)

/-- What the loop reads and receives for one candidate. -/
structure Candidate where
  model : CloudModel
  now : Int
  minute : WindowUsage
  day : WindowUsage
  compacted : Bool
  usedSummary : Bool
  pinnedFactCount : Int
  inputTokens : Int
  reply : Reply
  /-- The clock at the record of a failure or a success, and when the seconds are counted. -/
  answeredAt : Int
  countedAt : Int

def Candidate.projectedTokens (c : Candidate) : Int := c.inputTokens + 512

def coolingAttempt (c : Candidate) (row : CooldownRow) : Json :=
  record
    [("model", .str c.model.id), ("decision", literal "rejected"),
      ("reason", literal "cooldown_active"),
      ("cooldown", record
        [("failure_count", .int row.failureCount), ("cooldown_until", .int row.cooldownUntil),
          ("remaining_seconds", .int (row.cooldownUntil - c.now)),
          ("last_error", if row.lastError.val = [] then .null else .str row.lastError.val)])]

/-- The fields of an attempt that has been measured against its quota. -/
def quotaFields (c : Candidate) : List (String × Json) :=
  [("model", .str c.model.id),
    ("quota", record
      [("rpm_limit", .int c.model.limits.rpm), ("tpm_limit", .int c.model.limits.tpm),
        ("rpd_limit", .int c.model.limits.rpd), ("minute_requests", .int c.minute.requests),
        ("minute_tokens", .int c.minute.tokens), ("day_requests", .int c.day.requests),
        ("projected_tokens", .int c.projectedTokens)]),
    ("context_compacted", .bool c.compacted),
    ("compaction", record
      [("used_summary", .bool c.usedSummary), ("pinned_fact_count", .int c.pinnedFactCount)]),
    ("input_tokens", .int c.inputTokens)]

def rejectedAttempt (c : Candidate) (reason : Bytes) : Json :=
  record (quotaFields c ++ [("decision", literal "rejected"), ("reason", .str reason)])

def selectedAttempt (c : Candidate) : Json :=
  record (quotaFields c ++ [("decision", literal "selected")])

/-- The entry of a selected attempt after the failure of its model. -/
def failedAttempt (c : Candidate) (row : CooldownRow) : Json :=
  record (quotaFields c ++ [("decision", literal "selected"),
    ("cooldown", record
      [("failure_count", .int row.failureCount), ("cooldown_until", .int row.cooldownUntil),
        ("remaining_seconds", .int (max 0 (row.cooldownUntil - c.countedAt)))])])

structure LoopState where
  cooldowns : List CooldownRow
  attempts : List Json := []
  events : List (Bytes × Json) := []
  finalError : Bytes := ascii "All cloud model attempts failed."
  /-- The model that has answered, its text and the tokens of its prompt. -/
  output : Option (Bytes × Bytes × Int) := none
  /-- How many candidates the loop has come to. -/
  reached : Nat := 0

inductive Course where
  | next
  | leave
  | threw
  deriving DecidableEq

/-- `append_run_event`, which encodes the event; the run's identifier that it adds is ASCII. -/
def sendEvent (s : LoopState) (name : String) (data : Json) : LoopState × Course :=
  if data.encodable then ({ s with events := s.events ++ [(ascii name, data)] }, .next)
  else (s, .threw)

def andThen (r : LoopState × Course) (f : LoopState → LoopState × Course) : LoopState × Course :=
  match r with
  | (s, .next) => f s
  | (s, course) => (s, course)

section Runs
variable (parse : Bytes → Except Bytes Json)

/-- The end of a candidate that has been asked. -/
def afterReply (provider : CloudProvider) (c : Candidate) (before : List Json) (s : LoopState) :
    LoopState × Course :=
  match runCloudModel parse provider c.model.endpoint c.reply with
  | .ok text =>
    ({ s with
        cooldowns := clearCloudModelCooldown s.cooldowns provider c.model c.answeredAt
        output := some (c.model.id, text, c.inputTokens) }, .leave)
  | .error cloudError =>
    let finalError := if cloudError = [] then ascii "cloud call failed" else cloudError
    let (row, cooldowns) :=
      recordCloudModelFailure s.cooldowns provider c.model finalError c.answeredAt
    sendEvent { s with cooldowns, finalError, attempts := before ++ [failedAttempt c row] }
      "fallback"
      (record
        [("provider", .str provider.id), ("model", .str c.model.id), ("error", .str finalError),
          ("cooldown_until", .int row.cooldownUntil)])

/-- One pass of the loop. -/
def tryCandidate (provider : CloudProvider) (c : Candidate) (s : LoopState) : LoopState × Course :=
  let s := { s with reached := s.reached + 1 }
  match (loadCloudModelCooldown s.cooldowns provider c.model).filter fun row =>
      row.cooldownUntil > c.now with
  | some row => ({ s with attempts := s.attempts ++ [coolingAttempt c row] }, .next)
  | none =>
    match rejection c.model.limits c.minute c.day c.projectedTokens with
    | some reason => ({ s with attempts := s.attempts ++ [rejectedAttempt c reason] }, .next)
    | none =>
      andThen
        (sendEvent { s with attempts := s.attempts ++ [selectedAttempt c] } "progress"
          (record
            [("message", literal "Trying cloud model"), ("provider", .str provider.id),
              ("model", .str c.model.id), ("context_compacted", .bool c.compacted)]))
        (afterReply parse provider c s.attempts)

def tryCandidates (provider : CloudProvider) : List Candidate → LoopState → LoopState × Course
  | [], s => (s, .next)
  | c :: rest, s => andThen (tryCandidate parse provider c s) (tryCandidates provider rest)

/-- The refresh of the thread's summary before the loop: a note of it, which stands where the model
is not asked or answers, and the model that is asked. -/
structure Refresh where
  note : Json
  asked : Option (CloudModel × Bool × Reply × Int) := none

structure CloudRun where
  provider : CloudProvider
  requestedProvider : Bytes := []
  requestedModel : Bytes := []
  refresh : Option Refresh := none
  candidates : List Candidate

/-- The refresh: the cooldowns after it, and what `policy_trace` says of it. -/
def refreshSummary (r : CloudRun) (db : List CooldownRow) : List CooldownRow × Option Json :=
  let compaction := fun note => some (record
    [("strategy", literal "summary_plus_pinned_plus_tail"), ("summary_refresh", note)])
  match r.refresh with
  | none => (db, none)
  | some ⟨note, none⟩ => (db, compaction note)
  | some ⟨note, some (model, forced, reply, now)⟩ =>
    match runCloudModel parse r.provider model.endpoint reply with
    | .ok _ => (clearCloudModelCooldown db r.provider model now, compaction note)
    | .error summaryError =>
      let failError := if summaryError = [] then ascii "summary refresh failed" else summaryError
      let (row, db) := recordCloudModelFailure db r.provider model failError now
      (db, compaction (record
        [("status", literal "failed"), ("model", .str model.id), ("forced", .bool forced),
          ("error", .str failError), ("cooldown_until", .int row.cooldownUntil)]))

def orNull (text : Bytes) : Json := if text = [] then .null else .str text

def policyTrace (r : CloudRun) (compaction : Option Json) (attempts : List Json) (result : Json) :
    Json :=
  record
    ([("path", literal "cloud"), ("provider", .str r.provider.id),
      ("selection", record
        [("requested_provider", orNull r.requestedProvider),
          ("requested_model", orNull r.requestedModel)]),
      ("attempts", .arr attempts), ("result", result)] ++
      (compaction.map fun trace => ("compaction", trace)).toList)

/-- After the loop: the trace is encoded, and the end of the run is sent. -/
def finish (r : CloudRun) (compaction : Option Json) (s : LoopState) : LoopState × Course :=
  match s.output with
  | none =>
    let trace := policyTrace r compaction s.attempts
      (record [("status", literal "failed"), ("error", .str s.finalError)])
    if trace.encodable then
      sendEvent s "failed" (record [("error", .str s.finalError), ("provider", .str r.provider.id)])
    else (s, .threw)
  | some (modelId, text, promptTokens) =>
    andThen
      (sendEvent s "chunk"
        (record [("provider", .str r.provider.id), ("model", .str modelId), ("delta", .str text)]))
      fun s =>
        let trace := policyTrace r compaction s.attempts
          (record
            [("status", literal "completed"), ("provider", .str r.provider.id),
              ("model", .str modelId), ("prompt_tokens", .int promptTokens),
              ("response_tokens", .int ((text.length + 3) / 4))])
        if trace.encodable then
          sendEvent s "done"
            (record [("provider", .str r.provider.id), ("model", .str modelId)])
        else (s, .threw)

/-- A run over the cooldowns that earlier runs have left. -/
def execute (r : CloudRun) (db : List CooldownRow) : LoopState × Course :=
  let (cooldowns, compaction) := refreshSummary parse r db
  match tryCandidates parse r.provider r.candidates { cooldowns } with
  | (s, .threw) => (s, .threw)
  | (s, .next) | (s, .leave) => finish r compaction s

end Runs

/-! What is encoded -/

def EncodableField (f : String × Json) : Prop :=
  validUtf8 (ascii f.1) = true ∧ f.2.encodable = true

theorem encodable_record {fields : List (String × Json)} (hkeys : (fields.map Prod.fst).Nodup)
    (h : fields.Forall EncodableField) : (record fields).encodable = true := by
  have hnames : ((fields.map fun f => (ascii f.1, f.2)).map Prod.fst).Nodup := by
    rw [List.map_map]
    have hmap : fields.map (Prod.fst ∘ fun f => (ascii f.1, f.2)) =
        (fields.map Prod.fst).map ascii := by rw [List.map_map]; rfl
    rw [hmap]
    exact hkeys.map fun s t hst => ascii_inj.mp hst
  rw [record, Json.encodable_object hnames, List.all_map, List.all_eq_true]
  intro f hf
  rw [Function.comp_apply, Bool.and_eq_true]
  exact List.forall_iff_forall_mem.mp h f hf

theorem encodable_orNull {text : Bytes} (h : validUtf8 text = true) :
    (orNull text).encodable = true := by
  unfold orNull
  split
  · rfl
  · exact h

/-- The texts of a candidate are UTF-8. -/
structure CleanCandidate (parse : Bytes → Except Bytes Json) (c : Candidate) : Prop where
  id : validUtf8 c.model.id = true
  reply : CleanReply parse c.reply

structure CleanProvider (provider : CloudProvider) : Prop where
  id : validUtf8 provider.id = true
  kind : validUtf8 provider.kind = true
  authType : validUtf8 provider.authType = true

/-- The texts that a run reads from its request, the configuration and the providers are UTF-8. -/
structure CleanRun (parse : Bytes → Except Bytes Json) (r : CloudRun) : Prop where
  provider : CleanProvider r.provider
  requestedProvider : validUtf8 r.requestedProvider = true
  requestedModel : validUtf8 r.requestedModel = true
  candidates : ∀ c ∈ r.candidates, CleanCandidate parse c
  note : ∀ refresh ∈ r.refresh, refresh.note.encodable = true
  asked : ∀ refresh ∈ r.refresh, ∀ asked ∈ refresh.asked,
    validUtf8 asked.1.id = true ∧ CleanReply parse asked.2.2.1

/-- The texts of the rows, read back, are UTF-8. -/
def ValidRows (db : List CooldownRow) : Prop :=
  ∀ row ∈ db, validUtf8 row.lastError.val = true

structure Valid (s : LoopState) : Prop where
  cooldowns : ValidRows s.cooldowns
  attempts : ∀ a ∈ s.attempts, a.encodable = true
  finalError : validUtf8 s.finalError = true
  output : ∀ o ∈ s.output, validUtf8 o.1 = true ∧ validUtf8 o.2.1 = true

theorem ValidRows.put {db : List CooldownRow} (h : ValidRows db) {row : CooldownRow}
    (hrow : validUtf8 row.lastError.val = true) : ValidRows (Rows.put CooldownRow.key row db) := by
  intro r hr
  rcases Rows.mem_put CooldownRow.key hr with rfl | hr
  · exact hrow
  · exact h r hr

theorem ValidRows.record {db : List CooldownRow} (h : ValidRows db) {error : Bytes}
    (herror : validUtf8 error = true) (provider : CloudProvider) (model : CloudModel) (now : Int) :
    ValidRows (recordCloudModelFailure db provider model error now).2 :=
  h.put (validUtf8_cString herror)

theorem ValidRows.clear {db : List CooldownRow} (h : ValidRows db) (provider : CloudProvider)
    (model : CloudModel) (now : Int) :
    ValidRows (clearCloudModelCooldown db provider model now) := h.put rfl

theorem coolingAttempt_encodable {c : Candidate} (hid : validUtf8 c.model.id = true)
    {row : CooldownRow} (hrow : validUtf8 row.lastError.val = true) :
    (coolingAttempt c row).encodable = true := by
  have herror : (if row.lastError.val = [] then Json.null
      else .str row.lastError.val).encodable = true := encodable_orNull hrow
  refine encodable_record (by simp) ?_
  simp only [List.Forall, EncodableField]
  refine ⟨⟨by decide, hid⟩, ⟨by decide, by decide⟩, ⟨by decide, by decide⟩, ⟨by decide, ?_⟩⟩
  refine encodable_record (by simp) ?_
  simp only [List.Forall, EncodableField]
  exact ⟨⟨by decide, rfl⟩, ⟨by decide, rfl⟩, ⟨by decide, rfl⟩, by decide, herror⟩

/-- The fields of a measured attempt, with others after them. -/
theorem measured_encodable {c : Candidate} (hid : validUtf8 c.model.id = true)
    {more : List (String × Json)}
    (hkeys : (((quotaFields c).map Prod.fst) ++ more.map Prod.fst).Nodup)
    (hmore : more.Forall EncodableField) : (record (quotaFields c ++ more)).encodable = true := by
  refine encodable_record (by rwa [List.map_append]) (List.forall_append.mpr ⟨?_, hmore⟩)
  simp only [quotaFields, List.Forall, EncodableField]
  refine ⟨⟨by decide, hid⟩, ⟨by decide, ?_⟩, ⟨by decide, rfl⟩, ⟨by decide, ?_⟩, by decide, rfl⟩
  · refine encodable_record (by simp) ?_
    simp only [List.Forall, EncodableField]
    exact ⟨⟨by decide, rfl⟩, ⟨by decide, rfl⟩, ⟨by decide, rfl⟩, ⟨by decide, rfl⟩,
      ⟨by decide, rfl⟩, ⟨by decide, rfl⟩, by decide, rfl⟩
  · refine encodable_record (by simp) ?_
    simp only [List.Forall, EncodableField]
    exact ⟨⟨by decide, rfl⟩, by decide, rfl⟩

theorem rejection_valid {limits : ModelLimits} {minute day : WindowUsage} {tokens : Int}
    {reason : Bytes} (h : rejection limits minute day tokens = some reason) :
    validUtf8 reason = true := by
  unfold rejection at h
  repeat' split at h
  all_goals
    cases h
    try decide

theorem rejectedAttempt_encodable {c : Candidate} (hid : validUtf8 c.model.id = true)
    {reason : Bytes} (hreason : validUtf8 reason = true) :
    (rejectedAttempt c reason).encodable = true := by
  refine measured_encodable hid (by simp [quotaFields]) ?_
  simp only [List.Forall, EncodableField]
  exact ⟨⟨by decide, by decide⟩, by decide, hreason⟩

theorem selectedAttempt_encodable {c : Candidate} (hid : validUtf8 c.model.id = true) :
    (selectedAttempt c).encodable = true := by
  refine measured_encodable hid (by simp [quotaFields]) ?_
  simp only [List.Forall, EncodableField]
  exact ⟨by decide, by decide⟩

theorem failedAttempt_encodable {c : Candidate} (hid : validUtf8 c.model.id = true)
    (row : CooldownRow) : (failedAttempt c row).encodable = true := by
  refine measured_encodable hid (by simp [quotaFields]) ?_
  simp only [List.Forall, EncodableField]
  refine ⟨⟨by decide, by decide⟩, by decide, encodable_record (by simp) ?_⟩
  simp only [List.Forall, EncodableField]
  exact ⟨⟨by decide, rfl⟩, ⟨by decide, rfl⟩, by decide, rfl⟩

/-! Runs that do not throw -/

theorem sendEvent_of_encodable {data : Json} (h : data.encodable = true) (s : LoopState)
    (name : String) :
    sendEvent s name data = ({ s with events := s.events ++ [(ascii name, data)] }, .next) := by
  rw [sendEvent, if_pos h]

theorem Valid.events {s : LoopState} (h : Valid s) (events : List (Bytes × Json)) :
    Valid { s with events } := ⟨h.cooldowns, h.attempts, h.finalError, h.output⟩

theorem Valid.append {s : LoopState} (h : Valid s) {attempt : Json}
    (ha : attempt.encodable = true) (reached : Nat) :
    Valid { s with attempts := s.attempts ++ [attempt], reached } := by
  refine ⟨h.cooldowns, fun a hmem => ?_, h.finalError, h.output⟩
  rcases List.mem_append.mp hmem with hmem | hmem
  · exact h.attempts a hmem
  · exact List.mem_singleton.mp hmem ▸ ha

/-- How a pass of the loop ends: the loop goes on, or has its answer. -/
structure Passed (s : LoopState) (reached : Nat) (r : LoopState × Course) : Prop where
  valid : Valid r.1
  kept : r.2 ≠ .threw
  asked : r.2 = .next → r.1.output = s.output ∧ r.1.reached = reached
  answered : r.2 = .leave → r.1.output.isSome = true

theorem Passed.of_output {s t : LoopState} {reached : Nat} {r : LoopState × Course}
    (h : Passed t reached r) (houtput : t.output = s.output) : Passed s reached r :=
  ⟨h.valid, h.kept, fun hnext => ⟨(h.asked hnext).1.trans houtput, (h.asked hnext).2⟩, h.answered⟩

section Keeps
variable {parse : Bytes → Except Bytes Json}
  (hparse : ∀ body parsed, parse body = .ok parsed → parsed.encodable = true)
  {provider : CloudProvider} (hprovider : CleanProvider provider)

include hparse hprovider

theorem afterReply_passed {c : Candidate} (hc : CleanCandidate parse c) {s : LoopState}
    (hs : Valid s) {before : List Json} (hbefore : ∀ a ∈ before, a.encodable = true) :
    Passed s s.reached (afterReply parse provider c before s) := by
  unfold afterReply
  cases hreply : runCloudModel parse provider c.model.endpoint c.reply with
  | ok text =>
    have htext := runCloudModel_ok hparse hreply
    refine ⟨⟨hs.cooldowns.clear _ _ _, hs.attempts, hs.finalError, ?_⟩, nofun, nofun,
      fun _ => rfl⟩
    rintro o ⟨⟩
    exact ⟨hc.id, htext⟩
  | error cloudError =>
    have herror := runCloudModel_error hprovider.kind hprovider.authType hc.reply hreply
    have hfinal : validUtf8 (if cloudError = [] then ascii "cloud call failed"
        else cloudError) = true := by
      split
      · decide
      · exact herror
    dsimp only
    generalize (if cloudError = [] then ascii "cloud call failed" else cloudError) = final
      at hfinal ⊢
    have hdata : (record
        [("provider", .str provider.id), ("model", .str c.model.id), ("error", .str final),
          ("cooldown_until", .int (recordCloudModelFailure s.cooldowns provider c.model final
            c.answeredAt).1.cooldownUntil)]).encodable = true := by
      refine encodable_record (by simp) ?_
      simp only [List.Forall, EncodableField]
      exact ⟨⟨by decide, hprovider.id⟩, ⟨by decide, hc.id⟩, ⟨by decide, hfinal⟩, by decide, rfl⟩
    rw [sendEvent_of_encodable hdata]
    refine ⟨⟨hs.cooldowns.record hfinal _ _ _, fun a ha => ?_, hfinal, hs.output⟩, nofun,
      fun _ => ⟨rfl, rfl⟩, nofun⟩
    rcases List.mem_append.mp ha with ha | ha
    · exact hbefore a ha
    · exact List.mem_singleton.mp ha ▸ failedAttempt_encodable hc.id _

theorem tryCandidate_passed {c : Candidate} (hc : CleanCandidate parse c) {s : LoopState}
    (hs : Valid s) : Passed s (s.reached + 1) (tryCandidate parse provider c s) := by
  unfold tryCandidate
  dsimp only
  split
  next row hrow =>
    obtain ⟨hload, -⟩ := Option.filter_eq_some_iff.mp hrow
    have hvalid := hs.cooldowns row (Rows.mem_of_get CooldownRow.key hload)
    exact ⟨hs.append (coolingAttempt_encodable hc.id hvalid) _, (fun h => by cases h),
      fun _ => ⟨rfl, rfl⟩, (fun h => by cases h)⟩
  next =>
    split
    next reason hreason =>
      have hattempt := rejectedAttempt_encodable hc.id (rejection_valid hreason)
      exact ⟨hs.append hattempt _, (fun h => by cases h), fun _ => ⟨rfl, rfl⟩,
        (fun h => by cases h)⟩
    next =>
      have hdata : (record
          [("message", literal "Trying cloud model"), ("provider", .str provider.id),
            ("model", .str c.model.id), ("context_compacted", .bool c.compacted)]).encodable =
            true := by
        refine encodable_record (by simp) ?_
        simp only [List.Forall, EncodableField]
        exact ⟨⟨by decide, by decide⟩, ⟨by decide, hprovider.id⟩, ⟨by decide, hc.id⟩, by decide,
          rfl⟩
      rw [sendEvent_of_encodable hdata, andThen]
      have hselected := (hs.append (selectedAttempt_encodable hc.id) (s.reached + 1)).events
      exact Passed.of_output
        (afterReply_passed hparse hprovider hc (hselected _) hs.attempts) rfl

/-- The loop comes to every candidate unless one has answered. -/
theorem tryCandidates_passed {candidates : List Candidate}
    (hclean : ∀ c ∈ candidates, CleanCandidate parse c) {s : LoopState} (hs : Valid s) :
    Passed s (s.reached + candidates.length) (tryCandidates parse provider candidates s) := by
  induction candidates generalizing s with
  | nil => exact ⟨hs, nofun, fun _ => ⟨rfl, rfl⟩, nofun⟩
  | cons c rest ih =>
    have hfirst := tryCandidate_passed hparse hprovider (hclean c List.mem_cons_self) hs
    rw [tryCandidates]
    rcases h : tryCandidate parse provider c s with ⟨t, course⟩
    rw [h] at hfirst
    cases course with
    | threw => exact absurd rfl hfirst.kept
    | leave => exact ⟨hfirst.valid, nofun, nofun, hfirst.answered⟩
    | next =>
      have hrest := ih (fun d hd => hclean d (List.mem_cons_of_mem c hd)) hfirst.valid
      obtain ⟨houtput, hreached⟩ := hfirst.asked rfl
      refine ⟨hrest.valid, hrest.kept, fun hnext => ?_, hrest.answered⟩
      obtain ⟨hsame, hcount⟩ := hrest.asked hnext
      refine ⟨hsame.trans houtput, ?_⟩
      rw [andThen, hcount, hreached, List.length_cons]
      omega

end Keeps

section Ends
variable {parse : Bytes → Except Bytes Json}

theorem refreshSummary_valid {r : CloudRun} (hr : CleanRun parse r) {db : List CooldownRow}
    (hdb : ValidRows db) :
    ValidRows (refreshSummary parse r db).1 ∧
      ∀ trace ∈ (refreshSummary parse r db).2, trace.encodable = true := by
  have hnote : ∀ note : Json, note.encodable = true → (record
      [("strategy", literal "summary_plus_pinned_plus_tail"),
        ("summary_refresh", note)]).encodable = true := by
    intro note h
    refine encodable_record (by simp) ?_
    simp only [List.Forall, EncodableField]
    exact ⟨⟨by decide, by decide⟩, by decide, h⟩
  unfold refreshSummary
  split
  next => exact ⟨hdb, nofun⟩
  next note hrefresh =>
    refine ⟨hdb, ?_⟩
    rintro trace ⟨⟩
    exact hnote note (hr.note _ hrefresh)
  next note model forced reply now hrefresh =>
    obtain ⟨hid, hclean⟩ := hr.asked _ hrefresh _ rfl
    split
    next =>
      refine ⟨hdb.clear _ _ _, ?_⟩
      rintro trace ⟨⟩
      exact hnote note (hr.note _ hrefresh)
    next summaryError hreply =>
      have herror := runCloudModel_error hr.provider.kind hr.provider.authType hclean hreply
      have hfail : validUtf8 (if summaryError = [] then ascii "summary refresh failed"
          else summaryError) = true := by
        split
        · decide
        · exact herror
      refine ⟨hdb.record hfail _ _ _, ?_⟩
      rintro trace ⟨⟩
      refine hnote _ (encodable_record (by simp) ?_)
      simp only [List.Forall, EncodableField]
      exact ⟨⟨by decide, by decide⟩, ⟨by decide, hid⟩, ⟨by decide, rfl⟩, ⟨by decide, hfail⟩,
        by decide, rfl⟩

theorem policyTrace_encodable {r : CloudRun} (hr : CleanRun parse r) {compaction : Option Json}
    (hcompaction : ∀ trace ∈ compaction, trace.encodable = true) {attempts : List Json}
    (hattempts : ∀ a ∈ attempts, a.encodable = true) {result : Json}
    (hresult : result.encodable = true) :
    (policyTrace r compaction attempts result).encodable = true := by
  have hselection : (record
      [("requested_provider", orNull r.requestedProvider),
        ("requested_model", orNull r.requestedModel)]).encodable = true := by
    refine encodable_record (by simp) ?_
    simp only [List.Forall, EncodableField]
    exact ⟨⟨by decide, encodable_orNull hr.requestedProvider⟩, by decide,
      encodable_orNull hr.requestedModel⟩
  have harr : (Json.arr attempts).encodable = true := by
    rw [Json.encodable, Json.encodableItems_eq, List.all_eq_true]
    exact hattempts
  unfold policyTrace
  refine encodable_record ?_ (List.forall_append.mpr ⟨?_, ?_⟩)
  · cases compaction <;> simp
  · simp only [List.Forall, EncodableField]
    exact ⟨⟨by decide, by decide⟩, ⟨by decide, hr.provider.id⟩, ⟨by decide, hselection⟩,
      ⟨by decide, harr⟩, by decide, hresult⟩
  · cases compaction with
    | none => trivial
    | some trace =>
      exact ⟨(by decide : validUtf8 (ascii "compaction") = true), hcompaction trace rfl⟩

theorem finish_kept {r : CloudRun} (hr : CleanRun parse r) {compaction : Option Json}
    (hcompaction : ∀ trace ∈ compaction, trace.encodable = true) {s : LoopState} (hs : Valid s) :
    (finish r compaction s).2 ≠ .threw ∧ (finish r compaction s).1.cooldowns = s.cooldowns ∧
      (finish r compaction s).1.output = s.output ∧
      (finish r compaction s).1.reached = s.reached := by
  unfold finish
  split
  next hnone =>
    have hresult : (record
        [("status", literal "failed"), ("error", .str s.finalError)]).encodable = true := by
      refine encodable_record (by simp) ?_
      simp only [List.Forall, EncodableField]
      exact ⟨⟨by decide, by decide⟩, by decide, hs.finalError⟩
    have hfailed : (record
        [("error", .str s.finalError), ("provider", .str r.provider.id)]).encodable = true := by
      refine encodable_record (by simp) ?_
      simp only [List.Forall, EncodableField]
      exact ⟨⟨by decide, hs.finalError⟩, by decide, hr.provider.id⟩
    dsimp only
    rw [if_pos (policyTrace_encodable hr hcompaction hs.attempts hresult),
      sendEvent_of_encodable hfailed]
    exact ⟨nofun, rfl, rfl, rfl⟩
  next modelId text promptTokens hsome =>
    obtain ⟨hid, htext⟩ := hs.output _ hsome
    have hchunk : (record
        [("provider", .str r.provider.id), ("model", .str modelId),
          ("delta", .str text)]).encodable = true := by
      refine encodable_record (by simp) ?_
      simp only [List.Forall, EncodableField]
      exact ⟨⟨by decide, hr.provider.id⟩, ⟨by decide, hid⟩, by decide, htext⟩
    have hresult : (record
        [("status", literal "completed"), ("provider", .str r.provider.id),
          ("model", .str modelId), ("prompt_tokens", .int promptTokens),
          ("response_tokens", .int ((text.length + 3) / 4))]).encodable = true := by
      refine encodable_record (by simp) ?_
      simp only [List.Forall, EncodableField]
      exact ⟨⟨by decide, by decide⟩, ⟨by decide, hr.provider.id⟩, ⟨by decide, hid⟩,
        ⟨by decide, rfl⟩, by decide, rfl⟩
    have hdone : (record
        [("provider", .str r.provider.id), ("model", .str modelId)]).encodable = true := by
      refine encodable_record (by simp) ?_
      simp only [List.Forall, EncodableField]
      exact ⟨⟨by decide, hr.provider.id⟩, by decide, hid⟩
    rw [sendEvent_of_encodable hchunk, andThen]
    dsimp only
    rw [if_pos (policyTrace_encodable hr hcompaction hs.attempts hresult),
      sendEvent_of_encodable hdone]
    exact ⟨nofun, rfl, rfl, rfl⟩

/-- A run over rows that earlier runs have left. -/
theorem execute_kept (hparse : ∀ body parsed, parse body = .ok parsed → parsed.encodable = true)
    {r : CloudRun} (hr : CleanRun parse r) {db : List CooldownRow}
    (hdb : ValidRows db) :
    (execute parse r db).2 ≠ .threw ∧ ValidRows (execute parse r db).1.cooldowns ∧
      ((execute parse r db).1.output = none →
        (execute parse r db).1.reached = r.candidates.length) := by
  obtain ⟨hrows, hcompaction⟩ := refreshSummary_valid hr hdb
  have hstart : Valid { cooldowns := (refreshSummary parse r db).1 } :=
    ⟨hrows, nofun, (by decide : validUtf8 (ascii "All cloud model attempts failed.") = true),
      nofun⟩
  have hloop := tryCandidates_passed hparse hr.provider hr.candidates hstart
  have hfinish := finish_kept hr hcompaction hloop.valid
  unfold execute
  dsimp only
  generalize hresult : tryCandidates parse r.provider r.candidates
    { cooldowns := (refreshSummary parse r db).1 } = result at hloop hfinish
  obtain ⟨s, course⟩ := result
  have hreached : s.output = none → s.reached = r.candidates.length := by
    intro hnone
    cases course with
    | threw => exact absurd rfl hloop.kept
    | leave =>
      have hsome := hloop.answered rfl
      rw [hnone] at hsome
      cases hsome
    | next => simpa using (hloop.asked rfl).2
  obtain ⟨hkept, hcooldowns, houtput, hcount⟩ := hfinish
  have hall : (finish r (refreshSummary parse r db).2 s).2 ≠ .threw ∧
      ValidRows (finish r (refreshSummary parse r db).2 s).1.cooldowns ∧
      ((finish r (refreshSummary parse r db).2 s).1.output = none →
        (finish r (refreshSummary parse r db).2 s).1.reached = r.candidates.length) :=
    ⟨hkept, hcooldowns ▸ hloop.valid.cooldowns, fun hnone => hcount.trans
      (hreached (houtput.symm.trans hnone))⟩
  cases course with
  | threw => exact absurd rfl hloop.kept
  | leave => exact hall
  | next => exact hall

end Ends

/-- The cooldowns that runs leave, one after the other. -/
def cooldownsAfter (parse : Bytes → Except Bytes Json) (runs : List CloudRun) : List CooldownRow :=
  runs.foldl (fun db r => (execute parse r db).1.cooldowns) []

theorem cooldownsAfter_valid {parse : Bytes → Except Bytes Json}
    (hparse : ∀ body parsed, parse body = .ok parsed → parsed.encodable = true)
    {runs : List CloudRun} (hruns : ∀ r ∈ runs, CleanRun parse r) :
    ValidRows (cooldownsAfter parse runs) := by
  unfold cooldownsAfter
  induction runs using List.reverseRecOn with
  | nil => exact nofun
  | append_singleton runs r ih =>
    rw [List.foldl_append, List.foldl_cons, List.foldl_nil]
    have hrows := ih fun q hq => hruns q (List.mem_append_left _ hq)
    exact (execute_kept hparse (hruns r (List.mem_append_right _ List.mem_cons_self)) hrows).2.1

/-- An error's text is UTF-8 exactly where what it quotes of the response is. After runs of which
that is so, a run throws nowhere, and comes to every candidate unless one has answered. -/
theorem error_texts_encodable {parse : Bytes → Except Bytes Json}
    (hparse : ∀ body parsed, parse body = .ok parsed → parsed.encodable = true) :
    (∀ providerKind status body,
      validUtf8 (parseCloudResponse parse providerKind status body).errorMessage = true ↔
        CleanResponse parse status body) ∧
      ∀ (runs : List CloudRun) (r : CloudRun), (∀ q ∈ runs, CleanRun parse q) →
        CleanRun parse r →
          (execute parse r (cooldownsAfter parse runs)).2 ≠ .threw ∧
            ((execute parse r (cooldownsAfter parse runs)).1.output = none →
              (execute parse r (cooldownsAfter parse runs)).1.reached = r.candidates.length) := by
  refine ⟨errorMessage_iff, fun runs r hruns hr => ?_⟩
  obtain ⟨hkept, -, hreached⟩ := execute_kept hparse hr (cooldownsAfter_valid hparse hruns)
  exact ⟨hkept, hreached⟩

/-! A character that is cut -/

/-- The parser on texts that are no JSON. -/
def noJson (_ : Bytes) : Except Bytes Json :=
  .error (ascii "[json.exception.parse_error.101] parse error at line 1, column 1: " ++
    ascii "syntax error while parsing value - invalid literal; last read: 'a'")

def mistral : CloudProvider := ⟨ascii "mistral", ascii "generic_chat", ascii "bearer_header"⟩

def candidateOf (id : String) (body : Bytes) (now : Int) : Candidate where
  model :=
    { id := ascii id, endpoint := ascii "/v1/chat", cooldownBase := 30, cooldownCap := 900 }
  now
  minute := ⟨0, 0⟩
  day := ⟨0, 0⟩
  compacted := false
  usedSummary := false
  pinnedFactCount := 0
  inputTokens := 10
  reply := .response 500 body
  answeredAt := now
  countedAt := now

/-- Two candidates that are answered with status 500 and the body. -/
def runOf (body : Bytes) (now : Int) : CloudRun where
  provider := mistral
  candidates := [candidateOf "small" body now, candidateOf "large" body now]

theorem error_texts_encodable_plain :
    let r := runOf (List.replicate 400 97) 100
    (execute noJson r (cooldownsAfter noJson [])).2 ≠ .threw ∧
      (execute noJson r (cooldownsAfter noJson [])).1.reached = 2 := by
  intro r
  have hclean : CleanRun noJson r := by
    refine ⟨⟨by decide, by decide, by decide⟩, rfl, rfl, ?_, nofun, nofun⟩
    intro c hc
    simp only [r, runOf, List.mem_cons, List.not_mem_nil, or_false] at hc
    have hbody : validUtf8 ((List.replicate 400 (97 : UInt8)).take 300) = true := by
      decide +kernel
    rcases hc with rfl | rfl <;> exact ⟨by decide, hbody⟩
  obtain ⟨hkept, hreached⟩ := (@error_texts_encodable noJson nofun).2 [] r nofun hclean
  exact ⟨hkept, hreached (by decide +kernel)⟩

/-- 299 letters and a character of two bytes. -/
def cutBody : Bytes := List.replicate 299 97 ++ [0xC3, 0xA9]

/-- The message ends inside a character: the run throws at its first failed candidate, and what it
leaves in the cooldowns lets a later run throw that is answered nothing of the kind. -/
theorem cut_character_throws :
    validUtf8 cutBody = true ∧
      validUtf8 (parseCloudResponse noJson (ascii "generic_chat") 500 cutBody).errorMessage =
        false ∧
      (execute noJson (runOf cutBody 100) []).2 = .threw ∧
      (execute noJson (runOf cutBody 100) []).1.reached = 1 ∧
      (execute noJson (runOf (ascii "busy") 110)
        (cooldownsAfter noJson [runOf cutBody 100])).2 = .threw := by
  decide +kernel

end CloudFallback

end HolderDaemon
