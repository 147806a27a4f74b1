import HolderDaemon.Json
import HolderDaemon.Rows
import HolderDaemon.Machine

/-!
The usage of cloud models (`api/support/CloudQuota.cpp`): a table of events, and the ledger file
that brings them back after the database is lost. A call may stop at any of its statements.
-/

set_option autoImplicit false

open Bytes

namespace HolderDaemon

namespace CloudQuota

/-! Events -/

/-- The arguments of `append_durable_event`. -/
structure UsageEvent where
  eventId : Bytes
  provider : Bytes
  modelId : Bytes
  promptTokens : Int64
  responseTokens : Int64
  totalTokens : Int64
  createdAt : Int64
  deriving DecidableEq

/-- A row of `ai_cloud_usage_events`, whose key is the identifier. -/
structure UsageRow where
  eventId : Text
  provider : Text
  modelId : Text
  promptTokens : Int64
  responseTokens : Int64
  totalTokens : Int64
  createdAt : Int64
  deriving DecidableEq

/-- The event as it is bound. -/
def UsageEvent.row (e : UsageEvent) : UsageRow where
  eventId := cString e.eventId
  provider := cString e.provider
  modelId := cString e.modelId
  promptTokens := e.promptTokens
  responseTokens := e.responseTokens
  totalTokens := e.totalTokens
  createdAt := e.createdAt

/-- The event that a row is exported as. -/
def UsageRow.event (r : UsageRow) : UsageEvent where
  eventId := r.eventId.val
  provider := r.provider.val
  modelId := r.modelId.val
  promptTokens := r.promptTokens
  responseTokens := r.responseTokens
  totalTokens := r.totalTokens
  createdAt := r.createdAt

@[simp] theorem UsageRow.row_event (r : UsageRow) : r.event.row = r := by
  simp [UsageRow.event, UsageEvent.row]

def UsageEvent.json (e : UsageEvent) : Json :=
  .object [
    (ascii "event_id", .str e.eventId),
    (ascii "provider", .str e.provider),
    (ascii "model_id", .str e.modelId),
    (ascii "prompt_tokens", .int e.promptTokens.toInt),
    (ascii "response_tokens", .int e.responseTokens.toInt),
    (ascii "total_tokens", .int e.totalTokens.toInt),
    (ascii "created_at", .int e.createdAt.toInt)]

/-- What `insert_event` reads. -/
def rowOfJson (event : Json) : Except Bytes UsageRow := do
  let eventId ← (← event.atKey "event_id").getString
  let provider ← (← event.atKey "provider").getString
  let modelId ← (← event.atKey "model_id").getString
  let promptTokens ← (← event.atKey "prompt_tokens").getInt64
  let responseTokens ← (← event.atKey "response_tokens").getInt64
  let totalTokens ← (← event.atKey "total_tokens").getInt64
  let createdAt ← (← event.atKey "created_at").getInt64
  .ok { eventId := cString eventId, provider := cString provider, modelId := cString modelId,
        promptTokens, responseTokens, totalTokens, createdAt }

theorem rowOfJson_json (e : UsageEvent) : rowOfJson e.json = .ok e.row := by
  have hid : e.json.atKey "event_id" = .ok (.str e.eventId) := Json.atKey_object (by simp)
  have hprovider : e.json.atKey "provider" = .ok (.str e.provider) :=
    Json.atKey_object (by simp [List.lookup_cons])
  have hmodel : e.json.atKey "model_id" = .ok (.str e.modelId) :=
    Json.atKey_object (by simp [List.lookup_cons])
  have hprompt : e.json.atKey "prompt_tokens" = .ok (.int e.promptTokens.toInt) :=
    Json.atKey_object (by simp [List.lookup_cons])
  have hresponse : e.json.atKey "response_tokens" = .ok (.int e.responseTokens.toInt) :=
    Json.atKey_object (by simp [List.lookup_cons])
  have htotal : e.json.atKey "total_tokens" = .ok (.int e.totalTokens.toInt) :=
    Json.atKey_object (by simp [List.lookup_cons])
  have hcreated : e.json.atKey "created_at" = .ok (.int e.createdAt.toInt) :=
    Json.atKey_object (by simp [List.lookup_cons])
  simp [rowOfJson, hid, hprovider, hmodel, hprompt, hresponse, htotal, hcreated, bind, Except.bind,
    Json.getString, Json.getInt64, UsageEvent.row]

/-! The ledger -/

def ledgerJson (events : List Json) : Json :=
  .object [(ascii "version", .int 1), (ascii "events", .arr events)]

/-- `load_ledger`; none is a file that does not exist. -/
def loadLedger (file : Option Json) : Except Bytes Json :=
  match file with
  | none => .ok (ledgerJson [])
  | some body => do
    let version ← (body.value (ascii "version") (.int 0)).getInt64
    match body.field? (ascii "events") with
    | some (.arr _) =>
      if version.toInt32 ≠ 1 then .error (ascii "unsupported cloud usage ledger format")
      else .ok body
    | _ => .error (ascii "unsupported cloud usage ledger format")

/-- `body.at("events")` of a loaded ledger. -/
def eventsOf (body : Json) : List Json :=
  match body.field? (ascii "events") with
  | some (.arr events) => events
  | _ => []

/-- `existing.value("event_id", std::string()) == event_id`, for one entry after the other. -/
def knows (eventId : Bytes) : List Json → Except Bytes Bool
  | [] => .ok false
  | existing :: events => do
    let known ← (existing.value (ascii "event_id") (.str [])).getString
    if known = eventId then .ok true else knows eventId events

/-- The ledger with one event more, or none where it has the event. -/
def withEvent (body : Json) (e : UsageEvent) : Except Bytes (Option Json) := do
  if ← knows e.eventId (eventsOf body) then .ok none
  else .ok (some (body.set (ascii "events") (.arr (eventsOf body ++ [e.json]))))

/-- `INSERT OR IGNORE`. -/
def insertEvent (db : List UsageRow) (event : Json) : Except Bytes (List UsageRow) := do
  let row ← rowOfJson event
  .ok (Rows.ignore UsageRow.eventId db row)

/-- `ORDER BY created_at, event_id`. -/
def exported (db : List UsageRow) : List Json :=
  (db.mergeSort fun a b => decide (a.createdAt < b.createdAt ∨
    a.createdAt = b.createdAt ∧ a.eventId.val ≤ b.eventId.val)).map fun r => r.event.json

@[simp] theorem field?_ledgerJson (events : List Json) :
    (ledgerJson events).field? (ascii "events") = some (.arr events) := by
  rw [ledgerJson, Json.field?_object]
  simp [List.lookup_cons]

@[simp] theorem eventsOf_ledgerJson (events : List Json) :
    eventsOf (ledgerJson events) = events := by
  simp [eventsOf]

theorem loadLedger_json (events : List Json) :
    loadLedger (some (ledgerJson events)) = .ok (ledgerJson events) := by
  have hversion : (ledgerJson events).field? (ascii "version") = some (.int 1) := by
    rw [ledgerJson, Json.field?_object]
    simp
  simp only [loadLedger, Json.value, hversion, field?_ledgerJson, Option.getD_some, Json.getInt64,
    bind, Except.bind]
  rfl

theorem set_ledgerJson (events more : List Json) :
    (ledgerJson events).set (ascii "events") (.arr more) = ledgerJson more := by
  have hne : ascii "version" ≠ ascii "events" := by decide
  have hlt : ¬ ascii "version" < ascii "events" := by decide
  simp [ledgerJson, Json.object, Json.set, Json.insertField, hne, hlt]

theorem knows_json {eventId : Bytes} {events : List UsageEvent} :
    knows eventId (events.map UsageEvent.json) =
      .ok (events.any fun e => e.eventId = eventId) := by
  induction events with
  | nil => rfl
  | cons e events ih =>
    have hid : e.json.field? (ascii "event_id") = some (.str e.eventId) := by
      rw [UsageEvent.json, Json.field?_object]
      simp
    simp only [List.map_cons, knows, Json.value, hid, Option.getD_some, Json.getString, bind,
      Except.bind, ih, List.any_cons]
    split <;> simp_all

theorem withEvent_json {events : List UsageEvent} {e : UsageEvent} :
    withEvent (ledgerJson (events.map UsageEvent.json)) e =
      .ok (if events.any fun k => k.eventId = e.eventId then none
        else some (ledgerJson ((events ++ [e]).map UsageEvent.json))) := by
  simp only [withEvent, eventsOf_ledgerJson, knows_json, set_ledgerJson, bind, Except.bind,
    List.map_append, List.map_cons, List.map_nil]
  split <;> simp_all

/-! Calls that may stop -/

/-- `pathSet` tells whether `usage_ledger_path` is set. `offered` are the rows that have been
recorded, by whichever statement a call has reached, and `durable` the events whose append has
returned while the path was set. -/
structure Usage where
  db : List UsageRow
  file : Option Json := none
  pathSet : Bool := false
  offered : List UsageRow
  durable : List UsageEvent := []

/-- The first daemon to keep a ledger, on a table with some rows. -/
def Usage.start (rows : List UsageRow) : Usage := { db := rows, offered := rows }

/-- Where a call throws: before the ledger is replaced, after that, or at its insertion. -/
inductive Stop where
  | write | replaced | insertion | done
  deriving DecidableEq, Repr

inductive UsageStep where
  | record (e : UsageEvent) (stop : Stop)
  /-- `inserted` is none where every event of the ledger is inserted. -/
  | startUp (inserted : Option Nat) (stop : Stop)
  | restore (inserted : Option Nat)
  | loseDatabase

namespace Usage

/-- `write_ledger`; the encoder takes UTF-8 only. -/
def writeLedger (s : Usage) (body : Json) : Option Usage :=
  if body.encodable then some { s with file := some body } else none

/-- `append_durable_event`, where it returns or throws after the ledger is replaced. -/
def appendDurableEvent (s : Usage) (e : UsageEvent) (returns : Bool) : Option Usage :=
  if !s.pathSet then if returns then some s else none
  else
    match loadLedger s.file with
    | .error _ => none
    | .ok body =>
      match withEvent body e with
      | .error _ => none
      | .ok none => if returns then some { s with durable := s.durable ++ [e] } else none
      | .ok (some next) =>
        (s.writeLedger next).map fun t =>
          if returns then { t with durable := t.durable ++ [e] } else t

/-- `INSERT`, which fails where the key is there. -/
def insert (s : Usage) (row : UsageRow) : Option Usage :=
  if (Rows.get UsageRow.eventId row.eventId s.db).isSome then none
  else some { s with db := s.db ++ [row] }

def recordCloudUsageEvent (s : Usage) (e : UsageEvent) (stop : Stop) : Option Usage :=
  let s := { s with offered := s.offered ++ [e.row] }
  match stop with
  | .write => if s.pathSet then some s else none
  | .replaced => s.appendDurableEvent e false
  | .insertion => s.appendDurableEvent e true
  | .done => (s.appendDurableEvent e true).bind fun t => t.insert e.row

/-- The events of the ledger are inserted, all of them or the first `n`. -/
def insertedEvents (file : Option Json) (db : List UsageRow) (inserted : Option Nat) :
    Except Bytes (List UsageRow) := do
  let body ← loadLedger file
  ((eventsOf body).take (inserted.getD (eventsOf body).length)).foldlM insertEvent db

def insertEvents (s : Usage) (inserted : Option Nat) : Option Usage :=
  (insertedEvents s.file s.db inserted).toOption.map fun db => { s with db }

def restoreCloudUsageLedger (s : Usage) (inserted : Option Nat) : Option Usage :=
  s.insertEvents inserted

def initializeCloudUsageLedger (s : Usage) (inserted : Option Nat) (stop : Stop) : Option Usage :=
  let s := { s with pathSet := false }
  if s.file.isSome then
    (s.insertEvents inserted).map fun t => { t with pathSet := inserted.isNone }
  else
    match stop with
    | .write => some s
    | .replaced => s.writeLedger (ledgerJson (exported s.db))
    | .insertion => none
    | .done =>
      (s.writeLedger (ledgerJson (exported s.db))).map fun t => { t with pathSet := true }

def step (s : Usage) : UsageStep → Option Usage
  | .record e stop => s.recordCloudUsageEvent e stop
  | .startUp inserted stop => s.initializeCloudUsageLedger inserted stop
  | .restore inserted => s.restoreCloudUsageLedger inserted
  | .loseDatabase => some { s with db := [] }

end Usage

/-- The identifiers of events are distinct. -/
def Distinct (s : Usage) : UsageStep → Prop
  | .record e _ => (cString e.eventId) ∉ s.offered.map UsageRow.eventId
  | _ => True

/-! What stays -/

/-- The table and the ledger hold recorded rows, each identifier stands for one of them, and the
ledger has every durable event. -/
structure Sound (s : Usage) : Prop where
  offered : (s.offered.map UsageRow.eventId).Nodup
  db : ∀ row ∈ s.db, row ∈ s.offered
  nodup : (s.db.map UsageRow.eventId).Nodup
  file : s.file = none ∧ s.durable = [] ∨
    ∃ events : List UsageEvent, s.file = some (ledgerJson (events.map UsageEvent.json)) ∧
      (∀ e ∈ events, e.row ∈ s.offered) ∧ ∀ e ∈ s.durable, e ∈ events

theorem sound_start {rows : List UsageRow} (h : (rows.map UsageRow.eventId).Nodup) :
    Sound (Usage.start rows) :=
  ⟨h, fun _ hrow => hrow, h, .inl ⟨rfl, rfl⟩⟩

theorem foldlM_insertEvent (events : List UsageEvent) (db : List UsageRow) :
    (events.map UsageEvent.json).foldlM insertEvent db =
      .ok ((events.map UsageEvent.row).foldl (Rows.ignore UsageRow.eventId) db) := by
  induction events generalizing db with
  | nil => rfl
  | cons e events ih =>
    rw [List.map_cons, List.foldlM_cons, insertEvent, rowOfJson_json]
    exact ih _

/-- The ledger as it is loaded. -/
theorem Sound.loaded {s : Usage} (h : Sound s) : ∃ events : List UsageEvent,
    loadLedger s.file = .ok (ledgerJson (events.map UsageEvent.json)) ∧
      (∀ e ∈ events, e.row ∈ s.offered) ∧ ∀ e ∈ s.durable, e ∈ events := by
  rcases h.file with ⟨hfile, hdurable⟩ | ⟨events, hfile, hevents, hdurable⟩
  · refine ⟨[], by rw [hfile]; rfl, nofun, fun e he => ?_⟩
    rw [hdurable] at he
    cases he
  · exact ⟨events, by rw [hfile, loadLedger_json], hevents, hdurable⟩

/-- The ledger inserts recorded rows, and all durable ones where it is gone through. -/
theorem Sound.insertedEvents {s : Usage} (h : Sound s) (inserted : Option Nat) :
    ∃ events : List UsageEvent, (∀ db, Usage.insertedEvents s.file db inserted =
        .ok ((events.map UsageEvent.row).foldl (Rows.ignore UsageRow.eventId) db)) ∧
      (∀ row ∈ events.map UsageEvent.row, row ∈ s.offered) ∧
      (inserted = none → ∀ e ∈ s.durable, e ∈ events) := by
  obtain ⟨events, hload, hevents, hdurable⟩ := h.loaded
  refine ⟨events.take (inserted.getD events.length), fun db => ?_, fun row hrow => ?_, ?_⟩
  · simp only [Usage.insertedEvents, hload, eventsOf_ledgerJson, ← List.map_take,
      foldlM_insertEvent, List.length_map, bind, Except.bind]
  · obtain ⟨e, he, rfl⟩ := List.mem_map.mp hrow
    exact hevents e (List.mem_of_mem_take he)
  · rintro rfl e he
    rw [Option.getD_none, List.take_length]
    exact hdurable e he

theorem Sound.insertEvents {s t : Usage} (h : Sound s) {inserted : Option Nat}
    (hstep : s.insertEvents inserted = some t) : Sound t := by
  obtain ⟨events, hinserted, hevents, -⟩ := h.insertedEvents inserted
  rw [Usage.insertEvents, hinserted] at hstep
  cases hstep
  refine ⟨h.offered, fun row hrow => ?_, Rows.nodup_foldl_ignore UsageRow.eventId h.nodup, h.file⟩
  rcases Rows.mem_foldl_ignore UsageRow.eventId hrow with hrow | hrow
  · exact h.db row hrow
  · exact hevents row hrow

theorem sound_exported {s t : Usage} (h : Sound s) (hfile : s.file = none)
    (hwrite : s.writeLedger (ledgerJson (exported s.db)) = some t) : Sound t := by
  have hnone : s.durable = [] := by
    rcases h.file with ⟨-, hdurable⟩ | ⟨events, hsome, -⟩
    · exact hdurable
    · rw [hfile] at hsome
      cases hsome
  unfold Usage.writeLedger at hwrite
  split at hwrite <;> cases hwrite
  refine ⟨h.offered, h.db, h.nodup, .inr ⟨_, congrArg (fun l => some (ledgerJson l))
    (List.map_map (g := UsageEvent.json) (f := UsageRow.event)).symm, fun e he => ?_,
    fun e he => ?_⟩⟩
  · obtain ⟨row, hrow, rfl⟩ := List.mem_map.mp he
    rw [row.row_event]
    exact h.db row (List.mem_mergeSort.mp hrow)
  · rw [hnone] at he
    cases he

theorem Sound.offer {s : Usage} (h : Sound s) {row : UsageRow}
    (hnew : row.eventId ∉ s.offered.map UsageRow.eventId) :
    Sound { s with offered := s.offered ++ [row] } where
  offered := by
    rw [List.map_append]
    refine List.nodup_append.mpr ⟨h.offered, List.nodup_singleton _, fun a ha b hb => ?_⟩
    rw [List.mem_singleton.mp hb]
    rintro rfl
    exact hnew ha
  db := fun r hr => List.mem_append_left _ (h.db r hr)
  nodup := h.nodup
  file := by
    rcases h.file with hnone | ⟨events, hfile, hevents, hdurable⟩
    · exact .inl hnone
    · exact .inr ⟨events, hfile, fun e he => List.mem_append_left _ (hevents e he), hdurable⟩

/-- An event with an identifier of its own is appended. -/
theorem Sound.appendDurableEvent {s t : Usage} (h : Sound s) {e : UsageEvent} {returns : Bool}
    (hnew : e.row.eventId ∉ s.offered.map UsageRow.eventId)
    (hstep : { s with offered := s.offered ++ [e.row] }.appendDurableEvent e returns = some t) :
    Sound t ∧ t.db = s.db ∧ t.offered = s.offered ++ [e.row] := by
  have hoffer := h.offer hnew
  obtain ⟨events, hload, hevents, hdurable⟩ := h.loaded
  have hother : (events.any fun k => k.eventId = e.eventId) = false := by
    rw [List.any_eq_false]
    intro k hk heq
    refine hnew (List.mem_map.mpr ⟨k.row, hevents k hk, ?_⟩)
    simp only [UsageEvent.row, of_decide_eq_true heq]
  simp only [Usage.appendDurableEvent] at hstep
  split at hstep
  · split at hstep <;> cases hstep
    exact ⟨hoffer, rfl, rfl⟩
  · simp only [hload, withEvent_json, hother, Bool.false_eq_true, if_false, Usage.writeLedger]
      at hstep
    obtain ⟨u, hu, rfl⟩ := Option.map_eq_some_iff.mp hstep
    split at hu
    · cases hu
      have hmem : ∀ k ∈ events ++ [e], k.row ∈ s.offered ++ [e.row] := by
        intro k hk
        rcases List.mem_append.mp hk with hk | hk
        · exact List.mem_append_left _ (hevents k hk)
        · rw [List.mem_singleton.mp hk]
          exact List.mem_append_right _ (List.mem_singleton_self _)
      have hold : ∀ k ∈ s.durable, k ∈ events ++ [e] := fun k hk =>
        List.mem_append_left _ (hdurable k hk)
      cases returns with
      | false =>
        exact ⟨⟨hoffer.offered, hoffer.db, h.nodup, .inr ⟨_, rfl, hmem, hold⟩⟩, rfl, rfl⟩
      | true =>
        refine ⟨⟨hoffer.offered, hoffer.db, h.nodup, .inr ⟨_, rfl, hmem, fun k hk => ?_⟩⟩, rfl, rfl⟩
        rcases List.mem_append.mp hk with hk | hk
        · exact hold k hk
        · exact List.mem_append_right _ hk
    · cases hu

theorem Sound.insert {s t : Usage} (h : Sound s) {row : UsageRow} (hrow : row ∈ s.offered)
    (hstep : s.insert row = some t) : Sound t := by
  unfold Usage.insert at hstep
  split at hstep
  · cases hstep
  · rename_i hnone
    cases hstep
    have hignore : Rows.ignore UsageRow.eventId s.db row = s.db ++ [row] := if_neg hnone
    refine ⟨h.offered, fun r hr => ?_, ?_, h.file⟩
    · rcases List.mem_append.mp hr with hr | hr
      · exact h.db r hr
      · rw [List.mem_singleton.mp hr]
        exact hrow
    · rw [← hignore]
      exact Rows.nodup_ignore UsageRow.eventId h.nodup row

theorem Sound.record {s t : Usage} (h : Sound s) {e : UsageEvent} {stop : Stop}
    (hnew : e.row.eventId ∉ s.offered.map UsageRow.eventId)
    (hstep : s.recordCloudUsageEvent e stop = some t) : Sound t := by
  cases stop with
  | write =>
    simp only [Usage.recordCloudUsageEvent] at hstep
    split at hstep <;> cases hstep
    exact h.offer hnew
  | replaced => exact (h.appendDurableEvent hnew hstep).1
  | insertion => exact (h.appendDurableEvent hnew hstep).1
  | done =>
    obtain ⟨u, hu, hstep⟩ := Option.bind_eq_some_iff.mp hstep
    obtain ⟨hsound, -, hoffered⟩ := h.appendDurableEvent hnew hu
    refine hsound.insert ?_ hstep
    rw [hoffered]
    exact List.mem_append_right _ (List.mem_singleton_self _)

theorem Sound.startUp {s t : Usage} (h : Sound s) {inserted : Option Nat} {stop : Stop}
    (hstep : s.initializeCloudUsageLedger inserted stop = some t) : Sound t := by
  have hreset : Sound { s with pathSet := false } := ⟨h.offered, h.db, h.nodup, h.file⟩
  simp only [Usage.initializeCloudUsageLedger] at hstep
  split at hstep
  · obtain ⟨u, hu, rfl⟩ := Option.map_eq_some_iff.mp hstep
    have hsound := hreset.insertEvents hu
    exact ⟨hsound.offered, hsound.db, hsound.nodup, hsound.file⟩
  · rename_i hnone
    have hfile : s.file = none := Option.not_isSome_iff_eq_none.mp hnone
    cases stop with
    | write =>
      cases hstep
      exact hreset
    | replaced => exact sound_exported hreset hfile hstep
    | insertion => cases hstep
    | done =>
      obtain ⟨u, hu, rfl⟩ := Option.map_eq_some_iff.mp hstep
      have hsound := sound_exported hreset hfile hu
      exact ⟨hsound.offered, hsound.db, hsound.nodup, hsound.file⟩

theorem Sound.step {s t : Usage} {l : UsageStep} (h : Sound s) (hl : Distinct s l)
    (hstep : s.step l = some t) : Sound t := by
  cases l with
  | record e stop => exact h.record hl hstep
  | startUp inserted stop => exact h.startUp hstep
  | restore inserted => exact h.insertEvents hstep
  | loseDatabase =>
    cases hstep
    exact ⟨h.offered, nofun, List.nodup_nil, h.file⟩

/-- The event's row is in the table, and no other row with its identifier. -/
def HeldOnce (db : List UsageRow) (e : UsageEvent) : Prop :=
  db.filter (fun row => row.eventId = cString e.eventId) = [e.row]

theorem heldOnce {db : List UsageRow} (h : (db.map UsageRow.eventId).Nodup) {e : UsageEvent}
    (he : e.row ∈ db) : HeldOnce db e := by
  induction db with
  | nil => cases he
  | cons row db ih =>
    rw [List.map_cons, List.nodup_cons] at h
    unfold HeldOnce
    rcases List.mem_cons.mp he with rfl | he
    · have hrest : db.filter (fun row => row.eventId = cString e.eventId) = [] := by
        rw [List.filter_eq_nil_iff]
        intro r hr heq
        exact h.1 (List.mem_map.mpr ⟨r, hr, of_decide_eq_true heq⟩)
      rw [List.filter_cons, hrest, if_pos]
      exact decide_eq_true rfl
    · rw [List.filter_cons, if_neg]
      · exact ih h.2 he
      · intro heq
        refine h.1 (List.mem_map.mpr ⟨e.row, he, ?_⟩)
        exact (of_decide_eq_true heq).symm

/-- The rows of the calls of `record_cloud_usage_event`. -/
def recordedRows : List UsageStep → List UsageRow
  | [] => []
  | .record e _ :: steps => e.row :: recordedRows steps
  | _ :: steps => recordedRows steps

theorem appendDurableEvent_offered {s t : Usage} {e : UsageEvent} {returns : Bool}
    (h : s.appendDurableEvent e returns = some t) : t.offered = s.offered := by
  unfold Usage.appendDurableEvent at h
  split at h
  · split at h <;> cases h
    rfl
  · split at h
    · cases h
    · split at h
      · cases h
      · split at h <;> cases h
        rfl
      · obtain ⟨u, hu, rfl⟩ := Option.map_eq_some_iff.mp h
        unfold Usage.writeLedger at hu
        split at hu <;> cases hu
        split <;> rfl

theorem record_offered {s t : Usage} {e : UsageEvent} {stop : Stop}
    (h : s.recordCloudUsageEvent e stop = some t) : t.offered = s.offered ++ [e.row] := by
  cases stop with
  | write =>
    simp only [Usage.recordCloudUsageEvent] at h
    split at h <;> cases h
    rfl
  | replaced => exact appendDurableEvent_offered h
  | insertion => exact appendDurableEvent_offered h
  | done =>
    obtain ⟨u, hu, h⟩ := Option.bind_eq_some_iff.mp h
    unfold Usage.insert at h
    split at h <;> cases h
    exact appendDurableEvent_offered hu

theorem insertEvents_offered {s t : Usage} {inserted : Option Nat}
    (h : s.insertEvents inserted = some t) : t.offered = s.offered := by
  obtain ⟨db, -, rfl⟩ := Option.map_eq_some_iff.mp h
  rfl

theorem startUp_offered {s t : Usage} {inserted : Option Nat} {stop : Stop}
    (h : s.initializeCloudUsageLedger inserted stop = some t) : t.offered = s.offered := by
  have hwrite : ∀ {u v : Usage} {body : Json}, u.writeLedger body = some v →
      v.offered = u.offered := by
    intro u v body hv
    unfold Usage.writeLedger at hv
    split at hv <;> cases hv
    rfl
  simp only [Usage.initializeCloudUsageLedger] at h
  split at h
  · obtain ⟨u, hu, rfl⟩ := Option.map_eq_some_iff.mp h
    have hsame := insertEvents_offered hu
    exact hsame
  · cases stop with
    | write =>
      cases h
      rfl
    | replaced =>
      have hsame := hwrite h
      exact hsame
    | insertion => cases h
    | done =>
      obtain ⟨u, hu, rfl⟩ := Option.map_eq_some_iff.mp h
      have hsame := hwrite hu
      exact hsame

theorem offered_run {s t : Usage} {steps : List UsageStep}
    (h : Machine.run Usage.step s steps = some t) :
    t.offered = s.offered ++ recordedRows steps := by
  induction steps generalizing s with
  | nil =>
    cases h
    rw [recordedRows, List.append_nil]
  | cons l steps ih =>
    obtain ⟨u, hu, h⟩ := Machine.run_cons_some Usage.step h
    rw [ih h]
    cases l with
    | record e stop =>
      rw [record_offered hu, recordedRows, List.append_assoc, List.singleton_append]
    | startUp inserted stop => exact congrArg (· ++ recordedRows steps) (startUp_offered hu)
    | restore inserted => exact congrArg (· ++ recordedRows steps) (insertEvents_offered hu)
    | loseDatabase =>
      cases hu
      rfl

/-- Whatever calls have gone before and wherever they have stopped: only recorded rows are in the
table; a restore goes through, and has every durable event in the table once, adds none that was
never recorded, and changes nothing when it is done again. A start with the ledger does the same. -/
theorem usage_restored {rows : List UsageRow} (hrows : (rows.map UsageRow.eventId).Nodup)
    {steps : List UsageStep} {s : Usage}
    (hdistinct : Machine.Along Usage.step Distinct (Usage.start rows) steps)
    (hrun : Machine.run Usage.step (Usage.start rows) steps = some s) :
    (∀ row ∈ s.db, row ∈ rows ++ recordedRows steps) ∧
      ∃ t, s.step (.restore none) = some t ∧
        (∀ e ∈ s.durable, HeldOnce t.db e) ∧
        (∀ row ∈ t.db, row ∈ rows ++ recordedRows steps) ∧
        t.step (.restore none) = some t ∧
        (s.file.isSome = true → ∀ stop, ∃ u, s.step (.startUp none stop) = some u ∧
          u.db = t.db ∧ u.pathSet = true) := by
  have h : Sound s := Machine.run_invariant_along Usage.step
    (fun _ _ _ h hl hstep => h.step hl hstep) (sound_start hrows) hdistinct hrun
  have hoffered : s.offered = rows ++ recordedRows steps := offered_run hrun
  obtain ⟨events, hinserted, hevents, hdurable⟩ := h.insertedEvents none
  have hrestore : s.step (.restore none) = some { s with
      db := (events.map UsageEvent.row).foldl (Rows.ignore UsageRow.eventId) s.db } := by
    simp only [Usage.step, Usage.restoreCloudUsageLedger, Usage.insertEvents, hinserted]
    rfl
  have ht := h.insertEvents hrestore
  refine ⟨hoffered ▸ h.db, _, hrestore, fun e he => ?_, ?_, ?_, fun hfile stop => ?_⟩
  · refine heldOnce ht.nodup ?_
    refine Rows.entry_mem_foldl_ignore UsageRow.eventId h.offered h.db hevents ?_
    exact List.mem_map_of_mem (hdurable rfl e he)
  · rw [← hoffered]
    exact ht.db
  · -- every event of the ledger is in the table now
    have hmem : ∀ row ∈ events.map UsageEvent.row,
        row ∈ (events.map UsageEvent.row).foldl (Rows.ignore UsageRow.eventId) s.db :=
      fun row hrow => Rows.entry_mem_foldl_ignore UsageRow.eventId h.offered h.db hevents hrow
    simp only [Usage.step, Usage.restoreCloudUsageLedger, Usage.insertEvents, hinserted,
      Rows.foldl_ignore_self UsageRow.eventId hmem]
    rfl
  · simp only [Usage.step, Usage.initializeCloudUsageLedger, hfile, if_true, Usage.insertEvents,
      hinserted]
    exact ⟨_, rfl, rfl, rfl⟩

instance (s : Usage) : (l : UsageStep) → Decidable (Distinct s l)
  | .record _ _ => inferInstanceAs (Decidable (¬ _))
  | .startUp _ _ | .restore _ | .loseDatabase => inferInstanceAs (Decidable True)

def usageEvent (eventId : String) (createdAt : Int64) : UsageEvent :=
  ⟨ascii eventId, ascii "mistral", ascii "small", 10, 5, 15, createdAt⟩

/-- A row from before there was a ledger, an event, and an event that is not inserted; the database
is lost and restored. -/
theorem usage_restored_lost :
    let rows := [(usageEvent "cloud-r0-5-1" 5).row]
    let steps := [UsageStep.startUp none .done, .record (usageEvent "cloud-r1-7-2" 7) .done,
      .record (usageEvent "cloud-r2-8-3" 8) .insertion, .loseDatabase]
    ∃ s t, Machine.run Usage.step (Usage.start rows) steps = some s ∧ s.db = [] ∧
      s.durable.length = 2 ∧ s.step (.restore none) = some t ∧
      (∀ e ∈ s.durable, HeldOnce t.db e) ∧ t.step (.restore none) = some t := by
  intro rows steps
  obtain ⟨s, hrun, htest⟩ := Machine.run_of_any Usage.step (Usage.start rows) steps
    (fun s => decide (s.db = [] ∧ s.durable.length = 2)) (by decide +kernel)
  obtain ⟨hdb, hdurable⟩ := of_decide_eq_true htest
  obtain ⟨-, t, hrestore, hheld, -, hagain, -⟩ :=
    usage_restored (by decide) (by decide +kernel) hrun
  exact ⟨s, t, hrun, hdb, hdurable, hrestore, hheld, hagain⟩

end CloudQuota

end HolderDaemon
