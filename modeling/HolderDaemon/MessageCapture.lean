import HolderDaemon.ThreadRequests

/-!
Captured conversations (`api/routes/ai/messages/AiMessageCaptureRoutes.cpp`): POST
/ai/messages/capture makes a thread where none is named, appends the prompt, reads the rest of the
body, and appends the response. Each call is atomic, and any of them may throw.
-/

set_option autoImplicit false

open Bytes
open Json (of_bind_ok of_mapError_ok str_of_getString)

namespace HolderDaemon

namespace Capture

open AiDurability (Thread Effect createEffects givenString)

structure AiMessage where
  messageId : Bytes
  threadId : Text
  role : Bytes
  source : Bytes
  provider : Option Bytes := none
  model : Option Bytes := none
  content : Bytes
  createdAt : Int64
  metaJson : Option Json := none

/-- The threads with their manifests, and the messages in the order in which they were appended. -/
structure Store where
  db : AiDurability.State
  messages : List AiMessage := []

/-! The body -/

/-- An error of a check. -/
structure Rejection where
  status : Nat
  code : Bytes
  message : Bytes

inductive Reply where
  | created (threadId : Text) (userMessageId assistantMessageId : Bytes)
  | rejected (rejection : Rejection)
  /-- 409 or 400 with the text of an exception. -/
  | threw

def Reply.isError : Reply → Bool
  | .created _ _ _ => false
  | _ => true

def badRequest (message : Bytes) : Rejection := ⟨400, ascii "bad_request", message⟩

/-- What the request draws; `truncate` is what a floating-point number is as an integer. -/
structure Drawn where
  threadUuid : Bytes
  userUuid : Bytes
  assistantUuid : Bytes
  now : Int64
  truncate : Bytes → Int64 := fun _ => 0

def given (body : Json) (key : String) : Option Json :=
  match body.field? (ascii key) with
  | some .null => none
  | other => other

def createdAt (drawn : Drawn) (body : Json) : Except Bytes Int64 :=
  match given body "created_at" with
  | none => .ok drawn.now
  | some (.float text) => .ok (drawn.truncate text)
  | some (.bool b) => .ok (if b then 1 else 0)
  | some j => j.getInt64

/-- The title of a new thread: eighty bytes of the prompt, or of the response. -/
def title (prompt response : Bytes) : Bytes :=
  let text := (if prompt = [] then response else prompt).take 80
  if text = [] then ascii "Captured response" else text

/-- The metadata of the response, which are read after the prompt has been appended; none where
the url is not a text. -/
def metadata (body : Json) : Option (List (Bytes × Json)) :=
  let context := ((given body "context").map fun j => (ascii "context", j)).toList
  match given body "url" with
  | none => some context
  | some (.str url) => some (context ++ [(ascii "url", .str url)])
  | some _ => none

/-- The metadata can be read, and the encoder takes them. -/
def metadataEncodes (body : Json) : Bool :=
  (metadata body).any fun fields => (Json.obj fields).encodable

def metaJson (body : Json) : Option Json :=
  match metadata body with
  | some [] => none
  | some fields => some (.obj fields)
  | none => none

/-- A request that has passed its checks: its thread, and whether it is new. -/
structure Plan where
  thread : Thread
  isNew : Bool
  user : AiMessage
  assistant : AiMessage
  encodes : Bool

/-- The thread that a body names, or a new one. -/
def captureThread (s : Store) (drawn : Drawn) (projectId prompt response : Bytes)
    (created : Int64) : Option Bytes → Except Rejection (Thread × Bool)
  | some threadId =>
    match s.db.thread? (cString threadId) with
    | none => .error ⟨404, ascii "not_found", ascii "AI thread not found."⟩
    | some existing =>
      if existing.projectId.val ≠ projectId then
        .error (badRequest (ascii "Thread belongs to a different project."))
      else .ok (existing, false)
  | none =>
    .ok (⟨cString drawn.threadUuid, cString projectId, none, cString (title prompt response),
      created, created⟩, true)

/-- The handler up to its first write. -/
def plan (s : Store) (drawn : Drawn) (body : Except Bytes Json) : Except Rejection Plan := do
  let json ← body.mapError badRequest
  match json.field? (ascii "project_id"), json.field? (ascii "prompt"),
      json.field? (ascii "response") with
  | some projectField, some promptField, some responseField =>
    let projectId ← projectField.getString.mapError badRequest
    let prompt ← promptField.getString.mapError badRequest
    let response ← responseField.getString.mapError badRequest
    let source ← (givenString json "source").mapError badRequest
    let provider ← (givenString json "provider").mapError badRequest
    let model ← (givenString json "model").mapError badRequest
    let threadId ← (givenString json "thread_id").mapError badRequest
    if cString projectId ∉ s.db.projectIds then
      .error ⟨404, ascii "not_found", ascii "Project not found."⟩
    else
      let created ← (createdAt drawn json).mapError badRequest
      let (thread, isNew) ← captureThread s drawn projectId prompt response created threadId
      let source := source.getD (ascii "manual_paste")
      .ok
        { thread, isNew
          user := { messageId := drawn.userUuid, threadId := thread.threadId, role := ascii "user",
                    source, content := prompt, createdAt := created }
          assistant := { messageId := drawn.assistantUuid, threadId := thread.threadId,
                         role := ascii "assistant", source, provider, model, content := response,
                         createdAt := created, metaJson := metaJson json }
          encodes := metadataEncodes json }
  | _, _, _ => .error (badRequest (ascii "Missing required fields."))

/-! The calls -/

inductive Call where
  | thread (e : Effect)
  | append (message : AiMessage)
  /-- The metadata are read and encoded. -/
  | encode (ok : Bool)

def Call.act (s : Store) : Call → Option Store
  | .thread e => (e.act s.db).map fun db => { s with db }
  | .append message => some { s with messages := s.messages ++ [message] }
  | .encode ok => if ok then some s else none

def Plan.appends (p : Plan) : List Call := [.append p.user, .encode p.encodes, .append p.assistant]

def Plan.calls (p : Plan) : List Call :=
  if p.isNew then (createEffects p.thread).map .thread ++ p.appends else p.appends

/-- The reply, and the store that the request leaves; `fault` is the call that throws. -/
def capture (s : Store) (drawn : Drawn) (body : Except Bytes Json) (fault : Option Nat) :
    Reply × Store :=
  match plan s drawn body with
  | .error rejection => (.rejected rejection, s)
  | .ok p =>
    let done := Effects.run Call.act fault p.calls s
    (if done.1 then .created p.thread.threadId drawn.userUuid drawn.assistantUuid else .threw,
      done.2)

/-! All or nothing -/

/-- No thread and no message is stored. -/
structure Unchanged (s t : Store) : Prop where
  threads : t.db.threads = s.db.threads
  messages : t.messages = s.messages

/-- The prompt and the response follow one another in the thread that is named, or in a new one. -/
structure Captured (s : Store) (body : Except Bytes Json) (t : Store) : Prop where
  stored : ∃ (json : Json) (thread : Thread) (prompt response : Bytes) (user assistant : AiMessage),
    body = .ok json ∧
    json.field? (ascii "prompt") = some (.str prompt) ∧
    json.field? (ascii "response") = some (.str response) ∧
    user.role = ascii "user" ∧ user.content = prompt ∧ user.threadId = thread.threadId ∧
    assistant.role = ascii "assistant" ∧ assistant.content = response ∧
    assistant.threadId = thread.threadId ∧
    t.messages = s.messages ++ [user, assistant] ∧
    ((∃ id, given json "thread_id" = some (.str id) ∧ thread.threadId = cString id ∧
        s.db.thread? thread.threadId = some thread ∧ t.db.threads = s.db.threads) ∨
      (given json "thread_id" = none ∧ s.db.thread? thread.threadId = none ∧
        ∀ other, t.db.thread? other =
          if thread.threadId = other then some thread else s.db.thread? other))

def AllOrNothing (s : Store) (body : Except Bytes Json) (answer : Reply × Store) : Prop :=
  (answer.1.isError = true → Unchanged s answer.2) ∧
    (answer.1.isError = false → Captured s body answer.2)

/-- The first call throws, or none does: the metadata can be read and encoded, and so can a new
thread. -/
def Plan.Whole (p : Plan) (s : Store) (fault : Option Nat) : Prop :=
  fault = some 0 ∨ (p.isNew = true ∧ (s.db.thread? p.thread.threadId).isSome = true) ∨
    (p.encodes = true ∧ (p.isNew = true → p.thread.encodes = true) ∧
      Effects.Spares fault p.calls.length)

def Whole (s : Store) (drawn : Drawn) (body : Except Bytes Json) (fault : Option Nat) : Prop :=
  ∀ p, plan s drawn body = .ok p → p.Whole s fault

/-! What the checks let through -/

theorem given_of_givenString {body : Json} {key : String} {text : Option Bytes}
    (h : givenString body key = .ok text) : given body key = text.map Json.str := by
  unfold givenString at h
  unfold given
  split at h
  · rename_i hnone
    cases h
    rw [hnone]
    rfl
  · rename_i hnull
    cases h
    rw [hnull]
    rfl
  · rename_i j hnull hj
    cases hstring : j.getString with
    | error e =>
      rw [hstring] at h
      cases h
    | ok s =>
      rw [hstring] at h
      cases h
      rw [hj, str_of_getString hstring]
      rfl

/-- A request that has passed its checks. -/
structure Passed (s : Store) (body : Except Bytes Json) (p : Plan) : Prop where
  fields : ∃ (json : Json) (prompt response : Bytes), body = .ok json ∧
    json.field? (ascii "prompt") = some (.str prompt) ∧
    json.field? (ascii "response") = some (.str response) ∧
    p.user.role = ascii "user" ∧ p.user.content = prompt ∧
    p.assistant.role = ascii "assistant" ∧ p.assistant.content = response ∧
    ((p.isNew = false ∧ ∃ id, given json "thread_id" = some (.str id) ∧
        p.thread.threadId = cString id ∧ s.db.thread? p.thread.threadId = some p.thread) ∨
      (p.isNew = true ∧ given json "thread_id" = none ∧ p.thread.projectId ∈ s.db.projectIds))
  user : p.user.threadId = p.thread.threadId
  assistant : p.assistant.threadId = p.thread.threadId

theorem plan_passed {s : Store} {drawn : Drawn} {body : Except Bytes Json} {p : Plan}
    (h : plan s drawn body = .ok p) : Passed s body p := by
  unfold plan at h
  obtain ⟨json, hjson, h⟩ := of_bind_ok h
  split at h
  · rename_i projectField promptField responseField _ hprompt hresponse
    obtain ⟨projectId, _, h⟩ := of_bind_ok h
    obtain ⟨prompt, hpromptText, h⟩ := of_bind_ok h
    obtain ⟨response, hresponseText, h⟩ := of_bind_ok h
    obtain ⟨source, _, h⟩ := of_bind_ok h
    obtain ⟨provider, _, h⟩ := of_bind_ok h
    obtain ⟨model, _, h⟩ := of_bind_ok h
    obtain ⟨threadId, hthread, h⟩ := of_bind_ok h
    split at h
    · cases h
    · rename_i hproject
      obtain ⟨created, _, h⟩ := of_bind_ok h
      obtain ⟨⟨thread, isNew⟩, hchosen, h⟩ := of_bind_ok h
      cases h
      have hgiven := given_of_givenString (of_mapError_ok hthread)
      refine ⟨⟨json, prompt, response, of_mapError_ok hjson, ?_, ?_, rfl, rfl, rfl, rfl, ?_⟩,
        rfl, rfl⟩
      · rw [hprompt, str_of_getString (of_mapError_ok hpromptText)]
      · rw [hresponse, str_of_getString (of_mapError_ok hresponseText)]
      · cases threadId with
        | none =>
          cases hchosen
          exact .inr ⟨rfl, hgiven, not_not.mp hproject⟩
        | some id =>
          unfold captureThread at hchosen
          dsimp only at hchosen
          split at hchosen
          · cases hchosen
          · rename_i existing hexisting
            split at hchosen
            · cases hchosen
            · cases hchosen
              have hkey : thread.threadId = cString id := Rows.key_of_get Thread.threadId hexisting
              exact .inl ⟨rfl, id, hgiven, hkey, hkey ▸ hexisting⟩
  · cases h

/-! The calls of a request -/

def Store.append (s : Store) (messages : List AiMessage) : Store :=
  { s with messages := s.messages ++ messages }

/-- Both messages are appended. -/
theorem run_appends {p : Plan} (hencodes : p.encodes = true) {fault : Option Nat}
    (hspares : Effects.Spares fault 3) (s : Store) :
    Effects.run Call.act fault p.appends s = (true, s.append [p.user, p.assistant]) := by
  refine Effects.run_completes hspares ?_
  simp [Plan.appends, Call.act, hencodes, Store.append]

/-- The first append throws. -/
theorem run_appends_fault (p : Plan) (s : Store) :
    Effects.run Call.act (some 0) p.appends s = (false, s) := rfl

/-- Something throws after the first append: the prompt stays. -/
theorem run_appends_torn {p : Plan} {fault : Option Nat} (hfault : fault ≠ some 0)
    (hnot : ¬ (p.encodes = true ∧ Effects.Spares fault 3)) (s : Store) :
    Effects.run Call.act fault p.appends s = (false, s.append [p.user]) := by
  have huser : Call.act s (.append p.user) = some (s.append [p.user]) := rfl
  rw [Plan.appends, Effects.run_goes hfault huser]
  by_cases hone : fault.map Nat.pred = some 0
  · rw [hone, Effects.run_fault]
  · cases hencodes : p.encodes with
    | false => exact Effects.run_throws rfl
    | true =>
      have hencode : Call.act (s.append [p.user]) (.encode true) = some (s.append [p.user]) := rfl
      rw [Effects.run_goes hone hencode]
      obtain ⟨k, rfl, hk⟩ := Effects.exists_of_not_spares fun h => hnot ⟨hencodes, h⟩
      match k, hk with
      | 0, _ => exact absurd rfl hfault
      | 1, _ => exact absurd rfl hone
      | 2, _ => rfl

/-- The row of a new thread. -/
def Store.withRow (s : Store) (thread : Thread) : Store :=
  { s with db := { s.db with threads := Rows.put Thread.threadId thread s.db.threads } }

theorem thread?_withRow (s : Store) (thread : Thread) (other : Text) :
    (s.withRow thread).db.thread? other =
      if thread.threadId = other then some thread else s.db.thread? other :=
  Rows.get_put Thread.threadId other thread s.db.threads

theorem act_create {s : Store} {thread : Thread} (h : s.db.thread? thread.threadId = none) :
    Call.act s (.thread (.create thread)) = some (s.withRow thread) := by
  simp only [Call.act, Effect.act, h, Option.map_some]
  rfl

theorem act_create_exists {s : Store} {thread : Thread}
    (h : (s.db.thread? thread.threadId).isSome = true) :
    Call.act s (.thread (.create thread)) = none := by
  obtain ⟨row, hrow⟩ := Option.isSome_iff_exists.mp h
  simp [Call.act, Effect.act, hrow]

/-- The manifest is written, and the rows stay. -/
theorem act_persist {s t : Store} {thread : Thread}
    (h : Call.act s (.thread (.persist thread)) = some t) :
    t.db.threads = s.db.threads ∧ t.messages = s.messages ∧ thread.encodes = true := by
  obtain ⟨db, hdb, rfl⟩ := Option.map_eq_some_iff.mp h
  simp only [Effect.act, AiDurability.persistEncoded] at hdb
  split at hdb
  · rename_i hencodes
    simp only [AiDurability.State.persistAiThread] at hdb
    split at hdb
    · cases hdb
      exact ⟨rfl, rfl, hencodes⟩
    · cases hdb
  · cases hdb

theorem persist_goes {s : Store} {thread : Thread} (hencodes : thread.encodes = true)
    (hproject : thread.projectId ∈ s.db.projectIds) :
    ∃ t, Call.act s (.thread (.persist thread)) = some t := by
  simp only [Call.act, Effect.act, AiDurability.persistEncoded, AiDurability.State.persistAiThread,
    hencodes, if_true]
  rw [if_pos hproject]
  exact ⟨_, rfl⟩

/-- A store that differs from the first one by a row or by a message, for good. -/
theorem not_unchanged_row {s t : Store} {thread : Thread}
    (hnone : s.db.thread? thread.threadId = none)
    (hrow : t.db.threads = (s.withRow thread).db.threads) : ¬ Unchanged s t := by
  intro h
  have hget : t.db.thread? thread.threadId = some thread := by
    have hput := thread?_withRow s thread thread.threadId
    rw [if_pos rfl] at hput
    rw [AiDurability.State.thread?, hrow]
    exact hput
  rw [AiDurability.State.thread?, h.threads] at hget
  exact absurd (hnone.symm.trans hget) (by simp)

theorem not_unchanged_append (s : Store) (message : AiMessage) :
    ¬ Unchanged s (s.append [message]) := by
  intro h
  have hlength := congrArg List.length h.messages
  simp [Store.append] at hlength

/-- How the calls of a new thread end: at the first one, with everything, or with the row and not
with everything. -/
theorem run_new {s : Store} {p : Plan} (hnew : p.isNew = true)
    (hproject : p.thread.projectId ∈ s.db.projectIds) (fault : Option Nat) :
    ((fault = some 0 ∨ (s.db.thread? p.thread.threadId).isSome = true) ∧
        Effects.run Call.act fault p.calls s = (false, s)) ∨
      (s.db.thread? p.thread.threadId = none ∧ fault ≠ some 0 ∧
        (((p.encodes = true ∧ p.thread.encodes = true ∧ Effects.Spares fault p.calls.length) ∧
            ∃ t, Effects.run Call.act fault p.calls s = (true, t) ∧
              t.db.threads = (s.withRow p.thread).db.threads ∧
              t.messages = s.messages ++ [p.user, p.assistant]) ∨
          (¬ (p.encodes = true ∧ p.thread.encodes = true ∧ Effects.Spares fault p.calls.length) ∧
            ∃ t, Effects.run Call.act fault p.calls s = (false, t) ∧
              t.db.threads = (s.withRow p.thread).db.threads))) := by
  have hcalls : p.calls =
      .thread (.create p.thread) :: .thread (.persist p.thread) :: p.appends := by
    rw [Plan.calls, if_pos hnew]
    rfl
  have hlength : p.calls.length = 5 := by rw [hcalls]; rfl
  by_cases hzero : fault = some 0
  · refine .inl ⟨.inl hzero, ?_⟩
    rw [hzero, hcalls]
    rfl
  cases hrow : s.db.thread? p.thread.threadId with
  | some row =>
    refine .inl ⟨.inr (by simp), ?_⟩
    rw [hcalls, Effects.run_throws (act_create_exists (by simp [hrow]))]
  | none =>
    refine .inr ⟨rfl, hzero, ?_⟩
    rw [hlength, hcalls, Effects.run_goes hzero (act_create hrow)]
    by_cases hone : fault.map Nat.pred = some 0
    · refine .inr ⟨?_, _, by rw [hone]; rfl, rfl⟩
      rintro ⟨-, -, hspares⟩
      exact hspares.pred.ne_zero hone
    · cases hpersist : Call.act (s.withRow p.thread) (.thread (.persist p.thread)) with
      | none =>
        refine .inr ⟨?_, _, by rw [Effects.run_throws hpersist], rfl⟩
        rintro ⟨-, hencodes, -⟩
        obtain ⟨t, ht⟩ := persist_goes (s := s.withRow p.thread) hencodes hproject
        rw [hpersist] at ht
        cases ht
      | some t =>
        obtain ⟨hthreads, hmessages, hthread⟩ := act_persist hpersist
        rw [Effects.run_goes hone hpersist]
        by_cases hrest : p.encodes = true ∧
            Effects.Spares ((fault.map Nat.pred).map Nat.pred) 3
        · refine .inl ⟨⟨hrest.1, hthread, fun k hk => ?_⟩, _, run_appends hrest.1 hrest.2 t,
            hthreads, by rw [Store.append, hmessages]; rfl⟩
          have hle := hrest.2 k.pred.pred (by rw [hk]; rfl)
          have hk0 : k ≠ 0 := fun h => hzero (h ▸ hk)
          rw [Nat.pred_eq_sub_one, Nat.pred_eq_sub_one] at hle
          omega
        · refine .inr ⟨fun hall => hrest ⟨hall.1, hall.2.2.pred.pred⟩, ?_⟩
          by_cases htwo : (fault.map Nat.pred).map Nat.pred = some 0
          · exact ⟨t, by rw [htwo, run_appends_fault], hthreads⟩
          · exact ⟨_, run_appends_torn htwo hrest t, hthreads⟩

/-- The reply of a request that has passed its checks. -/
def Plan.answer (p : Plan) (drawn : Drawn) (done : Bool × Store) : Reply × Store :=
  (if done.1 then .created p.thread.threadId drawn.userUuid drawn.assistantUuid else .threw, done.2)

theorem allOrNothing_threw {s t : Store} {body : Except Bytes Json} (p : Plan) (drawn : Drawn) :
    AllOrNothing s body (p.answer drawn (false, t)) ↔ Unchanged s t :=
  ⟨fun h => h.1 rfl, fun h => ⟨fun _ => h, fun hno => (by cases hno)⟩⟩

theorem allOrNothing_created {s t : Store} {body : Except Bytes Json} (p : Plan) (drawn : Drawn) :
    AllOrNothing s body (p.answer drawn (true, t)) ↔ Captured s body t :=
  ⟨fun h => h.2 rfl, fun h => ⟨fun hno => (by cases hno), fun _ => h⟩⟩

theorem allOrNothing_existing {s : Store} {body : Except Bytes Json} {p : Plan}
    (h : Passed s body p) (hold : p.isNew = false) (drawn : Drawn) (fault : Option Nat) :
    AllOrNothing s body (p.answer drawn (Effects.run Call.act fault p.calls s)) ↔
      p.Whole s fault := by
  have hcalls : p.calls = p.appends := by
    rw [Plan.calls, hold]
    rfl
  have hwhole : p.Whole s fault ↔
      fault = some 0 ∨ (p.encodes = true ∧ Effects.Spares fault 3) := by
    rw [Plan.Whole, hold, hcalls]
    simp [Plan.appends]
  rw [hwhole, hcalls]
  by_cases hzero : fault = some 0
  · rw [hzero, run_appends_fault, allOrNothing_threw]
    exact ⟨fun _ => .inl rfl, fun _ => ⟨rfl, rfl⟩⟩
  · simp only [hzero, false_or]
    by_cases hrest : p.encodes = true ∧ Effects.Spares fault 3
    · rw [run_appends hrest.1 hrest.2, allOrNothing_created]
      refine ⟨fun _ => hrest, fun _ => ?_⟩
      obtain ⟨json, prompt, response, hjson, hprompt, hresponse, huser, hcontent, hassistant,
        hanswered, hthread⟩ := h.fields
      rcases hthread with ⟨-, id, hgiven, hkey, hrow⟩ | ⟨hnew, -⟩
      · exact ⟨json, p.thread, prompt, response, p.user, p.assistant, hjson, hprompt, hresponse,
          huser, hcontent, h.user, hassistant, hanswered, h.assistant, rfl,
          .inl ⟨id, hgiven, hkey, hrow, rfl⟩⟩
      · rw [hold] at hnew
        cases hnew
    · rw [run_appends_torn hzero hrest, allOrNothing_threw]
      exact ⟨fun hsame => absurd hsame (not_unchanged_append s p.user), fun hall => absurd hall hrest⟩

theorem allOrNothing_new {s : Store} {body : Except Bytes Json} {p : Plan}
    (h : Passed s body p) (hnew : p.isNew = true) (drawn : Drawn) (fault : Option Nat) :
    AllOrNothing s body (p.answer drawn (Effects.run Call.act fault p.calls s)) ↔
      p.Whole s fault := by
  obtain ⟨json, prompt, response, hjson, hprompt, hresponse, huser, hcontent, hassistant,
    hanswered, hthread⟩ := h.fields
  obtain ⟨hgiven, hproject⟩ : given json "thread_id" = none ∧
      p.thread.projectId ∈ s.db.projectIds := by
    rcases hthread with ⟨hold, -⟩ | ⟨-, hrest⟩
    · rw [hnew] at hold
      cases hold
    · exact hrest
  have hwhole : p.Whole s fault ↔
      (fault = some 0 ∨ (s.db.thread? p.thread.threadId).isSome = true) ∨
        (p.encodes = true ∧ p.thread.encodes = true ∧ Effects.Spares fault p.calls.length) := by
    rw [Plan.Whole, hnew]
    simp [or_assoc]
  rw [hwhole]
  rcases run_new hnew hproject fault with ⟨hfirst, hrun⟩ |
    ⟨hnone, hzero, ⟨hall, t, hrun, hthreads, hmessages⟩ | ⟨hnot, t, hrun, hthreads⟩⟩
  · rw [hrun, allOrNothing_threw]
    exact ⟨fun _ => .inl hfirst, fun _ => ⟨rfl, rfl⟩⟩
  · rw [hrun, allOrNothing_created]
    refine ⟨fun _ => .inr hall, fun _ => ?_⟩
    refine ⟨json, p.thread, prompt, response, p.user, p.assistant, hjson, hprompt, hresponse,
      huser, hcontent, h.user, hassistant, hanswered, h.assistant, hmessages,
      .inr ⟨hgiven, hnone, fun other => ?_⟩⟩
    rw [← thread?_withRow s p.thread other, AiDurability.State.thread?, hthreads]
    rfl
  · rw [hrun, allOrNothing_threw]
    refine ⟨fun hsame => absurd hsame (not_unchanged_row hnone hthreads), fun hor => ?_⟩
    rcases hor with (hf | hf) | hall
    · exact absurd hf hzero
    · rw [hnone] at hf
      cases hf
    · exact absurd hall hnot

def emptyStore : Store := ⟨AiDurability.emptyProject, []⟩

def drawn : Drawn where
  threadUuid := ascii "t1"
  userUuid := ascii "m1"
  assistantUuid := ascii "m2"
  now := 7

def captureBody (prompt : Bytes) (url : Json) : Json :=
  .obj [(ascii "project_id", .str (ascii "p1")), (ascii "prompt", .str prompt),
    (ascii "response", .str (ascii "a")), (ascii "url", url)]

end Capture

end HolderDaemon
