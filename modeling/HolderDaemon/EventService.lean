import HolderDaemon.ChangeFeedRuns

/-!
The event service (`api/support/EventService.cpp`): the journal of changes that the observer
fills, and the source function of one subscription to it.
-/

set_option autoImplicit false

open Bytes

namespace HolderDaemon

namespace EventService

def unreserved (b : UInt8) : Bool :=
  (97 ≤ b.toNat && b.toNat ≤ 122) || (65 ≤ b.toNat && b.toNat ≤ 90) || isDigit b ||
    b == 45 || b == 95 || b == 46

def hexUpper (n : Nat) : UInt8 := UInt8.ofNat (if n < 10 then 48 + n else 55 + n)

def historyUrl (project : Bytes) : Bytes :=
  let encoded := project.flatMap fun b =>
    if unreserved b then [b] else [37, hexUpper (b.toNat / 16), hexUpper (b.toNat % 16)]
  ascii "/projects/" ++ encoded ++ ascii "/history"

def checkpoint (cursor : Bytes) (revisions : ChangeFeed.Revisions) (project : Bytes) : Json :=
  let selected :=
    if project = [] then revisions else [(project, (revisions.lookup project).getD none)]
  Json.object [
    (ascii "cursor", .str cursor),
    (ascii "git_revisions",
      Json.object (selected.map fun r => (r.1, ChangeFeed.optionalText r.2))),
    (ascii "history_urls", Json.object (selected.map fun r => (r.1, .str (historyUrl r.1))))]

structure Service where
  changes : EventJournal
  revisions : ChangeFeed.Revisions := []
  available : Bool := true
  stopped : Bool := false

/-- A change that the feed appends. Its texts come from rows that the feed has encoded. -/
structure Change where
  current : ChangeFeed.Snapshot
  revisions : ChangeFeed.Revisions
  key : ChangeFeed.Key
  encodable : (ChangeFeed.changeCall current revisions key).data.encodable = true

def Change.call (c : Change) : AppendCall := ChangeFeed.changeCall c.current c.revisions c.key

def resyncName : Bytes := ascii "resync_required"

def resyncCall : AppendCall :=
  ⟨resyncName, .obj [(ascii "reason", .str (ascii "observer_unavailable"))], false⟩

/-- One round of the observer, which holds the mutex: the feed is built or polled to its
end, or throws after some of its appends. -/
inductive Observation where
  | succeeded (changes : List Change) (revisions : ChangeFeed.Revisions)
  | failed (changes : List Change)

/-- The calls that the round makes on the journal. -/
def Service.calls (s : Service) : Observation → List AppendCall
  | .succeeded changes _ => changes.map Change.call
  | .failed changes => changes.map Change.call ++ if s.available then [resyncCall] else []

def Service.observe (s : Service) (o : Observation) : Service :=
  let changes := s.changes.appendAll (s.calls o)
  match o with
  | .succeeded _ revisions => { s with changes, revisions, available := true }
  | .failed _ => { s with changes, available := false }

def Service.start (epoch : Epoch) : Service := { changes := changesJournal epoch }

/-- What the source function captures. An empty project is no filter. -/
structure Subscription where
  project : Bytes
  revision : Bytes
  cursor : Bytes
  first : Bool := true

/-- `dispatch` from the check of `Last-Event-ID` on; none is an error response. -/
def Service.subscribe (s : Service) (project revision lastEventId : Bytes) :
    Option Subscription :=
  if lastEventId ≠ [] ∧ ¬ EventJournal.validCursor lastEventId then none
  else if !s.available || s.stopped then none
  else some {
    project, revision
    cursor := if lastEventId = [] ∧ revision = [] then s.changes.cursor else lastEventId }

/-- `GET /events/cursor`. -/
def Service.cursorResponse (s : Service) (project : Bytes) : Option Json :=
  if !s.available || s.stopped then none
  else some (Json.object [(ascii "ok", .bool true),
    (ascii "data", checkpoint s.changes.cursor s.revisions project)])

def optionalRevision (revision : Bytes) : Json := if revision = [] then .null else .str revision

def resyncData (s : Service) (sub : Subscription) (cursor : Bytes) (reason : Json) : Json :=
  ((checkpoint cursor s.revisions sub.project).set (ascii "reason") reason).set
    (ascii "last_revision") (optionalRevision sub.revision)

/-- What `erase_if` keeps. -/
def passes (project : Bytes) (event : StreamEvent) : Bool :=
  project == [] || (event.data.value (ascii "project_id") .null).isText project ||
    event.name == resyncName

def restate (s : Service) (sub : Subscription) (cursor : Bytes) (event : StreamEvent) :
    StreamEvent :=
  if event.name = resyncName then
    { event with
      data := resyncData s sub cursor
        (event.data.value (ascii "reason") (.str (ascii "observer_unavailable"))) }
  else event

def readyEvent (s : Service) (sub : Subscription) (cursor : Bytes) : StreamEvent :=
  ⟨sub.cursor, ascii "ready", checkpoint cursor s.revisions sub.project⟩

/-- The source function; none is a read past the end of the journal. -/
def Service.source (s : Service) (sub : Subscription) : Option (EventBatch × Subscription) :=
  (s.changes.read sub.cursor).map fun batch =>
    if batch.resyncRequired || !s.available || (sub.revision ≠ [] && sub.cursor == []) then
      let reason := if s.available then "history_unavailable" else "observer_unavailable"
      let data := resyncData s sub batch.cursor (.str (ascii reason))
      ({ batch with
          events := [⟨batch.cursor, resyncName, data⟩]
          resyncRequired := false
          finished := true },
        sub)
    else
      let kept := batch.events.filter (passes sub.project)
      let ready := if sub.first then [readyEvent s sub batch.cursor] else []
      let events := (ready ++ kept).map (restate s sub batch.cursor)
      ({ batch with
          events
          finished := batch.finished || events.any fun e => e.name == resyncName },
        { sub with cursor := batch.cursor, first := false })

/-! Names -/

theorem change_name (c : Change) : c.call.name = c.key.1 ++ ascii ".changed" := rfl

theorem change_name_ne {c : Change} {name : Bytes} (h : ¬ ascii ".changed" <:+ name) :
    c.call.name ≠ name := by
  intro he
  exact h ⟨c.key.1, by rw [← he, change_name]⟩

theorem calls_name_ne_ready (s : Service) (o : Observation) :
    ∀ c ∈ s.calls o, c.name ≠ ascii "ready" ∧ c.data.encodable = true ∧ c.finished = false := by
  have hchange : ∀ changes : List Change, ∀ c ∈ changes.map Change.call,
      c.name ≠ ascii "ready" ∧ c.data.encodable = true ∧ c.finished = false := by
    intro changes c hc
    obtain ⟨d, _, rfl⟩ := List.mem_map.mp hc
    exact ⟨change_name_ne (by decide), d.encodable, rfl⟩
  intro c hc
  cases o with
  | succeeded changes revisions => exact hchange changes c hc
  | failed changes =>
    simp only [Service.calls] at hc
    rcases List.mem_append.mp hc with hc | hc
    · exact hchange changes c hc
    · split at hc
      · rw [List.mem_singleton.mp hc]
        exact ⟨by decide, by decide, rfl⟩
      · cases hc

end EventService

end HolderDaemon
