import HolderDaemon.Assoc
import HolderDaemon.JournalHistory

/-!
Run events (`api/support/RunEventStore.cpp`, `api/routes/ai/runs/AiRunQueryRoutes.cpp`): one
journal a run, 128 runs at most, and a client that subscribes to one of them without a cursor.
-/

set_option autoImplicit false

open Bytes

namespace HolderDaemon

namespace RunEvents

def kMaxRetainedRuns : Nat := 128

/-- `calls` are the appends that the journal has had since it was made. -/
structure StoredRun where
  journal : EventJournal
  updatedAt : Int
  calls : List AppendCall

/-- `epochs` are those of the journals made so far; `history` has what was appended to each run
since its last `run_started`; `appended` counts the appends. -/
structure RunStore where
  runs : List (Bytes × StoredRun) := []
  epochs : List Bytes := []
  history : Bytes → List AppendCall := fun _ => []
  appended : Nat := 0

/-- The arguments of `append_run_event`, with the clock's reading, the epoch of a journal that it
makes, and the run that the loop over the map finds to be the oldest. -/
structure RunAppend where
  runId : Bytes
  name : Bytes
  data : List (Bytes × Json)
  finished : Bool
  now : Int
  epoch : Epoch
  oldest : Bytes := []

def runStarted : Bytes := ascii "run_started"

/-- `data["run_id"] = run_id`. -/
def RunAppend.call (a : RunAppend) : AppendCall where
  name := a.name
  data := (Json.object a.data).set (ascii "run_id") (.str a.runId)
  finished := a.finished

def runJournal (epoch : Epoch) : EventJournal :=
  { epoch, capacity := 512, byteLimit := 1024 * 1024, capacity_pos := by decide,
    byteLimit_pos := by decide }

/-- A run that no other is older than. -/
def isOldest (runs : List (Bytes × StoredRun)) (runId : Bytes) : Bool :=
  match runs.lookup runId with
  | none => false
  | some run => runs.all fun e => decide (run.updatedAt ≤ e.2.updatedAt)

namespace RunStore

/-- The map with room for the run. -/
def makeRoom (s : RunStore) (a : RunAppend) : Option (List (Bytes × StoredRun)) :=
  if (s.runs.lookup a.runId).isNone ∧ kMaxRetainedRuns ≤ s.runs.length then
    if isOldest s.runs a.oldest then some (Assoc.erase a.oldest s.runs) else none
  else some s.runs

/-- A journal of a new epoch takes the event; no epoch comes twice. -/
def appendNew (s : RunStore) (a : RunAppend) (runs : List (Bytes × StoredRun)) : Option RunStore :=
  if a.epoch.text ∈ s.epochs then none
  else
    some { s with
      runs := Assoc.set a.runId ⟨(runJournal a.epoch).call a.call, a.now, [a.call]⟩ runs
      epochs := a.epoch.text :: s.epochs }

/-- `append_run_event` on the stored runs. -/
def appendStored (s : RunStore) (a : RunAppend) : Option RunStore :=
  (s.makeRoom a).bind fun runs =>
    match runs.lookup a.runId with
    | none => s.appendNew a runs
    | some run =>
      if a.name = runStarted then s.appendNew a runs
      else
        some { s with
          runs := Assoc.set a.runId
            ⟨run.journal.call a.call, a.now, run.calls ++ [a.call]⟩ runs }

def append (s : RunStore) (a : RunAppend) : Option RunStore :=
  (s.appendStored a).map fun t =>
    { t with
      history := Function.update s.history a.runId
        (if a.name = runStarted then [a.call] else s.history a.runId ++ [a.call])
      appended := s.appended + 1 }

/-- `read_run_events`; the inner `none` is a read past the journal's end. -/
def read (s : RunStore) (runId after : Bytes) : Option (Option EventBatch) :=
  (s.runs.lookup runId).map fun run => run.journal.read after

end RunStore

/-! A subscription without a cursor -/

/-- `recovering` is the terminal event that the route has still to append; a stream that has
asked for a resync, or whose batch was the last one, polls no more. -/
structure Subscriber where
  runId : Bytes
  recovering : Option Bytes := none
  cursor : Bytes := []
  delivered : List StreamEvent := []
  resync : Bool := false
  ended : Bool := false

structure Subscribed where
  store : RunStore := {}
  subscriber : Option Subscriber := none

inductive RunStep where
  /-- By the run's producer. -/
  | append (a : RunAppend)
  | subscribe (runId status : Bytes)
  /-- The terminal event of a run whose journal was not stored, by this subscription or another. -/
  | recover (own : Bool) (a : RunAppend)
  | poll

/-- What the route appends for a run that is over and has no journal. -/
def terminalName (status : Bytes) : Option Bytes :=
  if status = ascii "completed" then some (ascii "done")
  else if status = ascii "failed" then some (ascii "failed")
  else none

/-- One poll of the stream's source. -/
def Subscriber.poll (u : Subscriber) : Option EventBatch → Subscriber
  | none => { u with resync := decide (u.cursor ≠ []) }
  | some batch =>
    if batch.resyncRequired || (decide (u.cursor = []) && batch.truncated) then
      { u with resync := true, cursor := batch.cursor }
    else
      { u with
        cursor := batch.cursor
        delivered := u.delivered ++ batch.events
        ended := batch.finished }

def Subscriber.polls (u : Subscriber) : Bool := u.recovering.isNone && !u.resync && !u.ended

def Subscribed.step (s : Subscribed) : RunStep → Option Subscribed
  | .append a => (s.store.append a).map fun store => { s with store }
  | .subscribe runId status =>
    match s.subscriber with
    | some _ => none
    | none =>
      let recovering := if (s.store.read runId []).isNone then terminalName status else none
      some { s with subscriber := some { runId, recovering } }
  | .recover own a =>
    if ¬ (a.finished ∧ (a.name = ascii "done" ∨ a.name = ascii "failed")) then none
    else if own then
      match s.subscriber with
      | none => none
      | some u =>
        if u.recovering ≠ some a.name ∨ u.runId ≠ a.runId then none
        else
          (s.store.append a).map fun store =>
            { store, subscriber := some { u with recovering := none } }
    else (s.store.append a).map fun store => { s with store }
  | .poll =>
    match s.subscriber with
    | none => none
    | some u =>
      if !u.polls then none
      else
        match s.store.read u.runId u.cursor with
        | none => some { s with subscriber := some (u.poll none) }
        | some none => none
        | some (some batch) => some { s with subscriber := some (u.poll (some batch)) }

/-! What the stored journals and a subscription hold -/

/-- The journal was made by its run's `run_started`. -/
def Started (calls : List AppendCall) : Prop := ∃ c rest, calls = c :: rest ∧ c.name = runStarted

/-- A stored journal is that of its calls, which are all of the run's since `run_started`, or
terminal events that subscriptions have appended. -/
structure Holds (s : RunStore) (runId : Bytes) (run : StoredRun) : Prop where
  represents : run.journal.Represents (historyOf run.journal.epoch run.calls) 0
  epoch : run.journal.epoch.text ∈ s.epochs
  nonempty : run.calls ≠ []
  counted : run.calls.length ≤ s.appended
  finished : run.journal.finished = run.calls.any AppendCall.finished
  complete : Started run.calls → s.history runId = run.calls
  recovered : ¬ Started run.calls → ∀ c ∈ run.calls, c.finished = true

/-- The cursor is the end of what the subscription has got, and what it has got is the beginning
of the journal of that epoch for as long as it is stored. -/
def Reads (s : RunStore) (u : Subscriber) : Prop :=
  u.resync = false → (u.cursor = [] ∧ u.delivered = []) ∨
    ∃ (epoch : Epoch) (seen : List AppendCall), epoch.text ∈ s.epochs ∧
      seen.length ≤ s.appended ∧ u.cursor = cursorText epoch seen.length ∧
      u.delivered = historyOf epoch seen ∧
      ∀ run, s.runs.lookup u.runId = some run → run.journal.epoch = epoch → seen <+: run.calls

structure Consistent (s : Subscribed) : Prop where
  stored : ∀ runId run, s.store.runs.lookup runId = some run → Holds s.store runId run
  fits : s.store.appended + 1 < 2 ^ 64
  reads : ∀ u, s.subscriber = some u → Reads s.store u

/-- The run's journal is stored, and was made by its `run_started`. -/
def Retained (s : RunStore) (runId : Bytes) : Prop :=
  ∃ run, s.runs.lookup runId = some run ∧ Started run.calls

/-- The data can be encoded, and the count of appends stays a 64-bit number. -/
def Fits (s : RunStore) (a : RunAppend) : Prop :=
  a.call.data.encodable = true ∧ s.appended + 2 < 2 ^ 64

/-- A producer appends to the journal that `run_started` made. -/
def Keeps (s : Subscribed) : RunStep → Prop
  | .append a => Fits s.store a ∧ (a.name = runStarted ∨ Retained s.store a.runId)
  | .recover _ a => Fits s.store a
  | _ => True

theorem historyOf_append (epoch : Epoch) (calls more : List AppendCall) :
    historyOf epoch (calls ++ more) =
      historyOf epoch calls ++ historyFrom epoch calls.length more := by
  rw [historyOf, historyFrom_append, Nat.zero_add, historyOf]

theorem finished_call {j : EventJournal} {c : AppendCall} (h : c.data.encodable = true) :
    (j.call c).finished = (j.finished || c.finished) := by
  obtain ⟨frame, -, happend⟩ := j.append_of_encodable c h
  unfold EventJournal.call
  rw [happend]

theorem represents_runJournal (epoch : Epoch) :
    (runJournal epoch).Represents (historyOf epoch []) 0 :=
  ⟨Window.longest_nil, rfl, rfl, rfl, by simp [runJournal, historyOf, historyFrom]⟩

/-- The journal of some calls takes one more. -/
theorem represents_concat {j : EventJournal} {calls : List AppendCall} {c : AppendCall}
    (h : j.Represents (historyOf j.epoch calls) 0) (hc : c.data.encodable = true)
    (hn : calls.length + 1 < 2 ^ 64) :
    (j.call c).Represents (historyOf (j.call c).epoch (calls ++ [c])) 0 := by
  have hlen : (historyOf j.epoch calls).length = calls.length := by simp [historyOf]
  have hcall := EventJournal.represents_call h c hc (by omega)
  have hseq := EventJournal.sequence_succ h.sequence (by omega)
  rw [(j.call_fixed c).1, historyOf_append]
  simpa [historyFrom, EventJournal.nextEvent, hseq, hlen] using hcall

theorem started_concat {calls : List AppendCall} (h : calls ≠ []) (c : AppendCall) :
    Started (calls ++ [c]) ↔ Started calls := by
  cases calls with
  | nil => exact absurd rfl h
  | cons d rest => simp [Started]

theorem lookup_makeRoom {s : RunStore} {a : RunAppend} {runs : List (Bytes × StoredRun)}
    (h : s.makeRoom a = some runs) {runId : Bytes} {run : StoredRun}
    (hrun : runs.lookup runId = some run) : s.runs.lookup runId = some run := by
  unfold RunStore.makeRoom at h
  split at h
  · split at h <;> cases h
    by_cases heq : a.oldest = runId
    · rw [heq, Assoc.lookup_erase_self] at hrun
      cases hrun
    · rwa [Assoc.lookup_erase_ne heq] at hrun
  · cases h
    exact hrun

/-- A stored run loses nothing to the room made for it. -/
theorem makeRoom_stored {s : RunStore} {a : RunAppend} {runs : List (Bytes × StoredRun)}
    {run : StoredRun} (h : s.makeRoom a = some runs) (hrun : s.runs.lookup a.runId = some run) :
    runs.lookup a.runId = some run := by
  unfold RunStore.makeRoom at h
  rw [if_neg (by simp [hrun])] at h
  cases h
  exact hrun

/-- What an append does to the stored runs: the run's own is the old one with the call added, or
a new one, and the others are as before or gone. -/
theorem append_cases {s t : RunStore} {a : RunAppend} (h : s.append a = some t) :
    t.appended = s.appended + 1 ∧
    t.history = Function.update s.history a.runId
      (if a.name = runStarted then [a.call] else s.history a.runId ++ [a.call]) ∧
    (∀ epoch ∈ s.epochs, epoch ∈ t.epochs) ∧
    (∀ runId run, runId ≠ a.runId → t.runs.lookup runId = some run →
      s.runs.lookup runId = some run) ∧
    ((a.epoch.text ∉ s.epochs ∧ a.epoch.text ∈ t.epochs ∧
        (a.name = runStarted ∨ s.runs.lookup a.runId = none) ∧
        t.runs.lookup a.runId = some ⟨(runJournal a.epoch).call a.call, a.now, [a.call]⟩) ∨
      a.name ≠ runStarted ∧ ∃ run, s.runs.lookup a.runId = some run ∧
        t.runs.lookup a.runId =
          some ⟨run.journal.call a.call, a.now, run.calls ++ [a.call]⟩) := by
  obtain ⟨m, hm, rfl⟩ := Option.map_eq_some_iff.mp h
  obtain ⟨runs, hroom, hm⟩ := Option.bind_eq_some_iff.mp hm
  have hnew : ∀ {m}, s.appendNew a runs = some m → a.epoch.text ∉ s.epochs ∧
      m = { s with
        runs := Assoc.set a.runId ⟨(runJournal a.epoch).call a.call, a.now, [a.call]⟩ runs
        epochs := a.epoch.text :: s.epochs } := by
    intro m hm
    unfold RunStore.appendNew at hm
    split at hm <;> cases hm
    rename_i hfresh
    exact ⟨hfresh, rfl⟩
  have hothers : ∀ run' : StoredRun, ∀ runId run, runId ≠ a.runId →
      (Assoc.set a.runId run' runs).lookup runId = some run → s.runs.lookup runId = some run := by
    intro run' runId run hne hrun
    rw [Assoc.lookup_set_ne (Ne.symm hne)] at hrun
    exact lookup_makeRoom hroom hrun
  split at hm
  · rename_i hnone
    obtain ⟨hfresh, rfl⟩ := hnew hm
    have hmissing : s.runs.lookup a.runId = none := by
      cases hs : s.runs.lookup a.runId with
      | none => rfl
      | some run =>
        rw [makeRoom_stored hroom hs] at hnone
        cases hnone
    exact ⟨rfl, rfl, fun e he => List.mem_cons_of_mem _ he, hothers _,
      .inl ⟨hfresh, List.mem_cons_self, .inr hmissing, Assoc.lookup_set_self ..⟩⟩
  · rename_i run hrun
    split at hm
    · rename_i hstarted
      obtain ⟨hfresh, rfl⟩ := hnew hm
      exact ⟨rfl, rfl, fun e he => List.mem_cons_of_mem _ he, hothers _,
        .inl ⟨hfresh, List.mem_cons_self, .inl hstarted, Assoc.lookup_set_self ..⟩⟩
    · rename_i hname
      cases hm
      exact ⟨rfl, rfl, fun e he => he, hothers _,
        .inr ⟨hname, run, lookup_makeRoom hroom hrun, Assoc.lookup_set_self ..⟩⟩

/-- An append to other runs. -/
theorem Holds.mono {s t : RunStore} {runId : Bytes} {run : StoredRun} (h : Holds s runId run)
    (hepochs : ∀ epoch ∈ s.epochs, epoch ∈ t.epochs) (happended : s.appended ≤ t.appended)
    (hhistory : t.history runId = s.history runId) : Holds t runId run :=
  { h with
    epoch := hepochs _ h.epoch
    counted := le_trans h.counted happended
    complete := fun hs => hhistory.trans (h.complete hs) }

theorem holds_append {s t : RunStore} {a : RunAppend}
    (hstored : ∀ runId run, s.runs.lookup runId = some run → Holds s runId run)
    (hfits : Fits s a)
    (hname : a.name = runStarted ∨ Retained s a.runId ∨ a.finished = true)
    (h : s.append a = some t) :
    ∀ runId run, t.runs.lookup runId = some run → Holds t runId run := by
  obtain ⟨happended, hhistory, hepochs, hothers, hown⟩ := append_cases h
  intro runId run hrun
  by_cases heq : runId = a.runId
  · subst heq
    have hhist : t.history a.runId =
        if a.name = runStarted then [a.call] else s.history a.runId ++ [a.call] := by
      rw [hhistory, Function.update_self]
    rcases hown with ⟨-, hepoch, hwhy, hnew⟩ | ⟨hne, old, hold, hnew⟩
    · rw [hnew] at hrun
      cases hrun
      have hepoch' : ((runJournal a.epoch).call a.call).epoch = a.epoch :=
        ((runJournal a.epoch).call_fixed a.call).1
      refine ⟨?_, ?_, by simp, by simp [happended], ?_, fun hstarted => ?_, fun hnot c hc => ?_⟩
      · exact represents_concat (represents_runJournal a.epoch) hfits.1 (by decide)
      · rw [hepoch']
        exact hepoch
      · rw [finished_call hfits.1]
        simp [runJournal]
      · obtain ⟨c, rest, hcalls, hc⟩ := hstarted
        cases hcalls
        have hn : a.name = runStarted := hc
        rw [hhist, if_pos hn]
      · rw [List.mem_singleton.mp hc]
        have hother : a.name ≠ runStarted := fun hn => hnot ⟨a.call, [], rfl, hn⟩
        have hmissing := hwhy.resolve_left hother
        rcases hname with hn | ⟨old, hold, -⟩ | hfin
        · exact absurd hn hother
        · rw [hold] at hmissing
          cases hmissing
        · exact hfin
    · have hh := hstored a.runId old hold
      rw [hnew] at hrun
      cases hrun
      refine ⟨?_, ?_, by simp, ?_, ?_, fun hstarted => ?_, fun hnot c hc => ?_⟩
      · exact represents_concat hh.represents hfits.1 (by
          have hcount := hh.counted
          have hlt := hfits.2
          omega)
      · rw [(old.journal.call_fixed a.call).1]
        exact hepochs _ hh.epoch
      · have hcount := hh.counted
        simp only [List.length_append, List.length_singleton, happended]
        omega
      · rw [finished_call hfits.1, hh.finished]
        simp [RunAppend.call]
      · rw [hhist, if_neg hne, hh.complete ((started_concat hh.nonempty _).mp hstarted)]
      · have hnot' : ¬ Started old.calls := fun hs => hnot ((started_concat hh.nonempty _).mpr hs)
        rcases List.mem_append.mp hc with hmem | hmem
        · exact hh.recovered hnot' c hmem
        · rw [List.mem_singleton.mp hmem]
          rcases hname with hn | ⟨other, hother, hs⟩ | hfin
          · exact absurd hn hne
          · rw [hold] at hother
            cases hother
            exact absurd hs hnot'
          · exact hfin
  · refine (hstored runId run (hothers runId run heq hrun)).mono hepochs (by omega) ?_
    rw [hhistory, Function.update_of_ne heq]

theorem reads_append {s t : RunStore} {a : RunAppend} {u : Subscriber} (hu : Reads s u)
    (h : s.append a = some t) : Reads t u := by
  obtain ⟨happended, -, hepochs, hothers, hown⟩ := append_cases h
  intro hresync
  rcases hu hresync with hfresh | ⟨epoch, seen, hepoch, hcount, hcursor, hdelivered, hfront⟩
  · exact .inl hfresh
  · refine .inr ⟨epoch, seen, hepochs _ hepoch, by omega, hcursor, hdelivered,
      fun run hrun he => ?_⟩
    by_cases heq : u.runId = a.runId
    · rw [heq] at hrun hfront
      rcases hown with ⟨hfresh, -, -, hnew⟩ | ⟨-, old, hold, hnew⟩
      · rw [hnew] at hrun
        cases hrun
        rw [((runJournal a.epoch).call_fixed a.call).1] at he
        rw [← he] at hepoch
        exact absurd hepoch hfresh
      · rw [hnew] at hrun
        cases hrun
        rw [(old.journal.call_fixed a.call).1] at he
        exact (hfront old hold he).trans (List.prefix_append _ _)
    · exact hfront run (hothers _ run heq hrun) he

/-- One poll of a stored run: a resync, or everything that its journal has had. -/
theorem poll_stored {s : RunStore} {u : Subscriber} {run : StoredRun} (hh : Holds s u.runId run)
    (hfits : s.appended + 1 < 2 ^ 64) (hu : Reads s u) (hresync : u.resync = false)
    (hrun : s.runs.lookup u.runId = some run) :
    ∃ batch, run.journal.read u.cursor = some batch ∧
      ((u.poll (some batch)).resync = true ∨
        (u.poll (some batch)).resync = false ∧
        (u.poll (some batch)).delivered = historyOf run.journal.epoch run.calls ∧
        (u.poll (some batch)).cursor = cursorText run.journal.epoch run.calls.length ∧
        (u.poll (some batch)).ended = run.calls.any AppendCall.finished) := by
  have hrep := hh.represents
  have hlen : (historyOf run.journal.epoch run.calls).length = run.calls.length := by
    simp [historyOf]
  have hseq : run.journal.sequence.toNat = run.calls.length := by
    rw [hrep.sequence, hlen]
    rfl
  have hcursor : run.journal.cursor = cursorText run.journal.epoch run.calls.length := by
    rw [EventJournal.cursor, hseq]
  have hev := hrep.evicted
  rcases hu hresync with ⟨hnil, hdelivered⟩ | ⟨epoch, seen, -, hcount, hat, hdelivered, hfront⟩
  · have hread := EventJournal.read_startsAfter hrep (.inl ⟨hnil, rfl⟩)
    rw [if_pos (by omega)] at hread
    refine ⟨_, hread, ?_⟩
    by_cases htruncated : run.journal.oldestSequence > 1
    · left
      simp [Subscriber.poll, hnil, htruncated]
    · right
      have hzero : (run.journal.oldestSequence - 1).toNat = 0 := by
        have hcount := hh.counted
        have hle : run.journal.oldestSequence.toNat ≤ 1 := by
          rw [gt_iff_lt, UInt64.lt_iff_toNat_lt] at htruncated
          exact Nat.not_lt.mp htruncated
        rw [UInt64.toNat_sub] at hev ⊢
        have hone : (1 : UInt64).toNat = 1 := rfl
        omega
      simp [Subscriber.poll, hnil, htruncated, hresync, hdelivered, hzero, hcursor, hh.finished]
  · have hwf : WellFormedCursor epoch u.cursor seen.length := by
      rw [hat]
      exact wellFormed_cursorText epoch (by omega)
    have hne := hwf.ne_nil
    by_cases hs : ∃ n, run.journal.StartsAfter u.cursor n
    · obtain ⟨n, hn⟩ := hs
      have hboth : WellFormedCursor run.journal.epoch u.cursor n := by
        rcases hn with ⟨hnil, -⟩ | ⟨hw, -⟩
        · exact absurd hnil hne
        · exact hw
      obtain ⟨rfl, rfl⟩ := hwf.unique hboth
      obtain ⟨more, hmore⟩ := hfront run hrun rfl
      have hread := EventJournal.read_startsAfter hrep hn
      have hle : seen.length ≤ run.calls.length := by
        rw [← hmore]
        simp
      rw [if_pos (by omega)] at hread
      refine ⟨_, hread, .inr ⟨?_, ?_, ?_, ?_⟩⟩
      · simp [Subscriber.poll, hne, hresync]
      · have hdrop : (historyOf run.journal.epoch run.calls).drop seen.length =
            historyFrom run.journal.epoch seen.length more := by
          rw [← hmore, historyOf_append, List.drop_left']
          simp [historyOf]
        simp [Subscriber.poll, hne, hdelivered, hdrop, ← historyOf_append, hmore]
      · simp [Subscriber.poll, hne, hcursor]
      · simp [Subscriber.poll, hne, hh.finished]
    · refine ⟨_, EventJournal.read_resync hs, .inl ?_⟩
      simp [Subscriber.poll]

/-- A poll goes through, and what the subscription has then: a resync is asked for; or nothing
was stored and nothing came; or all of the run's events since `run_started`, the stream ending
where one of them is terminal; or terminal events alone, of a run without a stored journal. -/
def Answered (s : RunStore) (u : Subscriber) : Prop :=
  u.resync = true ∨ (u.delivered = [] ∧ s.runs.lookup u.runId = none) ∨
    ∃ epoch calls, u.delivered = historyOf epoch calls ∧
      u.ended = calls.any AppendCall.finished ∧
      (Started calls ∧ calls = s.history u.runId ∨
        ¬ Started calls ∧ ∀ c ∈ calls, c.finished = true)

theorem Consistent.poll {s : Subscribed} (h : Consistent s) {u : Subscriber}
    (hu : s.subscriber = some u) (hpolls : u.polls = true) :
    ∃ v, s.step .poll = some { s with subscriber := some v } ∧ v.runId = u.runId ∧
      Answered s.store v ∧ Reads s.store v := by
  have hresync : u.resync = false := by
    simp only [Subscriber.polls, Bool.and_eq_true, Bool.not_eq_true'] at hpolls
    exact hpolls.1.2
  simp only [Subscribed.step, hu, hpolls, RunStore.read]
  cases hrun : s.store.runs.lookup u.runId with
  | none =>
    refine ⟨_, rfl, rfl, ?_, ?_⟩
    · rcases h.reads u hu hresync with ⟨hnil, hdelivered⟩ | ⟨epoch, seen, -, hcount, hat, -⟩
      · exact .inr (.inl ⟨hdelivered, hrun⟩)
      · left
        have hfits := h.fits
        have hne := (wellFormed_cursorText epoch (n := seen.length) (by omega)).ne_nil
        rw [← hat] at hne
        simp [Subscriber.poll, hne]
    · intro hno
      have hnil : u.cursor = [] := by simpa [Subscriber.poll] using hno
      rcases h.reads u hu hresync with hfresh | ⟨epoch, seen, -, hcount, hat, -⟩
      · exact .inl hfresh
      · have hfits := h.fits
        have hne := (wellFormed_cursorText epoch (n := seen.length) (by omega)).ne_nil
        rw [← hat] at hne
        exact absurd hnil hne
  | some run =>
    have hh := h.stored u.runId run hrun
    obtain ⟨batch, hread, hanswer⟩ := poll_stored hh h.fits (h.reads u hu) hresync hrun
    have hid : (u.poll (some batch)).runId = u.runId := by
      unfold Subscriber.poll
      dsimp only
      split <;> rfl
    simp only [Option.map_some, hread]
    refine ⟨_, rfl, hid, ?_, ?_⟩
    · rcases hanswer with hyes | ⟨-, hdelivered, -, hended⟩
      · exact .inl hyes
      · refine .inr (.inr ⟨_, _, hdelivered, hended, ?_⟩)
        by_cases hs : Started run.calls
        · refine .inl ⟨hs, ?_⟩
          rw [hid]
          exact (hh.complete hs).symm
        · exact .inr ⟨hs, hh.recovered hs⟩
    · intro hno
      rcases hanswer with hyes | ⟨-, hdelivered, hat, -⟩
      · rw [hno] at hyes
        cases hyes
      · refine .inr ⟨_, run.calls, hh.epoch, hh.counted, hat, hdelivered, fun other hother _ => ?_⟩
        rw [hid, hrun] at hother
        cases hother
        exact List.prefix_refl _

theorem Consistent.append {s : Subscribed} (h : Consistent s) {a : RunAppend} {store : RunStore}
    (hfits : Fits s.store a)
    (hname : a.name = runStarted ∨ Retained s.store a.runId ∨ a.finished = true)
    (happend : s.store.append a = some store) : Consistent { s with store } where
  stored := holds_append h.stored hfits hname happend
  fits := by
    have hcount := (append_cases happend).1
    have hlt := hfits.2
    dsimp only
    omega
  reads := fun u hu => reads_append (h.reads u hu) happend

theorem Consistent.step {s s' : Subscribed} {l : RunStep} (h : Consistent s) (hok : Keeps s l)
    (hstep : s.step l = some s') : Consistent s' := by
  cases l with
  | append a =>
    obtain ⟨store, happend, rfl⟩ := Option.map_eq_some_iff.mp hstep
    exact h.append hok.1 (hok.2.imp_right .inl) happend
  | subscribe runId status =>
    simp only [Subscribed.step] at hstep
    split at hstep <;> cases hstep
    refine ⟨h.stored, h.fits, fun u hu => ?_⟩
    cases hu
    exact fun _ => .inl ⟨rfl, rfl⟩
  | recover own a =>
    simp only [Subscribed.step] at hstep
    split at hstep
    · cases hstep
    · rename_i hterminal
      rw [not_not] at hterminal
      split at hstep
      · split at hstep
        · cases hstep
        · rename_i u hu
          split at hstep
          · cases hstep
          · obtain ⟨store, happend, rfl⟩ := Option.map_eq_some_iff.mp hstep
            have hnext := h.append hok (.inr (.inr hterminal.1)) happend
            refine ⟨hnext.stored, hnext.fits, fun v hv => ?_⟩
            cases hv
            exact hnext.reads u hu
      · obtain ⟨store, happend, rfl⟩ := Option.map_eq_some_iff.mp hstep
        exact h.append hok (.inr (.inr hterminal.1)) happend
  | poll =>
    cases hu : s.subscriber with
    | none => simp [Subscribed.step, hu] at hstep
    | some u =>
      cases hpolls : u.polls with
      | false => simp [Subscribed.step, hu, hpolls] at hstep
      | true =>
        obtain ⟨v, hv, -, -, hreads⟩ := h.poll hu hpolls
        rw [hv] at hstep
        cases hstep
        refine ⟨h.stored, h.fits, fun w hw => ?_⟩
        cases hw
        exact hreads

theorem Consistent.start : Consistent {} where
  stored := fun _ _ h => by cases h
  fits := by decide
  reads := fun _ h => by cases h

/-- Epochs told apart by their first digits. -/
def epochOf (n : Nat) : Epoch :=
  let text := (decimal n).reverse ++
    (ascii "00000000-0000-0000-0000-000000000000").drop (decimal n).length
  if h : text.length = 36 ∧ epochText text = true then ⟨text, h.1, h.2⟩ else nilEpoch

def runId (n : Nat) : Bytes := (decimal n).reverse

/-- The first run starts a second before the others, and is evicted by the last of them. -/
def startRun (n : Nat) : RunStep :=
  .append ⟨runId n, runStarted, [], false, if n = 0 then 4 else 5, epochOf n, runId 0⟩

def chunk (n : Nat) : RunStep :=
  .append ⟨runId n, ascii "chunk", [(ascii "text", .str (ascii "a"))], false, 6, epochOf 200,
    runId 1⟩

instance (s : RunStore) (runId : Bytes) : Decidable (Retained s runId) :=
  match h : s.runs.lookup runId with
  | none => isFalse fun ⟨run, hrun, _⟩ => by rw [h] at hrun; cases hrun
  | some run =>
    match hc : run.calls with
    | [] => isFalse fun ⟨other, hother, c, rest, hcalls, _⟩ => by
      rw [h] at hother
      cases hother
      rw [hc] at hcalls
      cases hcalls
    | c :: rest =>
      decidable_of_iff (c.name = runStarted)
        ⟨fun hn => ⟨run, h, c, rest, hc, hn⟩, fun ⟨other, hother, d, more, hcalls, hn⟩ => by
          rw [h] at hother
          cases hother
          rw [hc] at hcalls
          cases hcalls
          exact hn⟩

instance (s : Subscribed) : (l : RunStep) → Decidable (Keeps s l)
  | .append a => inferInstanceAs (Decidable ((a.call.data.encodable = true ∧
      s.store.appended + 2 < 2 ^ 64) ∧ (a.name = runStarted ∨ Retained s.store a.runId)))
  | .recover _ a => inferInstanceAs (Decidable (a.call.data.encodable = true ∧
      s.store.appended + 2 < 2 ^ 64))
  | .subscribe _ _ | .poll => isTrue trivial

end RunEvents

end HolderDaemon
