import HolderDaemon.DeviceConfig
import HolderDaemon.JournalHistory
import HolderDaemon.RunnerRegistry

/-!
The event stream of one pull (`api/routes/ai/runner/AiRunnerPullEventRoutes.cpp`): a source that
is polled, compares the job with what it last told, and tells the difference through a journal
of its own.
-/

set_option autoImplicit false

open Bytes

namespace HolderDaemon

namespace PullWatch

open Runners DeviceConfig

def statusText : PullStatus → Bytes
  | .queued => ascii "queued"
  | .downloading => ascii "downloading"
  | .verifying => ascii "verifying"
  | .completed => ascii "completed"
  | .failed => ascii "failed"

section Watch
variable (percent : PullJob → Bytes) (runnerId jobId : Bytes)

/-- `percent` prints the job's percentage. -/
def pullJobToJson (job : PullJob) : Json :=
  .object
    [(ascii "job_id", .str job.jobId), (ascii "runner_id", .str runnerId),
      (ascii "model", .str job.model),
      (ascii "model_ref", .str (makeRunnerModelRef runnerId job.model)),
      (ascii "status", .str (statusText job.status)), (ascii "updated_at", .int job.updatedAt),
      (ascii "error", if job.error = [] then .null else .str job.error),
      (ascii "progress", .object
        [(ascii "completed", .int job.completed), (ascii "total", .int job.total),
          (ascii "percent", .float (percent job)), (ascii "stage", .str job.stage)])]

def notFound : Json :=
  .object [(ascii "runner_id", .str runnerId), (ascii "job_id", .str jobId),
    (ascii "error", .str (ascii "Pull job not found."))]

/-- What the source keeps between polls. -/
structure Source where
  journal : EventJournal
  cursor : Bytes
  previous : Bytes := []

theorem room_for_events : 0 < 512 := by decide

theorem room_for_bytes : 0 < 1024 * 1024 := by decide

/-- The journal of one connection. -/
def newJournal (epoch : Epoch) : EventJournal :=
  { epoch, capacity := 512, byteLimit := 1024 * 1024, capacity_pos := room_for_events,
    byteLimit_pos := room_for_bytes }

def missing : AppendCall := ⟨ascii "failed", notFound runnerId jobId, true⟩

def progress (job : PullJob) : AppendCall :=
  ⟨ascii "progress", pullJobToJson percent runnerId job, false⟩

def closes (job : PullJob) : Bool := job.status = .completed || job.status = .failed

def closing (job : PullJob) : AppendCall :=
  ⟨statusText job.status, pullJobToJson percent runnerId job, true⟩

/-- What a changed job is told with. -/
def announce (job : PullJob) : List AppendCall :=
  progress percent runnerId job :: if closes job then [closing percent runnerId job] else []

namespace Source

/-- Appends in turn; none where one throws. -/
def append? (journal : EventJournal) : List AppendCall → Option EventJournal
  | [] => some journal
  | c :: calls =>
    match journal.append c.name c.data c.finished with
    | (.ok _, after) => append? after calls
    | (.error _, _) => none

/-- What the poll appends, and what it remembers. -/
def tell (s : Source) : Option PullJob → Option Source
  | none =>
    if s.previous = [] then
      (append? s.journal [missing runnerId jobId]).map fun j =>
        { s with journal := j, previous := ascii "missing" }
    else some s
  | some job =>
    match (pullJobToJson percent runnerId job).dump with
    | .error _ => none
    | .ok current =>
      if current ≠ s.previous then
        (append? s.journal (announce percent runnerId job)).map fun j =>
          { s with journal := j, previous := current }
      else some s

/-- One poll; none where the source throws, which ends the stream. -/
def poll (s : Source) (job : Option PullJob) : Option (EventBatch × Source) := do
  let s ← s.tell percent runnerId jobId job
  let batch ← s.journal.read s.cursor
  some (batch, { s with cursor := batch.cursor })

/-- The polls of a stream, which ends with a batch that is finished or asks for a resync. -/
def watch (s : Source) : List (Option PullJob) → Option (List EventBatch)
  | [] => some []
  | job :: jobs => do
    let (batch, s) ← s.poll percent runnerId jobId job
    if batch.finished || batch.resyncRequired then some [batch]
    else (batch :: ·) <$> watch s jobs

end Source

/-! What a client is to be told -/

/-- Up to and with the first that closes. -/
def throughFirst {α : Type} (p : α → Bool) : List α → List α
  | [] => []
  | a :: l => if p a then [a] else a :: throughFirst p l

/-- The two jobs look different. -/
def Differs (a b : PullJob) : Prop :=
  (pullJobToJson percent runnerId a).dump ≠ (pullJobToJson percent runnerId b).dump

instance : DecidableRel (Differs percent runnerId) := fun _ _ => by
  unfold Differs
  infer_instance

/-- Every change of the job that was seen, in order and once, and its end; or that there is no
such job. -/
def story (jobs : List (Option PullJob)) : List AppendCall :=
  match jobs with
  | none :: _ => [missing runnerId jobId]
  | _ =>
    (throughFirst closes (jobs.reduceOption.destutter (Differs percent runnerId))).flatMap
      (announce percent runnerId)

end Watch

/-! The journal of a connection -/

open EventJournal

theorem length_decimal_le {n k : Nat} (h : n < 10 ^ (k + 1)) : (decimal n).length ≤ k + 1 := by
  induction k generalizing n with
  | zero => rw [decimal_of_lt (by omega)]; simp
  | succ k ih =>
    rcases Nat.lt_or_ge n 10 with hlt | hge
    · rw [decimal_of_lt hlt]
      simp
    · have hdiv : n / 10 < 10 ^ (k + 1) := by
        rw [Nat.div_lt_iff_lt_mul (by omega)]
        rwa [← pow_succ]
      rw [decimal_of_ge hge, List.length_append, List.length_singleton]
      exact Nat.succ_le_succ (ih hdiv)

theorem call_finished (j : EventJournal) (c : AppendCall) (h : c.data.encodable = true) :
    (j.call c).finished = (j.finished || c.finished) := by
  obtain ⟨frame, _, happend⟩ := j.append_of_encodable c h
  rw [call, happend]

theorem appendAll_finished (j : EventJournal) {calls : List AppendCall}
    (h : ∀ c ∈ calls, c.data.encodable = true) :
    (j.appendAll calls).finished = (j.finished || calls.any AppendCall.finished) := by
  induction calls generalizing j with
  | nil => simp [appendAll]
  | cons c calls ih =>
    have hrest := ih (j.call c) fun d hd => h d (List.mem_cons_of_mem c hd)
    rw [call_finished j c (h c List.mem_cons_self), Bool.or_assoc] at hrest
    simpa [appendAll] using hrest

theorem append?_eq (j : EventJournal) {calls : List AppendCall}
    (h : ∀ c ∈ calls, c.data.encodable = true) :
    Source.append? j calls = some (j.appendAll calls) := by
  induction calls generalizing j with
  | nil => rfl
  | cons c calls ih =>
    obtain ⟨frame, _, happend⟩ := j.append_of_encodable c (h c List.mem_cons_self)
    have hcall : (j.append c.name c.data c.finished).2 = j.call c := rfl
    have hok : (j.append c.name c.data c.finished).1 = .ok (j.nextEvent c) := by rw [happend]
    rcases hpair : j.append c.name c.data c.finished with ⟨result, after⟩
    rw [hpair] at hcall hok
    dsimp only at hcall hok
    subst hcall hok
    rw [Source.append?, hpair]
    exact ih (j.call c) fun d hd => h d (List.mem_cons_of_mem c hd)

/-- The reader's cursor is at the end of the log. -/
def AtEnd (epoch : Epoch) (cursor : Bytes) (log : List StreamEvent) : Prop :=
  (cursor = [] ∧ log = []) ∨ WellFormedCursor epoch cursor log.length

/-- A reader at the end is given what is appended next, when that fits the journal. -/
theorem read_appended {j : EventJournal} {log : List StreamEvent} (h : Represents j log 0)
    {cursor : Bytes} (hcursor : AtEnd j.epoch cursor log) {calls : List AppendCall}
    (henc : ∀ c ∈ calls, c.data.encodable = true) (hn : log.length + calls.length < 2 ^ 64)
    (hfits : Window.Fits frameSize j.capacity j.byteLimit (historyFrom j.epoch log.length calls)) :
    ∃ truncated, (j.appendAll calls).read cursor =
      some
        { events := historyFrom j.epoch log.length calls
          cursor := (j.appendAll calls).cursor
          finished := j.finished || calls.any AppendCall.finished
          truncated := truncated } := by
  have hafter := represents_appendAll h calls henc hn
  obtain ⟨hepoch, hcapacity, hlimit⟩ := j.appendAll_fixed calls
  have hkept : (historyFrom j.epoch log.length calls).length ≤
      (j.appendAll calls).events.length := by
    refine (hafter.kept.longest _ (List.suffix_append _ _) ?_).length_le
    rwa [hcapacity, hlimit]
  have hevicted := hafter.evicted
  have hsequence := hafter.sequence
  simp only [List.length_append, historyFrom_length] at hevicted hsequence hkept
  have hstarts : (j.appendAll calls).StartsAfter cursor log.length := by
    rcases hcursor with ⟨rfl, rfl⟩ | hwell
    · refine .inl ⟨rfl, ?_⟩
      simp only [List.length_nil] at hevicted hkept ⊢
      omega
    · refine .inr ⟨hepoch ▸ hwell, by omega, by omega⟩
  rw [read_startsAfter hafter hstarts, if_pos (by simp), appendAll_finished j henc]
  exact ⟨_, by rw [List.drop_left]⟩

theorem atEnd_cursor {j : EventJournal} {log : List StreamEvent} (h : Represents j log 0)
    (hn : log.length < 2 ^ 64) : AtEnd j.epoch j.cursor log := by
  refine .inr ?_
  have hsequence : j.sequence.toNat = log.length := h.sequence
  rw [EventJournal.cursor, hsequence]
  exact wellFormed_cursorText j.epoch hn

/-! The polls of a stream -/

section Watch
variable {percent : PullJob → Bytes} {runnerId jobId : Bytes}

/-- A snapshot that can be written, and is not as long as half the journal. -/
def Told (percent : PullJob → Bytes) (runnerId : Bytes) (job : PullJob) : Prop :=
  ∃ current, (pullJobToJson percent runnerId job).dump = .ok current ∧ current.length ≤ 500000

/-- Whether a document is written, and how long it gets, can be computed. -/
theorem written_of {data : Json}
    (h : data.dump.toOption.any fun text => text.length ≤ 500000) :
    ∃ text, data.dump = .ok text ∧ text.length ≤ 500000 := by
  cases hdump : data.dump with
  | error e => simp [hdump, Except.toOption] at h
  | ok text => exact ⟨text, rfl, by simpa [hdump, Except.toOption] using h⟩

theorem Told.encodable {job : PullJob} (h : Told percent runnerId job) :
    (pullJobToJson percent runnerId job).encodable = true := by
  obtain ⟨current, hcurrent, _⟩ := h
  rw [← Json.dump_isOk, hcurrent]
  rfl

theorem announce_encodable {job : PullJob} (h : Told percent runnerId job) :
    ∀ c ∈ announce percent runnerId job, c.data.encodable = true := by
  intro c hc
  simp only [announce] at hc
  split at hc <;> simp only [List.mem_cons, List.not_mem_nil, or_false] at hc
  · rcases hc with rfl | rfl <;> exact h.encodable
  · subst hc
    exact h.encodable

theorem announce_length (job : PullJob) : (announce percent runnerId job).length ≤ 2 := by
  simp only [announce]
  split <;> simp

theorem announce_any (job : PullJob) :
    (announce percent runnerId job).any AppendCall.finished = closes job := by
  simp only [announce]
  split
  case isTrue h => simp [progress, closing, h]
  case isFalse h => simpa [progress] using h

/-- The frame of a short name and a number of the journal. -/
theorem frameSize_le {epoch : Epoch} {n : Nat} (hn : n < 2 ^ 64) {name : Bytes}
    (hname : name.length ≤ 20) {data : Json} {text : Bytes} (htext : data.dump = .ok text) :
    frameSize ⟨cursorText epoch n, name, data⟩ ≤ text.length + 100 := by
  have hdecimal : (decimal n).length ≤ 20 :=
    length_decimal_le (lt_of_lt_of_le hn (by norm_num))
  have hid : (cursorText epoch n).length ≤ 57 := by
    rw [cursorText, List.length_append, List.length_append, epoch.size]
    have hcolon : (ascii ":").length = 1 := rfl
    omega
  have hsize : frameSize ⟨cursorText epoch n, name, data⟩ =
      4 + (cursorText epoch n).length + 8 + name.length + 7 + text.length + 2 := by
    have hframe : encodeSse ⟨cursorText epoch n, name, data⟩ =
        .ok (ascii "id: " ++ cursorText epoch n ++ ascii "\nevent: " ++ name ++
          ascii "\ndata: " ++ text ++ ascii "\n\n") := by
      simp only [encodeSse, htext]
      rfl
    simp only [frameSize, hframe, List.length_append]
    rfl
  omega

theorem length_statusText (status : PullStatus) : (statusText status).length ≤ 20 := by
  cases status <;> decide

theorem announce_fits {epoch : Epoch} {n : Nat} (hn : n + 2 < 2 ^ 64) {job : PullJob}
    (h : Told percent runnerId job) :
    Window.Fits frameSize 512 (1024 * 1024)
      (historyFrom epoch n (announce percent runnerId job)) := by
  obtain ⟨current, hcurrent, hlength⟩ := h
  have hprogress : frameSize ⟨cursorText epoch (n + 1), ascii "progress",
      pullJobToJson percent runnerId job⟩ ≤ current.length + 100 :=
    frameSize_le (by omega) (by decide) hcurrent
  have hclosing : frameSize ⟨cursorText epoch (n + 1 + 1), statusText job.status,
      pullJobToJson percent runnerId job⟩ ≤ current.length + 100 :=
    frameSize_le (by omega) (length_statusText _) hcurrent
  simp only [announce]
  split
  · refine ⟨by simp, ?_⟩
    simp only [historyFrom, progress, closing, Window.total_cons, Window.total_nil]
    omega
  · refine ⟨by simp, ?_⟩
    simp only [historyFrom, progress, Window.total_cons, Window.total_nil]
    omega

/-- The source between two polls, having told the whole of its journal. -/
structure Source.Ready (s : Source) (epoch : Epoch) (log : List StreamEvent) : Prop where
  journal : s.journal.Represents log 0
  ofEpoch : s.journal.epoch = epoch
  capacity : s.journal.capacity = 512
  byteLimit : s.journal.byteLimit = 1024 * 1024
  atEnd : AtEnd epoch s.cursor log
  unfinished : s.journal.finished = false

/-- A poll that appends what fits tells exactly that. -/
theorem Source.Ready.poll {s t : Source} {epoch : Epoch} {log : List StreamEvent}
    (h : s.Ready epoch log) {job : Option PullJob} {calls : List AppendCall}
    (htell : s.tell percent runnerId jobId job = some t)
    (htold : t.journal = s.journal.appendAll calls ∧ t.cursor = s.cursor)
    (henc : ∀ c ∈ calls, c.data.encodable = true) (hn : log.length + calls.length < 2 ^ 64)
    (hfits : Window.Fits frameSize 512 (1024 * 1024) (historyFrom epoch log.length calls)) :
    ∃ batch t', s.poll percent runnerId jobId job = some (batch, t') ∧
      batch.events = historyFrom epoch log.length calls ∧
      batch.finished = calls.any AppendCall.finished ∧ batch.resyncRequired = false ∧
      t'.previous = t.previous ∧
      (calls.any AppendCall.finished = false →
        t'.Ready epoch (log ++ historyFrom epoch log.length calls)) := by
  obtain ⟨hjournal, hcursor⟩ := htold
  have hepoch := h.ofEpoch
  have hread := read_appended h.journal (hepoch.symm ▸ h.atEnd) henc hn
    (by rw [h.capacity, h.byteLimit, hepoch]; exact hfits)
  obtain ⟨truncated, hread⟩ := hread
  rw [hepoch, h.unfinished, Bool.false_or] at hread
  have hafter := represents_appendAll h.journal calls henc hn
  rw [hepoch] at hafter
  obtain ⟨hepoch', hcapacity', hlimit'⟩ := s.journal.appendAll_fixed calls
  refine ⟨EventBatch.mk (historyFrom epoch log.length calls) (s.journal.appendAll calls).cursor
      false (calls.any AppendCall.finished) truncated,
    { t with cursor := (s.journal.appendAll calls).cursor }, ?_, rfl, rfl, rfl, ?_, ?_⟩
  · simp only [Source.poll, htell, Option.bind_eq_bind, Option.bind_some, hjournal, hcursor, hread]
  · rfl
  · intro hopen
    refine ⟨?_, ?_, ?_, ?_, ?_, ?_⟩
    · exact hjournal ▸ hafter
    · exact (hjournal ▸ hepoch').trans hepoch
    · exact (hjournal ▸ hcapacity').trans h.capacity
    · exact (hjournal ▸ hlimit').trans h.byteLimit
    · have hend := atEnd_cursor hafter (by simpa using hn)
      rw [hepoch', hepoch] at hend
      exact hend
    · change t.journal.finished = false
      rw [hjournal, appendAll_finished _ henc, h.unfinished, hopen]
      rfl

theorem dump_obj_ne_nil {fields : List (Bytes × Json)} {text : Bytes}
    (h : (Json.obj fields).dump = .ok text) : text ≠ [] := by
  rw [Json.dump] at h
  obtain ⟨parts, _, htext⟩ := Json.of_bind_ok h
  rw [← Except.ok.inj htext]
  simp [show ascii "\x7b" = [123] from rfl]

theorem tail_destutter' {α : Type} (R : α → α → Prop) [DecidableRel R] (a : α) (l : List α) :
    ∃ rest, l.destutter' R a = a :: rest := by
  induction l generalizing a with
  | nil => exact ⟨[], rfl⟩
  | cons b l ih =>
    by_cases hab : R a b
    · exact ⟨_, List.destutter'_cons_pos _ hab⟩
    · rw [List.destutter'_cons_neg _ hab]
      exact ih a

variable (percent runnerId jobId) in
/-- Polling finds the jobs, and the stream is given these events, the first numbered `n + 1`. -/
def Tells (s : Source) (jobs : List (Option PullJob)) (epoch : Epoch) (n : Nat)
    (calls : List AppendCall) : Prop :=
  ∃ batches, s.watch percent runnerId jobId jobs = some batches ∧
    batches.flatMap EventBatch.events = historyFrom epoch n calls ∧
    batches.any EventBatch.finished = calls.any AppendCall.finished ∧
    ∀ batch ∈ batches, batch.resyncRequired = false

theorem Tells.open {s t : Source} {job : Option PullJob} {jobs : List (Option PullJob)}
    {epoch : Epoch} {n : Nat} {batch : EventBatch} {now calls : List AppendCall}
    (hpoll : s.poll percent runnerId jobId job = some (batch, t))
    (hevents : batch.events = historyFrom epoch n now) (hfinished : batch.finished = false)
    (hnow : now.any AppendCall.finished = false) (hresync : batch.resyncRequired = false)
    (h : Tells percent runnerId jobId t jobs epoch (n + now.length) calls) :
    Tells percent runnerId jobId s (job :: jobs) epoch n (now ++ calls) := by
  obtain ⟨batches, hwatch, hall, hany, hno⟩ := h
  refine ⟨batch :: batches, ?_, ?_, ?_, ?_⟩
  · simp [Source.watch, hpoll, hfinished, hresync, hwatch]
  · rw [List.flatMap_cons, hevents, hall, historyFrom_append]
  · rw [List.any_cons, hfinished, hany, List.any_append, hnow]
  · rintro b hb
    rcases List.mem_cons.mp hb with rfl | hb
    · exact hresync
    · exact hno b hb

theorem Tells.closed {s t : Source} {job : Option PullJob} {jobs : List (Option PullJob)}
    {epoch : Epoch} {n : Nat} {batch : EventBatch} {now : List AppendCall}
    (hpoll : s.poll percent runnerId jobId job = some (batch, t))
    (hevents : batch.events = historyFrom epoch n now) (hfinished : batch.finished = true)
    (hnow : now.any AppendCall.finished = true) (hresync : batch.resyncRequired = false) :
    Tells percent runnerId jobId s (job :: jobs) epoch n now := by
  refine ⟨[batch], ?_, ?_, ?_, ?_⟩
  · simp [Source.watch, hpoll, hfinished]
  · simpa using hevents
  · rw [List.any_cons, hfinished, hnow]
    rfl
  · rintro b hb
    rw [List.mem_singleton.mp hb]
    exact hresync

/-- A poll that finds a job that looks new. -/
theorem tells_new {jobs : List (Option PullJob)} {epoch : Epoch} {log : List StreamEvent}
    {s : Source} (h : s.Ready epoch log) (hn : log.length + 2 < 2 ^ 64) {b : PullJob}
    {current : Bytes} (hb : Told percent runnerId b)
    (hcurrent : (pullJobToJson percent runnerId b).dump = .ok current)
    (hnew : current ≠ s.previous)
    (next : ∀ (t : Source) (log' : List StreamEvent), log'.length ≤ log.length + 2 →
      t.Ready epoch log' → t.previous = current →
        Tells percent runnerId jobId t jobs epoch log'.length
          ((throughFirst closes
            (jobs.reduceOption.destutter' (Differs percent runnerId) b).tail).flatMap
              (announce percent runnerId))) :
    Tells percent runnerId jobId s (some b :: jobs) epoch log.length
      ((throughFirst closes (jobs.reduceOption.destutter' (Differs percent runnerId) b)).flatMap
        (announce percent runnerId)) := by
  have henc := announce_encodable hb
  have hcount := @announce_length percent runnerId b
  have htell : s.tell percent runnerId jobId (some b) =
      some ⟨s.journal.appendAll (announce percent runnerId b), s.cursor, current⟩ := by
    simp [Source.tell, hcurrent, hnew, append?_eq _ henc]
  obtain ⟨batch, t, hpoll, hevents, hfinished, hresync, hprev, hready⟩ :=
    h.poll htell ⟨rfl, rfl⟩ henc (by omega) (announce_fits (by omega) hb)
  obtain ⟨rest, htail⟩ := tail_destutter' (Differs percent runnerId) b jobs.reduceOption
  have hany := @announce_any percent runnerId b
  rw [htail, throughFirst]
  cases hcloses : closes b with
  | true =>
    rw [hcloses] at hany
    rw [if_pos rfl, List.flatMap_singleton]
    exact .closed hpoll hevents (hfinished.trans hany) hany hresync
  | false =>
    rw [hcloses] at hany
    rw [if_neg Bool.false_ne_true, List.flatMap_cons]
    have hlog : (log ++ historyFrom epoch log.length (announce percent runnerId b)).length =
        log.length + (announce percent runnerId b).length := by simp
    have hnext := next t _ (by omega) (hready hany) hprev
    rw [hlog, htail, List.tail_cons] at hnext
    exact .open hpoll hevents (hfinished.trans hany) hany hresync hnext

/-- The polls after one that told the job `a`. -/
theorem tells_changes {jobs : List (Option PullJob)}
    (hjobs : ∀ job, some job ∈ jobs → Told percent runnerId job) {epoch : Epoch}
    {log : List StreamEvent} (hn : log.length + 2 * jobs.length < 2 ^ 64) {s : Source}
    (h : s.Ready epoch log) {a : PullJob}
    (hprevious : (pullJobToJson percent runnerId a).dump = .ok s.previous) :
    Tells percent runnerId jobId s jobs epoch log.length
      ((throughFirst closes
        (jobs.reduceOption.destutter' (Differs percent runnerId) a).tail).flatMap
          (announce percent runnerId)) := by
  induction jobs generalizing s log a with
  | nil => exact ⟨[], rfl, rfl, rfl, fun _ hb => by cases hb⟩
  | cons job jobs ih =>
    have hrest : ∀ job, some job ∈ jobs → Told percent runnerId job :=
      fun job hjob => hjobs job (List.mem_cons_of_mem _ hjob)
    simp only [List.length_cons] at hn
    have hsome : s.previous ≠ [] := dump_obj_ne_nil hprevious
    -- A poll that finds nothing new goes on with the same job.
    have quiet : s.tell percent runnerId jobId job = some s →
        Tells percent runnerId jobId s (job :: jobs) epoch log.length
          ((throughFirst closes
            (jobs.reduceOption.destutter' (Differs percent runnerId) a).tail).flatMap
              (announce percent runnerId)) := by
      intro htell
      have hnothing : s.journal = s.journal.appendAll [] ∧ s.cursor = s.cursor := ⟨rfl, rfl⟩
      obtain ⟨batch, t, hpoll, hevents, hfinished, hresync, hprev, hready⟩ :=
        h.poll htell hnothing (fun _ hc => by cases hc)
          (by simp only [List.length_nil]; omega) ⟨by simp [historyFrom], by simp [historyFrom]⟩
      have hreadyNow := hready rfl
      simp only [historyFrom, List.append_nil] at hreadyNow
      have hnext := ih hrest (by omega) hreadyNow (hprev ▸ hprevious)
      have hnone : ([] : List AppendCall).any AppendCall.finished = false := rfl
      exact .open hpoll hevents hfinished hnone hresync hnext
    cases job with
    | none =>
      rw [List.reduceOption_cons_of_none]
      exact quiet (by simp only [Source.tell, if_neg hsome])
    | some b =>
      have hb := hjobs b List.mem_cons_self
      have hwritten := hb
      obtain ⟨current, hcurrent, _⟩ := hwritten
      rw [List.reduceOption_cons_of_some]
      by_cases hsame : current = s.previous
      · have hnot : ¬ Differs percent runnerId a b := by
          simp [Differs, hprevious, hcurrent, hsame]
        rw [List.destutter'_cons_neg _ hnot]
        exact quiet (by simp [Source.tell, hcurrent, hsame])
      · have hdiffers : Differs percent runnerId a b := by
          simp [Differs, hprevious, hcurrent, Ne.symm hsame]
        rw [List.destutter'_cons_pos _ hdiffers, List.tail_cons]
        refine tells_new h (by omega) hb hcurrent hsame fun t log' hlog hready hprev => ?_
        exact ih hrest (by omega) hready (hcurrent.trans (congrArg _ hprev.symm))

/-- The source of a new connection, which the client opened with this cursor. -/
def Source.start (epoch : Epoch) (cursor : Bytes) : Source := ⟨newJournal epoch, cursor, []⟩

theorem ready_start (epoch : Epoch) : (Source.start epoch []).Ready epoch [] where
  journal := ⟨Window.longest_nil, rfl, rfl, rfl, by simp [Source.start, newJournal]⟩
  ofEpoch := rfl
  capacity := rfl
  byteLimit := rfl
  atEnd := .inl ⟨rfl, rfl⟩
  unfinished := rfl

theorem tells_missing {epoch : Epoch} {jobs : List (Option PullJob)}
    (hmissing : ∃ text, (notFound runnerId jobId).dump = .ok text ∧ text.length ≤ 500000) :
    Tells percent runnerId jobId (.start epoch []) (none :: jobs) epoch 0
      [missing runnerId jobId] := by
  obtain ⟨text, htext, hlength⟩ := hmissing
  have henc : ∀ c ∈ [missing runnerId jobId], c.data.encodable = true := by
    intro c hc
    rw [List.mem_singleton.mp hc, missing, ← Json.dump_isOk, htext]
    rfl
  have hframe : frameSize ⟨cursorText epoch (0 + 1), ascii "failed", notFound runnerId jobId⟩ ≤
      text.length + 100 := frameSize_le (by norm_num) (by decide) htext
  have htell : (Source.start epoch []).tell percent runnerId jobId none =
      some ⟨(newJournal epoch).appendAll [missing runnerId jobId], [], ascii "missing"⟩ := by
    simp [Source.tell, Source.start, append?_eq _ henc]
  obtain ⟨batch, t, hpoll, hevents, hfinished, hresync, _⟩ :=
    (ready_start epoch).poll htell ⟨rfl, rfl⟩ henc (by norm_num) <| by
      refine ⟨by simp, ?_⟩
      simp only [historyFrom, missing, Window.total_cons, Window.total_nil, List.length_nil]
      omega
  exact .closed hpoll hevents hfinished rfl hresync

theorem tells_story {epoch : Epoch} {jobs : List (Option PullJob)}
    (hjobs : ∀ job, some job ∈ jobs → Told percent runnerId job)
    (hmissing : ∃ text, (notFound runnerId jobId).dump = .ok text ∧ text.length ≤ 500000)
    (hn : 2 * jobs.length + 2 < 2 ^ 64) :
    Tells percent runnerId jobId (.start epoch []) jobs epoch 0
      (story percent runnerId jobId jobs) := by
  match jobs with
  | [] => exact ⟨[], rfl, rfl, rfl, fun _ hb => by cases hb⟩
  | none :: jobs => exact tells_missing hmissing
  | some b :: jobs =>
    have hb := hjobs b List.mem_cons_self
    have hwritten := hb
    obtain ⟨current, hcurrent, _⟩ := hwritten
    simp only [List.length_cons] at hn
    have hsome : current ≠ [] := dump_obj_ne_nil hcurrent
    simp only [story, List.reduceOption_cons_of_some, List.destutter_cons']
    refine tells_new (ready_start epoch) (by norm_num) hb hcurrent hsome
      fun t log hlog hready hprev => ?_
    simp only [List.length_nil] at hlog
    exact tells_changes (fun job hjob => hjobs job (List.mem_cons_of_mem _ hjob)) (by omega) hready
      (hcurrent.trans (congrArg _ hprev.symm))

/-- A poll keeps to its connection. -/
theorem tell_epoch {s : Source} {job : Option PullJob}
    (hjob : ∀ b, job = some b → Told percent runnerId b)
    (hmissing : (notFound runnerId jobId).encodable = true) :
    ∃ t, s.tell percent runnerId jobId job = some t ∧ t.journal.epoch = s.journal.epoch ∧
      t.cursor = s.cursor := by
  match job with
  | none =>
    by_cases hnew : s.previous = []
    · have henc : ∀ c ∈ [missing runnerId jobId], c.data.encodable = true := by
        intro c hc
        rw [List.mem_singleton.mp hc]
        exact hmissing
      refine ⟨⟨s.journal.appendAll [missing runnerId jobId], s.cursor, ascii "missing"⟩, ?_, ?_,
        rfl⟩
      · simp only [Source.tell, if_pos hnew, append?_eq _ henc, Option.map_some]
      · exact (s.journal.appendAll_fixed _).1
    · exact ⟨s, by simp only [Source.tell, if_neg hnew], rfl, rfl⟩
  | some b =>
    have hb := hjob b rfl
    have henc := announce_encodable hb
    obtain ⟨current, hcurrent, _⟩ := hb
    by_cases hnew : current = s.previous
    · exact ⟨s, by simp [Source.tell, hcurrent, hnew], rfl, rfl⟩
    · refine ⟨⟨s.journal.appendAll (announce percent runnerId b), s.cursor, current⟩, ?_, ?_, rfl⟩
      · simp only [Source.tell, hcurrent, ne_eq, if_pos hnew, append?_eq _ henc, Option.map_some]
      · exact (s.journal.appendAll_fixed _).1

/-- A cursor of another connection is answered with a resync and nothing else. -/
theorem watch_stale {epoch : Epoch} {cursor e : Bytes} {n : UInt64}
    (hcursor : parseCursor cursor = some (e, n)) (hne : e ≠ epoch.text) {job : Option PullJob}
    {jobs : List (Option PullJob)} (hjob : ∀ b, job = some b → Told percent runnerId b)
    (hmissing : (notFound runnerId jobId).encodable = true) :
    ∃ batch, (Source.start epoch cursor).watch percent runnerId jobId (job :: jobs) =
      some [batch] ∧ batch.events = [] ∧ batch.resyncRequired = true := by
  obtain ⟨t, htell, hepoch, hkept⟩ := tell_epoch (s := Source.start epoch cursor) hjob hmissing
  have hkept' : t.cursor = cursor := hkept
  have hepoch' : t.journal.epoch = epoch := hepoch
  have hnowhere : ¬ ∃ n, t.journal.StartsAfter cursor n := by
    rintro ⟨m, ⟨rfl, _⟩ | ⟨hwell, _⟩⟩
    · exact absurd hcursor (by simp [parseCursor])
    · have hsame := (parseCursor_wellFormed hwell).symm.trans hcursor
      rw [hepoch', Option.some.injEq, Prod.mk.injEq] at hsame
      exact hne hsame.1.symm
  have hread := read_resync hnowhere
  refine ⟨_, by simp [Source.watch, Source.poll, htell, hkept', hread]; rfl, rfl, rfl⟩

end Watch

/-- A model that is seen twice half loaded and then done. -/
def seen : List (Option PullJob) :=
  let half : PullJob :=
    { jobId := ascii "p1", model := ascii "qwen", status := .downloading, completed := 5,
      total := 10, updatedAt := 1 }
  [some half, some half, some { half with status := .completed, completed := 10, updatedAt := 2 }]

end PullWatch

end HolderDaemon
