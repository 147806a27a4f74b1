import HolderDaemon.ModelStream

/-!
A pull job (`run_pull` in `llm/LocalModelRunner.cpp`): what its thread writes to the job, from the
progress lines of the model server, and what status it leaves there when it returns.
-/

set_option autoImplicit false

open Bytes Pieces
open Json (of_bind_ok)

namespace HolderDaemon

namespace PullJobs

open Runners ModelStream

/-- One time that `run_pull` writes to its job. -/
inductive PullWrite where
  | start (now : Int)
  | update (u : PullUpdate)
  | fail (what : Bytes) (now : Int)

def PullWrite.apply (job : PullJob) : PullWrite → PullJob
  | .start now => { job with status := .downloading, updatedAt := now }
  | .update u => job.apply u
  | .fail what now => { job with status := .failed, error := what, updatedAt := now }

/-- The status that is written, if one is. -/
def PullWrite.status : PullWrite → Option PullStatus
  | .start _ => some .downloading
  | .update u => u.status
  | .fail _ _ => some .failed

def jobAfter (job : PullJob) (writes : List PullWrite) : PullJob := writes.foldl PullWrite.apply job

section Pull
variable (parse : Bytes → Option Json) (getLongLong : Json → Except Bytes Int)

/-- The fields of a payload that `run_pull` reads first, and whether the line ends the pull. -/
def readError (payload : Json) : Except Bytes (Option PullStatus × Bytes × Bool) :=
  match payload.field? (ascii "error") with
  | none => .ok (none, [], false)
  | some j => j.getString.map fun error => (some .failed, error, true)

def readStatus (payload : Json) (status : Option PullStatus) (done : Bool) :
    Except Bytes (Option PullStatus × Bytes × Bool) :=
  match payload.field? (ascii "status") with
  | none => .ok (status, [], done)
  | some j => j.getString.map fun stage =>
      if stage = ascii "success" then (some .completed, stage, true)
      else if stage = ascii "verifying" then (some .verifying, stage, done)
      else (some (status.getD .downloading), stage, done)

def readNumber (payload : Json) (key : String) : Except Bytes Int :=
  match payload.field? (ascii key) with
  | none => .ok 0
  | some j => getLongLong j

/-- A progress line: the update of the job, and whether it ends the pull. -/
def readUpdate (now : Int) (payload : Json) : Except Bytes (PullUpdate × Bool) := do
  let (status, error, done) ← readError payload
  let (status, stage, done) ← readStatus payload status done
  let completed ← readNumber getLongLong payload "completed"
  let total ← readNumber getLongLong payload "total"
  .ok (⟨status, error, stage, completed, total, now⟩, done)

/-- A trimmed line after the writes before it; `clock` gives the time of each write. -/
def pullLine (clock : Nat → Int) (writes : List PullWrite) (trimmed : Bytes) :
    List PullWrite × Bool :=
  match parse trimmed with
  | none => (writes, false)
  | some payload =>
    match readUpdate getLongLong (clock writes.length) payload with
    | .error _ => (writes, false)
    | .ok (u, done) => (writes ++ [.update u], done)

/-- All that `run_pull` writes to its job, in order. -/
def runPull (clock : Nat → Int) : Exchange → List PullWrite
  | .failed what => [.start (clock 0), .fail what (clock 1)]
  | .answered status reads =>
    if status ≠ 200 then [.start (clock 0), .fail (httpError status) (clock 1)]
    else
      match readBody (pullLine parse getLongLong clock) 10 isSpace [.start (clock 0)] [] reads with
      | (writes, .error what) => writes ++ [.fail what (clock writes.length)]
      | (writes, _) => writes

/-! What a line says -/

/-- An error, or success. -/
def reports (payload : Json) : Bool :=
  payload.contains (ascii "error") || (payload.field? (ascii "status")).any (·.isText (ascii "success"))

/-- An error that is verifying. -/
def contradicts (payload : Json) : Bool :=
  payload.contains (ascii "error") &&
    (payload.field? (ascii "status")).any (·.isText (ascii "verifying"))

/-- A line that reports how the pull has ended, in fields of the right types. -/
def report (trimmed : Bytes) : Option Json :=
  (parse trimmed).filter fun payload => reports payload && (readUpdate getLongLong 0 payload).isOk

/-- The exchange fails, or a line reports how the pull has ended, and the first such line does
not contradict itself. -/
def Concludes : Exchange → Prop
  | .failed _ => True
  | .answered status reads =>
    status ≠ 200 ∨
      match (linesRead 10 isSpace [] reads).findSome? (report parse getLongLong) with
      | some payload => contradicts payload = false
      | none => ∃ what, lastRead reads = .error what

/-- A line of the stream says `success`. -/
def Succeeds : Exchange → Prop
  | .failed _ => False
  | .answered _ reads =>
    ∃ trimmed ∈ linesRead 10 isSpace [] reads, ∃ payload, parse trimmed = some payload ∧
      (payload.field? (ascii "status")).any (·.isText (ascii "success")) = true

variable {parse getLongLong}

theorem readUpdate_ok {now : Int} {payload : Json} {u : PullUpdate} {done : Bool}
    (h : readUpdate getLongLong now payload = .ok (u, done)) :
    ∃ status error stage, ∃ completed total, ∃ early : Bool,
      readError payload = .ok (status, error, early) ∧
      readStatus payload status early = .ok (u.status, stage, done) ∧
      u = ⟨u.status, error, stage, completed, total, now⟩ := by
  unfold readUpdate at h
  obtain ⟨⟨status, error, early⟩, herror, h⟩ := of_bind_ok h
  obtain ⟨⟨status', stage, done'⟩, hstatus, h⟩ := of_bind_ok h
  obtain ⟨completed, -, h⟩ := of_bind_ok h
  obtain ⟨total, -, h⟩ := of_bind_ok h
  cases h
  exact ⟨status, error, stage, completed, total, early, herror, hstatus, rfl⟩

theorem readError_ok {payload : Json} {status : Option PullStatus} {error : Bytes} {early : Bool}
    (h : readError payload = .ok (status, error, early)) :
    early = payload.contains (ascii "error") ∧ status = if early then some .failed else none := by
  unfold readError at h
  unfold Json.contains
  split at h
  · rename_i hfield
    cases h
    rw [hfield]
    exact ⟨rfl, rfl⟩
  · rename_i j hfield
    cases j with
    | str text =>
      cases h
      rw [hfield]
      exact ⟨rfl, rfl⟩
    | _ => cases h

/-- What becomes of the status where the line has one. -/
theorem readStatus_ok {payload : Json} {early done : Bool} {status stage : _}
    (h : readStatus payload (if early then some .failed else none) early =
      .ok (status, stage, done)) :
    done = (early || (payload.field? (ascii "status")).any (·.isText (ascii "success"))) ∧
      (done = true → ∃ s, status = some s ∧ s.active =
        (early && (payload.field? (ascii "status")).any (·.isText (ascii "verifying")))) ∧
      (done = false → ∀ s ∈ status, s.active = true) ∧
      (status = some .completed →
        (payload.field? (ascii "status")).any (·.isText (ascii "success")) = true) := by
  unfold readStatus at h
  split at h
  · rename_i hfield
    cases h
    rw [hfield]
    cases early <;> simp [PullStatus.active]
  · rename_i j hfield
    cases j with
    | str text =>
      rw [hfield]
      simp only [Json.getString, Except.map] at h
      by_cases hsuccess : text = ascii "success"
      · rw [if_pos hsuccess] at h
        cases h
        simp [hsuccess, Json.isText, PullStatus.active]
      · rw [if_neg hsuccess] at h
        by_cases hverifying : text = ascii "verifying"
        · rw [if_pos hverifying] at h
          cases h
          simp [hverifying, Json.isText, PullStatus.active]
        · rw [if_neg hverifying] at h
          cases h
          cases early <;> simp [hsuccess, hverifying, Json.isText, PullStatus.active]
    | _ => cases h

/-- A line ends the pull where it reports, with a status that is not terminal where it
contradicts itself. -/
theorem readUpdate_reports {now : Int} {payload : Json} {u : PullUpdate} {done : Bool}
    (h : readUpdate getLongLong now payload = .ok (u, done)) :
    done = reports payload ∧
      (done = true → ∃ status, u.status = some status ∧ status.active = contradicts payload) ∧
      (done = false → ∀ status ∈ u.status, status.active = true) ∧
      (u.status = some .completed →
        (payload.field? (ascii "status")).any (·.isText (ascii "success")) = true) := by
  obtain ⟨status, error, stage, -, -, early, herror, hstatus, -⟩ := readUpdate_ok h
  obtain ⟨hearly, rfl⟩ := readError_ok herror
  have hread := readStatus_ok hstatus
  rw [hearly] at hread
  exact hread

theorem readUpdate_isOk (now : Int) (payload : Json) :
    (readUpdate getLongLong now payload).isOk = (readUpdate getLongLong 0 payload).isOk := by
  unfold readUpdate
  cases readError payload with
  | error e => rfl
  | ok first =>
    obtain ⟨status, error, early⟩ := first
    simp only [bind, Except.bind]
    cases readStatus payload status early with
    | error e => rfl
    | ok second =>
      dsimp only
      cases readNumber getLongLong payload "completed" with
      | error e => rfl
      | ok completed => cases readNumber getLongLong payload "total" <;> rfl

/-! The writes -/

/-- The job is still active where this is the last write to its status. -/
def PullWrite.Active (w : PullWrite) : Prop := ∀ status ∈ w.status, status.active = true

/-- The write of a line that ends the pull. -/
structure Ends (payload : Json) (w : PullWrite) (status : PullStatus) : Prop where
  written : w.status = some status
  active : status.active = contradicts payload
  success : status = .completed →
    (payload.field? (ascii "status")).any (·.isText (ascii "success")) = true

theorem pullLine_report (clock : Nat → Int) {trimmed : Bytes} {payload : Json}
    (h : report parse getLongLong trimmed = some payload) (writes : List PullWrite) :
    ∃ w status, pullLine parse getLongLong clock writes trimmed = (writes ++ [w], true) ∧
      Ends payload w status := by
  obtain ⟨hparse, hreport⟩ := Option.filter_eq_some_iff.mp h
  rw [Bool.and_eq_true, ← readUpdate_isOk (clock writes.length)] at hreport
  obtain ⟨hreports, hok⟩ := hreport
  cases hread : readUpdate getLongLong (clock writes.length) payload with
  | error e =>
    rw [hread] at hok
    cases hok
  | ok result =>
    obtain ⟨u, done⟩ := result
    obtain ⟨hdone, hends, -, hsuccess⟩ := readUpdate_reports hread
    rw [hreports] at hdone
    obtain ⟨status, hstatus, hactive⟩ := hends hdone
    refine ⟨.update u, status, ?_, hstatus, hactive, fun hcompleted => ?_⟩
    · simp only [pullLine, hparse, hread, hdone]
    · rw [hcompleted] at hstatus
      exact hsuccess hstatus

theorem pullLine_quiet (clock : Nat → Int) {trimmed : Bytes}
    (h : report parse getLongLong trimmed = none) (writes : List PullWrite) :
    ∃ ws, pullLine parse getLongLong clock writes trimmed = (writes ++ ws, false) ∧
      ∀ w ∈ ws, PullWrite.Active w := by
  unfold pullLine
  cases hparse : parse trimmed with
  | none => exact ⟨[], by simp, List.forall_mem_nil _⟩
  | some payload =>
    dsimp only
    cases hread : readUpdate getLongLong (clock writes.length) payload with
    | error e => exact ⟨[], by simp, List.forall_mem_nil _⟩
    | ok result =>
      obtain ⟨u, done⟩ := result
      obtain ⟨hdone, -, hgoes, -⟩ := readUpdate_reports hread
      have hnot : done = false := by
        rw [report, Option.filter_eq_none_iff] at h
        have hquiet := h payload hparse
        rw [← readUpdate_isOk (clock writes.length), hread] at hquiet
        rw [hdone]
        simpa [Except.isOk, Except.toBool] using hquiet
      refine ⟨[.update u], by rw [hnot], ?_⟩
      intro w hw
      rw [List.mem_singleton.mp hw]
      exact hgoes hnot

variable (parse getLongLong) in
/-- The lines write updates of an active job, up to the first one that reports how it ended. -/
theorem loop_pull (clock : Nat → Int) (writes : List PullWrite) (ls : List Bytes) :
    (ls.findSome? (report parse getLongLong) = none →
      ∃ ws, loop (pullLine parse getLongLong clock) writes ls = (writes ++ ws, false) ∧
        ∀ w ∈ ws, PullWrite.Active w) ∧
    ∀ payload, ls.findSome? (report parse getLongLong) = some payload →
      ∃ ws w status, loop (pullLine parse getLongLong clock) writes ls =
          (writes ++ ws ++ [w], true) ∧
        (∀ w ∈ ws, PullWrite.Active w) ∧ Ends payload w status := by
  induction ls generalizing writes with
  | nil => exact ⟨fun _ => ⟨[], by simp [loop], List.forall_mem_nil _⟩, fun _ h => by cases h⟩
  | cons l ls ih =>
    rw [List.findSome?_cons]
    cases hreport : report parse getLongLong l with
    | some payload =>
      refine ⟨(fun h => by cases h), fun p hp => ?_⟩
      cases hp
      obtain ⟨w, status, hline, hends⟩ := pullLine_report clock hreport writes
      exact ⟨[], w, status, by rw [loop, hline, List.append_nil], List.forall_mem_nil _, hends⟩
    | none =>
      obtain ⟨us, hline, hus⟩ := pullLine_quiet clock hreport writes
      have hrest := ih (writes ++ us)
      obtain ⟨hgoes, hstops⟩ := hrest
      rw [loop, hline]
      dsimp only
      constructor
      · intro hnone
        obtain ⟨ws, hloop, hws⟩ := hgoes hnone
        refine ⟨us ++ ws, by rw [hloop, List.append_assoc], ?_⟩
        exact List.forall_mem_append.mpr ⟨hus, hws⟩
      · intro payload hsome
        obtain ⟨ws, w, status, hloop, hws, hends⟩ := hstops payload hsome
        refine ⟨us ++ ws, w, status, by rw [hloop, ← List.append_assoc], ?_, hends⟩
        exact List.forall_mem_append.mpr ⟨hus, hws⟩

variable (parse getLongLong) in
/-- The writes of a pull: those of an active job, and a last one, if there is any. -/
theorem runPull_eq (clock : Nat → Int) (exchange : Exchange) :
    ∃ ws last, runPull parse getLongLong clock exchange =
        .start (clock 0) :: (ws ++ last.toList) ∧
      (∀ w ∈ ws, PullWrite.Active w) ∧
      (last = none → ¬ Concludes parse getLongLong exchange) ∧
      ∀ w ∈ last, ∃ status, w.status = some status ∧
        (status.active = false ↔ Concludes parse getLongLong exchange) ∧
        (status = .completed → Succeeds parse exchange) := by
  cases exchange with
  | failed what =>
    refine ⟨[], some (.fail what (clock 1)), rfl, List.forall_mem_nil _, by simp, ?_⟩
    rintro w hw
    cases hw
    exact ⟨.failed, rfl, by simp [PullStatus.active, Concludes], by simp⟩
  | answered code reads =>
    by_cases hcode : code = 200
    · subst hcode
      have hpull := readBody_eq (pullLine parse getLongLong clock) 10 isSpace [.start (clock 0)] []
        reads
      obtain ⟨hgoes, hstops⟩ := loop_pull parse getLongLong clock
        [.start (clock 0)] (linesRead 10 isSpace [] reads)
      simp only [runPull, Concludes, Succeeds, ne_eq, not_true_eq_false, if_false, false_or]
      cases hfind : (linesRead 10 isSpace [] reads).findSome? (report parse getLongLong) with
      | some payload =>
        obtain ⟨ws, w, status, hloop, hws, hends⟩ := hstops payload hfind
        rw [hloop] at hpull
        rw [hpull]
        refine ⟨ws, some w, rfl, hws, by simp, ?_⟩
        rintro w' hw
        cases hw
        obtain ⟨trimmed, hmem, hreport⟩ := List.exists_of_findSome?_eq_some hfind
        obtain ⟨hparse, -⟩ := Option.filter_eq_some_iff.mp hreport
        refine ⟨status, hends.written, by rw [hends.active], fun hcompleted => ?_⟩
        exact ⟨trimmed, hmem, payload, hparse, hends.success hcompleted⟩
      | none =>
        obtain ⟨ws, hloop, hws⟩ := hgoes hfind
        rw [hloop] at hpull
        rw [hpull]
        dsimp only
        cases hlast : lastRead reads with
        | error what =>
          refine ⟨ws, some (.fail what _), rfl, hws, by simp, ?_⟩
          rintro w hw
          cases hw
          exact ⟨.failed, rfl, by simp [PullStatus.active], by simp⟩
        | line => exact ⟨ws, none, by simp, hws, by simp, by simp⟩
        | body => exact ⟨ws, none, by simp, hws, by simp, by simp⟩
    · refine ⟨[], some (.fail (httpError code) (clock 1)), by simp [runPull, hcode],
        List.forall_mem_nil _, by simp, ?_⟩
      rintro w hw
      cases hw
      exact ⟨.failed, rfl, by simp [PullStatus.active, Concludes, hcode], by simp⟩

/-! The job -/

@[simp] theorem PullWrite.apply_status (job : PullJob) (w : PullWrite) :
    (w.apply job).status = w.status.getD job.status := by
  cases w <;> rfl

theorem active_jobAfter {job : PullJob} {ws : List PullWrite} (hjob : job.status.active = true)
    (h : ∀ w ∈ ws, PullWrite.Active w) : (jobAfter job ws).status.active = true := by
  induction ws generalizing job with
  | nil => exact hjob
  | cons w ws ih =>
    obtain ⟨hw, hws⟩ := List.forall_mem_cons.mp h
    refine ih ?_ hws
    rw [PullWrite.apply_status]
    cases hstatus : w.status with
    | none => exact hjob
    | some status => exact hw status hstatus

theorem jobAfter_append (job : PullJob) (ws vs : List PullWrite) :
    jobAfter job (ws ++ vs) = jobAfter (jobAfter job ws) vs := List.foldl_append

/-- A status that is not active any more is the last thing that is written. -/
theorem runPull_stops {clock : Nat → Int} {exchange : Exchange} {before after : List PullWrite}
    (job : PullJob) (h : runPull parse getLongLong clock exchange = before ++ after)
    (hne : before ≠ []) (hended : (jobAfter job before).status.active = false) : after = [] := by
  obtain ⟨ws, last, hruns, hws, -, -⟩ :=
    runPull_eq parse getLongLong clock exchange
  obtain ⟨w, begun, rfl⟩ := List.exists_cons_of_ne_nil hne
  rw [hruns, List.cons_append] at h
  obtain ⟨rfl, hrest⟩ := List.cons.inj h
  by_contra hafter
  have hlen : begun.length ≤ ws.length := by
    have hsum := congrArg List.length hrest
    have hpos := List.length_pos_iff.mpr hafter
    simp only [List.length_append] at hsum
    cases last <;> simp at hsum <;> omega
  have hbegun : begun <+: ws := by
    refine List.prefix_of_prefix_length_le ?_ (List.prefix_append ws last.toList) hlen
    rw [hrest]
    exact List.prefix_append begun after
  have hactive : (jobAfter (PullWrite.apply job (.start (clock 0))) begun).status.active = true :=
    active_jobAfter rfl fun w hw => hws w (hbegun.subset hw)
  rw [show jobAfter job (.start (clock 0) :: begun) = jobAfter _ begun from rfl, hactive] at hended
  cases hended

/-- The job that a client hands out is this one as long as it is the active one of its model. -/
theorem startPull_hands_out {c : Client} {job : PullJob} (hmem : job ∈ c.pulls)
    (hmodel : job.model ≠ [])
    (honly : ∀ other ∈ c.pulls, other.model = job.model → other.status.active = true → other = job)
    (now seq : Nat) (epoch : Int) :
    (c.startPull job.model now seq epoch).1 = job ↔ job.status.active = true := by
  rw [Client.startPull, if_neg hmodel]
  cases hfind : c.pulls.find? fun other => other.model = job.model ∧ other.status.active with
  | some existing =>
    have hfound := List.find?_some hfind
    rw [decide_eq_true_eq] at hfound
    have hsame := honly existing (List.mem_of_find?_eq_some hfind) hfound.1 hfound.2
    dsimp only
    rw [hsame] at hfound ⊢
    exact ⟨fun _ => hfound.2, fun _ => rfl⟩
  | none =>
    have hended : job.status.active ≠ true := by
      intro hactive
      exact absurd (List.find?_eq_none.mp hfind job hmem) (by simp [hactive])
    refine ⟨fun hnew => absurd ?_ hended, fun hactive => absurd hactive hended⟩
    rw [← hnew]
    rfl

theorem jobAfter_model (job : PullJob) (ws : List PullWrite) :
    (jobAfter job ws).model = job.model := by
  induction ws generalizing job with
  | nil => rfl
  | cons w ws ih =>
    refine (ih _).trans ?_
    cases w <;> rfl

/-- The status that `run_pull` leaves is terminal exactly where the exchange concludes, and
`completed` only where the stream says so; nothing is written to the job after a terminal status;
and `start_pull` hands the job out for ever where the exchange does not conclude. -/
theorem pull_ends_iff (clock : Nat → Int) (exchange : Exchange) (job : PullJob) :
    ((jobAfter job (runPull parse getLongLong clock exchange)).status.active = false ↔
        Concludes parse getLongLong exchange) ∧
      ((jobAfter job (runPull parse getLongLong clock exchange)).status = .completed →
        Succeeds parse exchange) ∧
      (∀ before after, runPull parse getLongLong clock exchange = before ++ after → before ≠ [] →
        (jobAfter job before).status.active = false → after = []) ∧
      ∀ c : Client, job.model ≠ [] →
        jobAfter job (runPull parse getLongLong clock exchange) ∈ c.pulls →
        (∀ other ∈ c.pulls, other.model = job.model → other.status.active = true →
          other = jobAfter job (runPull parse getLongLong clock exchange)) →
        ∀ now seq epoch, (c.startPull job.model now seq epoch).1 =
            jobAfter job (runPull parse getLongLong clock exchange) ↔
          ¬ Concludes parse getLongLong exchange := by
  obtain ⟨ws, last, hruns, hws, hnone, hsome⟩ :=
    runPull_eq parse getLongLong clock exchange
  have hbegun : (jobAfter (PullWrite.apply job (.start (clock 0))) ws).status.active = true :=
    active_jobAfter rfl hws
  have hfinal : jobAfter job (runPull parse getLongLong clock exchange) =
      jobAfter (jobAfter (PullWrite.apply job (.start (clock 0))) ws) last.toList := by
    rw [hruns, ← jobAfter_append]
    rfl
  have hends : (jobAfter job (runPull parse getLongLong clock exchange)).status.active = false ↔
      Concludes parse getLongLong exchange := by
    rw [hfinal]
    cases last with
    | none =>
      refine ⟨fun hended => ?_, fun hconcludes => absurd hconcludes (hnone rfl)⟩
      exact absurd (hbegun.symm.trans hended) (by decide)
    | some w =>
      obtain ⟨status, hstatus, hiff, -⟩ := hsome w rfl
      rw [← hiff]
      simp [jobAfter, hstatus]
  refine ⟨hends, fun hcompleted => ?_, fun before after h hne => runPull_stops job h hne,
    fun c hmodel hmem honly now seq epoch => ?_⟩
  · rw [hfinal] at hcompleted
    cases last with
    | none =>
      have hactive := congrArg PullStatus.active hcompleted
      exact absurd (hbegun.symm.trans hactive) (by decide)
    | some w =>
      obtain ⟨status, hstatus, -, hsuccess⟩ := hsome w rfl
      refine hsuccess ?_
      simpa [jobAfter, hstatus] using hcompleted
  · have hsame := jobAfter_model job (runPull parse getLongLong clock exchange)
    rw [← hsame] at hmodel honly ⊢
    rw [startPull_hands_out hmem hmodel honly, ← hends, Bool.not_eq_false]

end Pull

def queuedJob : PullJob where
  jobId := ascii "pull-1-1"
  model := ascii "llama"
  status := .queued
  updatedAt := 0

def integer (j : Json) : Except Bytes Int := j.getInt64.map Int64.toInt

/-- The job of a pull whose stream ends before the server has reported anything. -/
def deadJob : PullJob :=
  jobAfter queuedJob (runPull (fun _ => none) integer (fun _ => 0) (.answered 200 [.endOfStream]))

def deadClient : Client :=
  (Client.fresh ⟨ascii "127.0.0.1", ascii "11434"⟩).setPull deadJob (by decide)

/-- It goes on for ever, and is what every later pull of the model gets. -/
theorem pull_never_ends :
    deadJob.status = .downloading ∧
      deadClient.startPull (ascii "llama") 2 2 5 = (deadJob, deadClient) := by
  decide

end PullJobs

end HolderDaemon
