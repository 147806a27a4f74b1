import HolderDaemon.Machine
import HolderDaemon.PullJobs
import HolderDaemon.RunnerAddress

/-!
Concurrent calls of `start_pull` (`llm/LocalModelRunner.cpp`) and the threads of their pulls. A
step of a call is one critical section: the search for an active job of the model, the insertion
of a new job, the start of its thread.
-/

set_option autoImplicit false

open Bytes Pieces

namespace HolderDaemon

namespace PullJobs

open Runners ModelStream

/-- A job of `pulls_`, with what its thread has still to write to it. -/
structure Pull where
  job : PullJob
  thread : List PullWrite := []

def Pull.jobId (p : Pull) : Bytes := p.job.jobId

def Pull.active (p : Pull) : Bool := p.job.status.active

/-- Where a call stands: before its search, between a search that found nothing and the
insertion, before its thread, at its end, or after it. -/
inductive Stage where
  | invoked
  | missed
  | inserted (job : PullJob)
  | answered (job : PullJob)
  | returned (job : PullJob)
  | threw

/-- `met` holds the calls that were in progress when this one began. -/
structure Call where
  model : Bytes
  met : List Nat
  stage : Stage

def Call.inProgress (c : Call) : Bool :=
  match c.stage with
  | .returned _ | .threw => false
  | _ => true

/-- The call has still to find a job or to insert one. -/
def Call.waits (c : Call) : Bool :=
  match c.stage with
  | .invoked | .missed => true
  | _ => false

def Call.job? (c : Call) : Option PullJob :=
  match c.stage with
  | .inserted job | .answered job | .returned job => some job
  | _ => none

structure Admission where
  pulls : List Pull := []
  calls : List Call := []
  sequence : Nat := 0

inductive Step where
  | invoke (model : Bytes)
  | search (call : Nat) (epoch : Int)
  | insert (call : Nat) (now : Nat) (epoch : Int)
  | spawn (call : Nat) (exchange : Exchange) (clock : Nat → Int) (started : Bool)
  | back (call : Nat)
  | write (jobId : Bytes)
  | completeFake (epoch : Int)

def missingModel (epoch : Int) : PullJob :=
  ⟨[], [], .failed, [], 0, 0, epoch, ascii "missing model"⟩

def newJob (model : Bytes) (now seq : Nat) (epoch : Int) : PullJob :=
  { jobId := generateJobId now seq, model, status := .queued, updatedAt := epoch }

/-- `maybe_complete_fake_pulls_locked` on one job. -/
def completedFake (epoch : Int) (p : Pull) : Pull :=
  if p.job.status = .queued then
    { p with
      job := { p.job with
        status := .completed, stage := ascii "success", total := 1, completed := 1,
        updatedAt := epoch } }
  else p

/-- The thread's next write to its job. -/
def Pull.write (p : Pull) : Pull :=
  match p.thread with
  | [] => p
  | w :: rest => ⟨w.apply p.job, rest⟩

namespace Admission

def put (s : Admission) (i : Nat) (c : Call) (stage : Stage) : Admission :=
  { s with calls := s.calls.set i { c with stage } }

def mapJob (s : Admission) (jobId : Bytes) (f : Pull → Pull) : Admission :=
  { s with pulls := s.pulls.map fun p => if p.jobId = jobId then f p else p }

/-- The calls in progress. -/
def current (s : Admission) : List Nat :=
  (List.range s.calls.length).filter fun i => s.calls[i]?.any Call.inProgress

def find (s : Admission) (model : Bytes) : Option Pull :=
  s.pulls.find? fun p => p.job.model = model ∧ p.active

section Steps
variable (parse : Bytes → Option Json) (getLongLong : Json → Except Bytes Int) (fakeMode : Bool)

def searched (s : Admission) (i : Nat) (c : Call) (epoch : Int) : Admission :=
  if c.model = [] then s.put i c (.answered (missingModel epoch))
  else
    match s.find c.model with
    | some p => s.put i c (.answered p.job)
    | none => s.put i c .missed

def inserted (s : Admission) (i : Nat) (c : Call) (now : Nat) (epoch : Int) : Admission :=
  let job := newJob c.model now (s.sequence + 1) epoch
  { s with pulls := Rows.put Pull.jobId ⟨job, []⟩ s.pulls, sequence := s.sequence + 1 }.put i c
    (.inserted job)

/-- `emplace_back` of the thread, which throws where no thread can be made. -/
def spawned (s : Admission) (i : Nat) (c : Call) (job : PullJob) (exchange : Exchange)
    (clock : Nat → Int) (started : Bool) : Admission :=
  if fakeMode then s.put i c (.answered job)
  else if started then
    (s.mapJob job.jobId fun p => { p with thread := runPull parse getLongLong clock exchange }).put
      i c (.answered job)
  else s.put i c .threw

def step (s : Admission) : Step → Option Admission
  | .invoke model => some { s with calls := s.calls ++ [⟨model, s.current, .invoked⟩] }
  | .search i epoch =>
    match s.calls[i]? with
    | some c =>
      match c.stage with
      | .invoked => some (s.searched i c epoch)
      | _ => none
    | none => none
  | .insert i now epoch =>
    match s.calls[i]? with
    | some c =>
      match c.stage with
      | .missed => some (s.inserted i c now epoch)
      | _ => none
    | none => none
  | .spawn i exchange clock started =>
    match s.calls[i]? with
    | some c =>
      match c.stage with
      | .inserted job =>
        some (s.spawned parse getLongLong fakeMode i c job exchange clock started)
      | _ => none
    | none => none
  | .back i =>
    match s.calls[i]? with
    | some c =>
      match c.stage with
      | .answered job => some (s.put i c (.returned job))
      | _ => none
    | none => none
  | .write jobId => some (s.mapJob jobId Pull.write)
  | .completeFake epoch =>
    if fakeMode then some { s with pulls := s.pulls.map (completedFake epoch) } else none

end Steps

/-! What is to hold -/

/-- One of the two calls was in progress when the other began. -/
def Overlap (i j : Nat) (c d : Call) : Prop := i ∈ d.met ∨ j ∈ c.met

/-- A model has one active job at most. -/
def OneActive (s : Admission) : Prop :=
  ∀ p ∈ s.pulls, ∀ q ∈ s.pulls, p.job.model = q.job.model → p.active = true → q.active = true →
    p.job = q.job

/-- Calls for a model that overlap return one job. -/
def SameAnswer (s : Admission) : Prop :=
  ∀ i j c d a b, s.calls[i]? = some c → s.calls[j]? = some d → c.model = d.model →
    Overlap i j c d → c.stage = .returned a → d.stage = .returned b → a.jobId = b.jobId

/-! When it does -/

/-- The job that a call has got is still active. -/
def Holds (s : Admission) (c : Call) : Prop :=
  ∀ job ∈ c.job?, ∃ p ∈ s.pulls, p.jobId = job.jobId ∧ p.job.model = c.model ∧ p.active = true

/-- No call that has still to get a job overlaps one that has this job. -/
def Unawaited (s : Admission) (jobId : Bytes) : Prop :=
  ∀ i j c d, s.calls[i]? = some c → s.calls[j]? = some d → c.model = d.model → c.model ≠ [] →
    (∃ job ∈ c.job?, job.jobId = jobId) → d.waits = true → ¬ Overlap i j c d

/-- A call begins while the job of every call in progress for its model is active, it searches
while no other call for its model is between its search and its insertion, and a job ends while
no call waits that overlaps one that has got it. -/
def Exclusive (s : Admission) : Step → Prop
  | .invoke model => model ≠ [] → ∀ c ∈ s.calls, c.model = model → c.inProgress = true → s.Holds c
  | .search i _ => ∀ c d, s.calls[i]? = some c → d ∈ s.calls → d.model = c.model →
      d.stage ≠ .missed
  | .write jobId => ∀ p ∈ s.pulls, p.jobId = jobId → p.write.active = false → s.Unawaited jobId
  | .completeFake _ => ∀ p ∈ s.pulls, p.job.status = .queued → s.Unawaited p.jobId
  | _ => True

/-! Job ids -/

theorem generateJobId_inj {now now' seq seq' : Nat}
    (h : generateJobId now seq = generateJobId now' seq') : seq = seq' := by
  have hdigits : ∀ n, (45 : UInt8) ∉ decimal n := by
    intro n hmem
    have hdigit := List.all_eq_true.mp (all_isDigit_decimal n) _ hmem
    exact absurd hdigit (by decide)
  have hsplit : ∀ now seq, generateJobId now seq =
      (ascii "pull-" ++ decimal now) ++ 45 :: decimal seq := by
    intro now seq
    rw [generateJobId, List.append_assoc]
    rfl
  rw [hsplit, hsplit] at h
  have hlast := rfind_last (b := 45) (ascii "pull-" ++ decimal now) (hdigits seq)
  rw [h, rfind_last _ (hdigits seq'), Option.some_inj] at hlast
  have hrest := (List.cons.inj (List.append_inj h hlast.symm).2).2
  rw [← decimalValue_decimal seq, hrest, decimalValue_decimal]

/-! The invariant -/

/-- Writes of a thread of which only the last one may end the job. -/
def Steady (writes : List PullWrite) : Prop :=
  ∃ ws last, writes = ws ++ Option.toList last ∧ ∀ w ∈ ws, PullWrite.Active w

structure Inv (fakeMode : Bool) (s : Admission) : Prop where
  ids : ∀ p ∈ s.pulls, ∃ now seq, p.jobId = generateJobId now seq ∧ seq ≤ s.sequence
  keys : (s.pulls.map Pull.jobId).Nodup
  one : ∀ p ∈ s.pulls, ∀ q ∈ s.pulls, p.job.model = q.job.model → p.active = true →
    q.active = true → p = q
  threads : ∀ p ∈ s.pulls, p.thread ≠ [] → p.active = true ∧ Steady p.thread
  fake : fakeMode = true → ∀ p ∈ s.pulls, p.thread = []
  missed : ∀ (i : Nat) (c : Call), s.calls[i]? = some c → c.stage = .missed → c.model ≠ [] ∧
    (∀ p ∈ s.pulls, p.job.model = c.model → p.active = false) ∧
    ∀ (j : Nat) (d : Call), s.calls[j]? = some d → d.stage = .missed → d.model = c.model → j = i
  fresh : ∀ (i : Nat) (c : Call) (job : PullJob), s.calls[i]? = some c → c.stage = .inserted job →
    (∃ p ∈ s.pulls, p.jobId = job.jobId ∧ p.thread = [] ∧ (fakeMode = false → p.active = true)) ∧
    ∀ (j : Nat) (d : Call) (other : PullJob), s.calls[j]? = some d → d.stage = .inserted other →
      other.jobId = job.jobId → j = i
  waits : ∀ (i j : Nat) (c d : Call), s.calls[i]? = some c → s.calls[j]? = some d → c.model = d.model →
    c.model ≠ [] → d.waits = true → Overlap i j c d → s.Holds c
  same : ∀ (i j : Nat) (c d : Call) (a b : PullJob), s.calls[i]? = some c → s.calls[j]? = some d → c.model = d.model →
    Overlap i j c d → c.job? = some a → d.job? = some b → a.jobId = b.jobId
  blank : ∀ c ∈ s.calls, c.model = [] → ∀ job ∈ c.job?, job.jobId = []
  met : ∀ c ∈ s.calls, ∀ i ∈ c.met, i < s.calls.length

theorem inv_start (fakeMode : Bool) : Inv fakeMode {} := by
  constructor <;> simp

theorem Overlap.symm {i j : Nat} {c d : Call} (h : Overlap i j c d) : Overlap j i d c := Or.symm h

theorem get_put {s : Admission} {i j : Nat} {c d : Call} {stage : Stage}
    (hi : s.calls[i]? = some c) :
    (s.put i c stage).calls[j]? = some d ↔
      (j = i ∧ d = { c with stage }) ∨ (j ≠ i ∧ s.calls[j]? = some d) := by
  have hlen : i < s.calls.length := (List.getElem?_eq_some_iff.mp hi).1
  rw [put, List.getElem?_set]
  by_cases hij : i = j
  · subst hij
    simp [hlen, eq_comm]
  · simp [hij, Ne.symm hij]

theorem mem_put {s : Admission} {i : Nat} {c d : Call} {stage : Stage}
    (h : d ∈ (s.put i c stage).calls) : d = { c with stage } ∨ d ∈ s.calls := by
  rcases List.mem_or_eq_of_mem_set h with hmem | rfl
  · exact .inr hmem
  · exact .inl rfl

/-- One call moves on. -/
theorem Inv.put {fakeMode : Bool} {s : Admission} (h : Inv fakeMode s) {i : Nat} {c : Call}
    {stage : Stage} (hi : s.calls[i]? = some c)
    (hmissed : stage = .missed → c.model ≠ [] ∧
      (∀ p ∈ s.pulls, p.job.model = c.model → p.active = false) ∧
      ∀ d ∈ s.calls, d.stage = .missed → d.model ≠ c.model)
    (hfresh : ∀ job, stage = .inserted job →
      (∃ p ∈ s.pulls, p.jobId = job.jobId ∧ p.thread = [] ∧ (fakeMode = false → p.active = true)) ∧
      ∀ d ∈ s.calls, ∀ other, d.stage = .inserted other → other.jobId ≠ job.jobId)
    (hwaits : Call.waits { c with stage } = true → c.waits = true)
    (hholds : ∀ j d, s.calls[j]? = some d → c.model = d.model → c.model ≠ [] → d.waits = true →
      Overlap i j c d → s.Holds { c with stage })
    (hsame : ∀ j d a b, s.calls[j]? = some d → c.model = d.model → Overlap i j c d →
      Call.job? { c with stage } = some a → d.job? = some b → a.jobId = b.jobId)
    (hblank : c.model = [] → ∀ job ∈ Call.job? { c with stage }, job.jobId = []) :
    Inv fakeMode (s.put i c stage) := by
  have hmem : c ∈ s.calls := List.mem_of_getElem? hi
  refine ⟨h.ids, h.keys, h.one, h.threads, h.fake, ?_, ?_, ?_, ?_, ?_, ?_⟩
  · intro k d hk hd
    rcases (get_put hi).mp hk with ⟨rfl, rfl⟩ | ⟨hki, hold⟩
    · obtain ⟨hne, hnone, honly⟩ := hmissed hd
      refine ⟨hne, hnone, fun j e hj he hmodel => ?_⟩
      rcases (get_put hi).mp hj with ⟨rfl, -⟩ | ⟨-, hj⟩
      · rfl
      · exact absurd hmodel (honly e (List.mem_of_getElem? hj) he)
    · obtain ⟨hne, hnone, honly⟩ := h.missed k d hold hd
      refine ⟨hne, hnone, fun j e hj he hmodel => ?_⟩
      rcases (get_put hi).mp hj with ⟨rfl, rfl⟩ | ⟨-, hj⟩
      · exact absurd hmodel.symm ((hmissed he).2.2 d (List.mem_of_getElem? hold) hd)
      · exact honly j e hj he hmodel
  · intro k d job hk hd
    rcases (get_put hi).mp hk with ⟨rfl, rfl⟩ | ⟨hki, hold⟩
    · obtain ⟨hstored, honly⟩ := hfresh job hd
      refine ⟨hstored, fun j e other hj he hid => ?_⟩
      rcases (get_put hi).mp hj with ⟨rfl, -⟩ | ⟨-, hj⟩
      · rfl
      · exact absurd hid (honly e (List.mem_of_getElem? hj) other he)
    · obtain ⟨hstored, honly⟩ := h.fresh k d job hold hd
      refine ⟨hstored, fun j e other hj he hid => ?_⟩
      rcases (get_put hi).mp hj with ⟨rfl, rfl⟩ | ⟨-, hj⟩
      · exact absurd hid.symm ((hfresh other he).2 d (List.mem_of_getElem? hold) job hd)
      · exact honly j e other hj he hid
  · intro k j d e hk hj hmodel hne hwait hoverlap
    rcases (get_put hi).mp hk with ⟨rfl, rfl⟩ | ⟨hki, hold⟩
    · rcases (get_put hi).mp hj with ⟨rfl, rfl⟩ | ⟨-, hj⟩
      · exact hholds _ c hi rfl hne (hwaits hwait) hoverlap
      · exact hholds j e hj hmodel hne hwait hoverlap
    · rcases (get_put hi).mp hj with ⟨rfl, rfl⟩ | ⟨-, hj⟩
      · exact h.waits k _ d c hold hi hmodel hne (hwaits hwait) hoverlap
      · exact h.waits k j d e hold hj hmodel hne hwait hoverlap
  · intro k j d e a b hk hj hmodel hoverlap ha hb
    rcases (get_put hi).mp hk with ⟨rfl, rfl⟩ | ⟨hki, hold⟩
    · rcases (get_put hi).mp hj with ⟨rfl, rfl⟩ | ⟨-, hj⟩
      · rw [Option.some.inj (ha.symm.trans hb)]
      · exact hsame j e a b hj hmodel hoverlap ha hb
    · rcases (get_put hi).mp hj with ⟨rfl, rfl⟩ | ⟨-, hj⟩
      · exact (hsame k d b a hold hmodel.symm hoverlap.symm hb ha).symm
      · exact h.same k j d e a b hold hj hmodel hoverlap ha hb
  · intro d hd
    rcases mem_put hd with rfl | hd
    · exact hblank
    · exact h.blank d hd
  · intro d hd k hk
    rw [show (s.put i c stage).calls.length = s.calls.length from List.length_set]
    rcases mem_put hd with rfl | hd
    · exact h.met c hmem k hk
    · exact h.met d hd k hk

/-- A call that has got its job, or that throws, goes on. -/
theorem Inv.settle {fakeMode : Bool} {s : Admission} (h : Inv fakeMode s) {i : Nat} {c : Call}
    {stage : Stage} (hi : s.calls[i]? = some c) (hmissed : stage ≠ .missed)
    (hfresh : ∀ job, stage ≠ .inserted job)
    (hwaits : Call.waits { c with stage } = true → c.waits = true)
    (hjob : ∀ a, Call.job? { c with stage } = some a → c.job? = some a) :
    Inv fakeMode (s.put i c stage) := by
  refine h.put hi (fun hst => absurd hst hmissed) (fun job hst => absurd hst (hfresh job)) hwaits
    ?_ ?_ ?_
  · intro j d hj hmodel hne hwait hoverlap job hjob'
    exact h.waits i j c d hi hj hmodel hne hwait hoverlap job (hjob job hjob')
  · intro j d a b hj hmodel hoverlap ha hb
    exact h.same i j c d a b hi hj hmodel hoverlap (hjob a ha) hb
  · intro hmodel job hjob'
    exact h.blank c (List.mem_of_getElem? hi) hmodel job (hjob job hjob')

/-- The jobs change, each on its own, and none comes back that has ended. -/
theorem Inv.mapPulls {fakeMode : Bool} {s : Admission} (h : Inv fakeMode s) {f : Pull → Pull}
    (hid : ∀ p, (f p).jobId = p.jobId) (hmodel : ∀ p, (f p).job.model = p.job.model)
    (hactive : ∀ p ∈ s.pulls, (f p).active = true → p.active = true)
    (hthreads : ∀ p ∈ s.pulls, (f p).thread ≠ [] → (f p).active = true ∧ Steady (f p).thread)
    (hfake : fakeMode = true → ∀ p ∈ s.pulls, (f p).thread = [])
    (hfresh : ∀ c job, c ∈ s.calls → c.stage = .inserted job → ∀ p ∈ s.pulls,
      p.jobId = job.jobId → p.thread = [] →
        (f p).thread = [] ∧ (fakeMode = false → p.active = true → (f p).active = true))
    (hended : ∀ p ∈ s.pulls, p.active = true → (f p).active = false → s.Unawaited p.jobId) :
    Inv fakeMode { s with pulls := s.pulls.map f } := by
  have hkeys : (s.pulls.map f).map Pull.jobId = s.pulls.map Pull.jobId := by
    rw [List.map_map]
    exact List.map_congr_left fun p _ => hid p
  refine ⟨?_, hkeys ▸ h.keys, ?_, ?_, ?_, ?_, ?_, ?_, h.same, h.blank, h.met⟩
  · intro q hq
    obtain ⟨p, hp, rfl⟩ := List.mem_map.mp hq
    rw [hid]
    exact h.ids p hp
  · intro q hq r hr hsame hqa hra
    obtain ⟨p, hp, rfl⟩ := List.mem_map.mp hq
    obtain ⟨o, ho, rfl⟩ := List.mem_map.mp hr
    rw [hmodel, hmodel] at hsame
    rw [h.one p hp o ho hsame (hactive p hp hqa) (hactive o ho hra)]
  · intro q hq
    obtain ⟨p, hp, rfl⟩ := List.mem_map.mp hq
    exact hthreads p hp
  · intro hmode q hq
    obtain ⟨p, hp, rfl⟩ := List.mem_map.mp hq
    exact hfake hmode p hp
  · intro i c hi hc
    obtain ⟨hne, hnone, honly⟩ := h.missed i c hi hc
    refine ⟨hne, fun q hq hq' => ?_, honly⟩
    obtain ⟨p, hp, rfl⟩ := List.mem_map.mp hq
    rw [hmodel] at hq'
    by_contra hact
    rw [Bool.not_eq_false] at hact
    exact absurd (hactive p hp hact) (by simp [hnone p hp hq'])
  · intro i c job hi hc
    obtain ⟨⟨p, hp, hpid, hthread, hpa⟩, honly⟩ := h.fresh i c job hi hc
    obtain ⟨hthread', hpa'⟩ := hfresh c job (List.mem_of_getElem? hi) hc p hp hpid hthread
    refine ⟨⟨f p, List.mem_map_of_mem hp, by rw [hid, hpid], hthread', fun hmode => ?_⟩, honly⟩
    exact hpa' hmode (hpa hmode)
  · intro i j c d hi hj hsame hne hwait hoverlap job hjob
    obtain ⟨p, hp, hpid, hpm, hpa⟩ := h.waits i j c d hi hj hsame hne hwait hoverlap job hjob
    refine ⟨f p, List.mem_map_of_mem hp, by rw [hid, hpid], by rw [hmodel, hpm], ?_⟩
    by_contra hact
    rw [Bool.not_eq_true] at hact
    refine hended p hp hpa hact i j c d hi hj hsame hne ⟨job, hjob, hpid.symm⟩ hwait hoverlap

/-- A job with a new id, for a model that has no active one. -/
theorem Inv.add {fakeMode : Bool} {s : Admission} (h : Inv fakeMode s) (model : Bytes)
    (now : Nat) (epoch : Int)
    (hnone : ∀ p ∈ s.pulls, p.job.model = model → p.active = false)
    (hmissed : ∀ d ∈ s.calls, d.stage = .missed → d.model ≠ model) :
    Inv fakeMode { s with
      pulls := s.pulls ++ [⟨newJob model now (s.sequence + 1) epoch, []⟩]
      sequence := s.sequence + 1 } := by
  have hnew : ∀ p ∈ s.pulls, p.jobId ≠ generateJobId now (s.sequence + 1) := by
    intro p hp hsame
    obtain ⟨now', seq, hid, hseq⟩ := h.ids p hp
    have heq := generateJobId_inj (hid.symm.trans hsame)
    omega
  have hmem : ∀ {q : Pull}, q ∈ s.pulls ++ [⟨newJob model now (s.sequence + 1) epoch, []⟩] →
      q ∈ s.pulls ∨ q = ⟨newJob model now (s.sequence + 1) epoch, []⟩ := by
    intro q hq
    simpa using hq
  have hold : ∀ {q : Pull}, q ∈ s.pulls →
      q ∈ s.pulls ++ [⟨newJob model now (s.sequence + 1) epoch, []⟩] :=
    fun hq => List.mem_append_left _ hq
  refine ⟨?_, ?_, ?_, ?_, ?_, ?_, ?_, ?_, h.same, h.blank, h.met⟩
  · intro q hq
    rcases hmem hq with hq | rfl
    · obtain ⟨now', seq, hid, hseq⟩ := h.ids q hq
      exact ⟨now', seq, hid, Nat.le_succ_of_le hseq⟩
    · exact ⟨now, s.sequence + 1, rfl, le_rfl⟩
  · rw [List.map_append, List.nodup_append]
    refine ⟨h.keys, by simp, ?_⟩
    intro k hk l hl
    obtain ⟨p, hp, rfl⟩ := List.mem_map.mp hk
    rw [List.map_singleton, List.mem_singleton] at hl
    rw [hl]
    exact hnew p hp
  · intro q hq r hr hsame hqa hra
    rcases hmem hq with hq | rfl
    · rcases hmem hr with hr | rfl
      · exact h.one q hq r hr hsame hqa hra
      · rw [hnone q hq hsame] at hqa
        cases hqa
    · rcases hmem hr with hr | rfl
      · rw [hnone r hr hsame.symm] at hra
        cases hra
      · rfl
  · intro q hq hthread
    rcases hmem hq with hq | rfl
    · exact h.threads q hq hthread
    · exact absurd rfl hthread
  · intro hmode q hq
    rcases hmem hq with hq | rfl
    · exact h.fake hmode q hq
    · rfl
  · intro i c hi hc
    obtain ⟨hne, hnot, honly⟩ := h.missed i c hi hc
    refine ⟨hne, fun q hq hqm => ?_, honly⟩
    rcases hmem hq with hq | rfl
    · exact hnot q hq hqm
    · exact absurd hqm.symm (hmissed c (List.mem_of_getElem? hi) hc)
  · intro i c job hi hc
    obtain ⟨⟨p, hp, hrest⟩, honly⟩ := h.fresh i c job hi hc
    exact ⟨⟨p, hold hp, hrest⟩, honly⟩
  · intro i j c d hi hj hsame hne hwait hoverlap job hjob
    obtain ⟨p, hp, hrest⟩ := h.waits i j c d hi hj hsame hne hwait hoverlap job hjob
    exact ⟨p, hold hp, hrest⟩

theorem mem_current {s : Admission} {i : Nat} (h : i ∈ s.current) :
    ∃ c, s.calls[i]? = some c ∧ c.inProgress = true := by
  obtain ⟨-, hany⟩ := List.mem_filter.mp h
  exact (Option.any_eq_true _ _).mp hany

theorem get_concat {calls : List Call} {new d : Call} {j : Nat}
    (h : (calls ++ [new])[j]? = some d) : calls[j]? = some d ∨ j = calls.length ∧ d = new := by
  rw [List.getElem?_append] at h
  split at h
  · exact .inl h
  · rename_i hlen
    have hj : j - calls.length = 0 := by
      by_contra hne
      rw [List.getElem?_eq_none (by simp; omega)] at h
      cases h
    rw [hj] at h
    exact .inr ⟨by omega, (Option.some.inj h).symm⟩

theorem Inv.invoke {fakeMode : Bool} {s : Admission} (h : Inv fakeMode s) (model : Bytes)
    (hholds : model ≠ [] → ∀ c ∈ s.calls, c.model = model → c.inProgress = true → s.Holds c) :
    Inv fakeMode { s with calls := s.calls ++ [⟨model, s.current, .invoked⟩] } := by
  refine ⟨h.ids, h.keys, h.one, h.threads, h.fake, ?_, ?_, ?_, ?_, ?_, ?_⟩
  · intro i c hi hc
    rcases get_concat hi with hi | ⟨-, rfl⟩
    · obtain ⟨hne, hnone, honly⟩ := h.missed i c hi hc
      refine ⟨hne, hnone, fun j d hj hd hmodel => ?_⟩
      rcases get_concat hj with hj | ⟨-, rfl⟩
      · exact honly j d hj hd hmodel
      · cases hd
    · cases hc
  · intro i c job hi hc
    rcases get_concat hi with hi | ⟨-, rfl⟩
    · obtain ⟨hstored, honly⟩ := h.fresh i c job hi hc
      refine ⟨hstored, fun j d other hj hd hid => ?_⟩
      rcases get_concat hj with hj | ⟨-, rfl⟩
      · exact honly j d other hj hd hid
      · cases hd
    · cases hc
  · intro i j c d hi hj hsame hne hwait hoverlap
    rcases get_concat hi with hi | ⟨-, rfl⟩
    · rcases get_concat hj with hj | ⟨hj, rfl⟩
      · exact h.waits i j c d hi hj hsame hne hwait hoverlap
      · have hmem := List.mem_of_getElem? hi
        rcases hoverlap with hmet | hmet
        · obtain ⟨c', hi', hprogress⟩ := mem_current hmet
          rw [hi, Option.some_inj] at hi'
          rw [← hi'] at hprogress
          exact hholds (fun hnil => hne (hsame.trans hnil)) c hmem hsame hprogress
        · have hlt := h.met c hmem j hmet
          omega
    · rintro job ⟨⟩
  · intro i j c d a b hi hj hsame hoverlap ha hb
    rcases get_concat hi with hi | ⟨-, rfl⟩
    · rcases get_concat hj with hj | ⟨-, rfl⟩
      · exact h.same i j c d a b hi hj hsame hoverlap ha hb
      · cases hb
    · cases ha
  · intro c hc hmodel job hjob
    rcases List.mem_append.mp hc with hc | hc
    · exact h.blank c hc hmodel job hjob
    · rw [List.mem_singleton.mp hc] at hjob
      cases hjob
  · intro c hc i hi
    rw [List.length_append]
    rcases List.mem_append.mp hc with hc | hc
    · exact Nat.lt_add_right _ (h.met c hc i hi)
    · rw [List.mem_singleton.mp hc] at hi
      exact Nat.lt_add_right _ (List.mem_range.mp (List.mem_filter.mp hi).1)

/-- The job that a search finds is the one that the calls it overlaps have got. -/
theorem Inv.search {fakeMode : Bool} {s : Admission} (h : Inv fakeMode s) {i : Nat} {c : Call}
    (hi : s.calls[i]? = some c) (hc : c.stage = .invoked) (epoch : Int)
    (halone : ∀ d ∈ s.calls, d.model = c.model → d.stage ≠ .missed) :
    Inv fakeMode (s.searched i c epoch) := by
  have hwaits : c.waits = true := by rw [Call.waits, hc]
  have hmem := List.mem_of_getElem? hi
  unfold searched
  split
  · rename_i hmodel
    refine h.put hi (by simp) (by simp) (by simp [Call.waits]) ?_ ?_ ?_
    · exact fun j d _ _ hne => absurd hmodel hne
    · intro j d a b hj hsame _ ha hb
      rw [h.blank d (List.mem_of_getElem? hj) (hsame ▸ hmodel) b hb, ← Option.some.inj ha]
      rfl
    · intro _ job hjob
      rw [← Option.some.inj hjob]
      rfl
  · rename_i hmodel
    cases hfind : s.find c.model with
    | some p =>
      have hp : p ∈ s.pulls := List.mem_of_find?_eq_some hfind
      have hfound := List.find?_some hfind
      rw [decide_eq_true_eq] at hfound
      refine h.put hi (by simp) (by simp) (by simp [Call.waits]) ?_ ?_ ?_
      · intro j d hj hsame hne hwait hoverlap job hjob
        rw [← Option.some.inj hjob]
        exact ⟨p, hp, rfl, hfound⟩
      · intro j d a b hj hsame hoverlap ha hb
        obtain ⟨q, hq, hqid, hqm, hqa⟩ :=
          h.waits j i d c hj hi hsame.symm (hsame ▸ hmodel) hwaits hoverlap.symm b hb
        have heq := h.one p hp q hq (by rw [hfound.1, hqm, hsame]) hfound.2 hqa
        rw [← Option.some.inj ha, ← hqid, ← heq]
        rfl
      · exact fun hnil => absurd hnil hmodel
    | none =>
      refine h.put hi (fun _ => ⟨hmodel, ?_, ?_⟩) (by simp) (fun _ => hwaits) ?_ ?_ ?_
      · intro p hp hpm
        have hnot := List.find?_eq_none.mp hfind p hp
        rw [decide_eq_true_eq, not_and] at hnot
        exact Bool.not_eq_true _ ▸ hnot hpm
      · exact fun d hd hmissed hsame => halone d hd hsame hmissed
      · rintro j d - - - - - job ⟨⟩
      · rintro j d a b - - - ⟨⟩
      · rintro - job ⟨⟩

/-- A call that has found nothing is the only one for its model that inserts a job. -/
theorem Inv.insert {fakeMode : Bool} {s : Admission} (h : Inv fakeMode s) {i : Nat} {c : Call}
    (hi : s.calls[i]? = some c) (hc : c.stage = .missed) (now : Nat) (epoch : Int) :
    Inv fakeMode (s.inserted i c now epoch) := by
  obtain ⟨hne, hnone, honly⟩ := h.missed i c hi hc
  have hwaits : c.waits = true := by rw [Call.waits, hc]
  have hlen : i < s.calls.length := (List.getElem?_eq_some_iff.mp hi).1
  -- the call steps aside while the job comes in, and takes it
  have haside : Inv fakeMode (s.put i c .threw) :=
    h.settle hi (by simp) (by simp) (by simp [Call.waits]) (by simp [Call.job?])
  have hadded := haside.add c.model now epoch hnone (by
    intro d hd hmissed hsame
    obtain ⟨j, hj⟩ := List.getElem?_of_mem hd
    rcases (get_put hi).mp hj with ⟨-, rfl⟩ | ⟨hji, hj⟩
    · cases hmissed
    · exact hji (honly j d hj hmissed hsame))
  have hnew : Rows.get Pull.jobId (generateJobId now (s.sequence + 1)) s.pulls = none := by
    rw [Rows.get, List.find?_eq_none]
    intro p hp hsame
    obtain ⟨now', seq, hid, hseq⟩ := h.ids p hp
    have heq := generateJobId_inj (hid.symm.trans (of_decide_eq_true hsame))
    omega
  have hresult : s.inserted i c now epoch =
      Admission.put { s.put i c .threw with
        pulls := s.pulls ++ [⟨newJob c.model now (s.sequence + 1) epoch, []⟩]
        sequence := s.sequence + 1 } i { c with stage := .threw }
          (.inserted (newJob c.model now (s.sequence + 1) epoch)) := by
    have hrows : Rows.put Pull.jobId ⟨newJob c.model now (s.sequence + 1) epoch, []⟩ s.pulls = _ :=
      Rows.put_of_get_none Pull.jobId hnew
    rw [inserted, hrows]
    simp [Admission.put]
  have hi' : (s.put i c .threw).calls[i]? = some { c with stage := .threw } :=
    (get_put hi).mpr (.inl ⟨rfl, rfl⟩)
  have hstored : (⟨newJob c.model now (s.sequence + 1) epoch, []⟩ : Pull) ∈
      s.pulls ++ [⟨newJob c.model now (s.sequence + 1) epoch, []⟩] := by simp
  rw [hresult]
  refine hadded.put hi' (by simp) ?_ (by simp [Call.waits]) ?_ ?_ (fun hnil => absurd hnil hne)
  · rintro job ⟨⟩
    refine ⟨⟨_, hstored, rfl, rfl, fun _ => rfl⟩, fun d hd other hother hid => ?_⟩
    obtain ⟨j, hj⟩ := List.getElem?_of_mem hd
    rcases (get_put hi).mp hj with ⟨-, rfl⟩ | ⟨-, hj⟩
    · cases hother
    · obtain ⟨⟨p, hp, hpid, -⟩, -⟩ := h.fresh j d other hj hother
      exact absurd (decide_eq_true (hpid.trans hid)) (List.find?_eq_none.mp hnew p hp)
  · rintro j d hj hsame - hwait hoverlap job ⟨⟩
    exact ⟨_, hstored, rfl, rfl, rfl⟩
  · intro j d a b hj hsame hoverlap ha hb
    rcases (get_put hi).mp hj with ⟨-, rfl⟩ | ⟨-, hj⟩
    · cases hb
    · obtain ⟨p, hp, -, hpm, hpa⟩ :=
        h.waits j i d c hj hi hsame.symm (hsame ▸ hne) hwaits hoverlap.symm b hb
      rw [hnone p hp (hpm.trans hsame.symm)] at hpa
      cases hpa

theorem Steady.active {w : PullWrite} {rest : List PullWrite} (h : Steady (w :: rest))
    (hrest : rest ≠ []) : PullWrite.Active w ∧ Steady rest := by
  obtain ⟨ws, last, heq, hws⟩ := h
  cases ws with
  | nil =>
    cases last with
    | none => cases heq
    | some v =>
      have hnil := (List.cons.inj heq).2
      exact absurd hnil hrest
  | cons v ws =>
    obtain ⟨rfl, hrest'⟩ := List.cons.inj heq
    obtain ⟨hw, hws⟩ := List.forall_mem_cons.mp hws
    exact ⟨hw, ws, last, hrest', hws⟩

theorem steady_runPull {parse : Bytes → Option Json} {getLongLong : Json → Except Bytes Int}
    (clock : Nat → Int) (exchange : Exchange) :
    Steady (runPull parse getLongLong clock exchange) := by
  obtain ⟨ws, last, hruns, hws, -⟩ :=
    runPull_eq parse getLongLong clock exchange
  refine ⟨.start (clock 0) :: ws, last, hruns, List.forall_mem_cons.mpr ⟨?_, hws⟩⟩
  rintro status ⟨⟩
  rfl

theorem active_apply {job : PullJob} {w : PullWrite} (hjob : job.status.active = true)
    (hw : PullWrite.Active w) : (w.apply job).status.active = true := by
  have hall : ∀ v ∈ [w], PullWrite.Active v := by simpa using hw
  exact active_jobAfter hjob hall

/-- The thread of a job begins. -/
theorem Inv.spawn {s : Admission} (h : Inv false s) {i : Nat} {c : Call} {job : PullJob}
    (hi : s.calls[i]? = some c) (hc : c.stage = .inserted job) {writes : List PullWrite}
    (hsteady : Steady writes) :
    Inv false ((s.mapJob job.jobId fun p => { p with thread := writes }).put i c
      (.answered job)) := by
  have hjob : c.job? = some job := by rw [Call.job?, hc]
  obtain ⟨⟨p, hp, hpid, -, hpa⟩, honly⟩ := h.fresh i c job hi hc
  have hanswered : Inv false (s.put i c (.answered job)) :=
    h.settle hi (by simp) (by simp) (by simp [Call.waits]) (fun a ha => hjob.trans ha)
  refine hanswered.mapPulls (f := fun p => if p.jobId = job.jobId then _ else p) ?_ ?_ ?_ ?_ ?_ ?_ ?_
  · intro q
    split <;> rfl
  · intro q
    split <;> rfl
  · intro q _ hqa
    split at hqa <;> exact hqa
  · intro q hq hthread
    split
    · rename_i hqid
      have hsame : q = p := List.inj_on_of_nodup_map h.keys hq hp (hqid.trans hpid.symm)
      refine ⟨?_, hsteady⟩
      rw [hsame]
      exact hpa rfl
    · rename_i hqid
      rw [if_neg hqid] at hthread
      exact h.threads q hq hthread
  · rintro ⟨⟩
  · intro d other hd hdother q hq hqid hqthread
    obtain ⟨j, hj⟩ := List.getElem?_of_mem hd
    rcases (get_put hi).mp hj with ⟨-, rfl⟩ | ⟨hji, hj⟩
    · cases hdother
    · have hne : q.jobId ≠ job.jobId := fun hid => hji (honly j d other hj hdother (hqid ▸ hid))
      rw [if_neg hne]
      exact ⟨hqthread, fun _ hqa => hqa⟩
  · intro q _ hqa hended
    have hsame : Pull.active (if q.jobId = job.jobId then { q with thread := writes } else q) =
        q.active := by split <;> rfl
    rw [hsame, hqa] at hended
    cases hended

theorem write_still {p : Pull} (h : p.thread = []) : p.write = p := by
  rw [Pull.write, h]

theorem write_jobId (p : Pull) : p.write.jobId = p.jobId := by
  unfold Pull.write
  split
  · rfl
  · rename_i w rest _
    cases w <;> rfl

theorem write_model (p : Pull) : p.write.job.model = p.job.model := by
  unfold Pull.write
  split
  · rfl
  · exact jobAfter_model p.job [_]

/-- A thread that has something left to write has not ended its job. -/
theorem Inv.write_goes {fakeMode : Bool} {s : Admission} (h : Inv fakeMode s) {p : Pull}
    (hp : p ∈ s.pulls) (hthread : p.write.thread ≠ []) :
    p.write.active = true ∧ Steady p.write.thread := by
  cases hrest : p.thread with
  | nil =>
    rw [write_still hrest] at hthread
    exact absurd hrest hthread
  | cons w rest =>
    obtain ⟨hpa, hsteady⟩ := h.threads p hp (by simp [hrest])
    simp only [Pull.write, hrest] at hthread ⊢
    obtain ⟨hw, hsteady'⟩ := (hrest ▸ hsteady).active hthread
    exact ⟨active_apply hpa hw, hsteady'⟩

theorem Inv.write {fakeMode : Bool} {s : Admission} (h : Inv fakeMode s) (jobId : Bytes)
    (hended : ∀ p ∈ s.pulls, p.jobId = jobId → p.write.active = false → s.Unawaited jobId) :
    Inv fakeMode (s.mapJob jobId Pull.write) := by
  have hactive : ∀ p ∈ s.pulls, p.write.active = true → p.active = true := by
    intro p hp hpa
    by_cases hthread : p.thread = []
    · rwa [write_still hthread] at hpa
    · exact (h.threads p hp hthread).1
  refine h.mapPulls (f := fun p => if p.jobId = jobId then p.write else p) ?_ ?_ ?_ ?_ ?_ ?_ ?_
  · intro p
    split
    · exact write_jobId p
    · rfl
  · intro p
    split
    · exact write_model p
    · rfl
  · intro p hp hpa
    split at hpa
    · exact hactive p hp hpa
    · exact hpa
  · intro p hp hthread
    split at hthread
    · rename_i hpid
      rw [if_pos hpid]
      exact h.write_goes hp hthread
    · rename_i hpid
      rw [if_neg hpid]
      exact h.threads p hp hthread
  · intro hmode p hp
    have hnil := h.fake hmode p hp
    split
    · rw [write_still hnil, hnil]
    · exact hnil
  · intro c job _ _ p _ _ hthread
    rw [write_still hthread, ite_self]
    exact ⟨hthread, fun _ hpa => hpa⟩
  · intro p hp hpa hpe
    split at hpe
    · rename_i hpid
      exact hpid ▸ hended p hp hpid hpe
    · rw [hpa] at hpe
      cases hpe

theorem Inv.completeFake {s : Admission} (h : Inv true s) (epoch : Int)
    (hended : ∀ p ∈ s.pulls, p.job.status = .queued → s.Unawaited p.jobId) :
    Inv true { s with pulls := s.pulls.map (completedFake epoch) } := by
  have hthread : ∀ p, (completedFake epoch p).thread = p.thread := by
    intro p
    unfold completedFake
    split <;> rfl
  have hactive : ∀ p, (completedFake epoch p).active =
      (p.active && !decide (p.job.status = .queued)) := by
    intro p
    unfold completedFake
    split
    · rename_i hqueued
      simp [Pull.active, hqueued, PullStatus.active]
    · rename_i hqueued
      simp [hqueued]
  refine h.mapPulls ?_ ?_ ?_ ?_ ?_ ?_ ?_
  · intro p
    unfold completedFake
    split <;> rfl
  · intro p
    unfold completedFake
    split <;> rfl
  · intro p _ hpa
    rw [hactive, Bool.and_eq_true] at hpa
    exact hpa.1
  · intro p hp hne
    rw [hthread] at hne
    exact absurd (h.fake rfl p hp) hne
  · intro _ p hp
    rw [hthread]
    exact h.fake rfl p hp
  · intro c job _ _ p _ _ hnil
    rw [hthread]
    exact ⟨hnil, by simp⟩
  · intro p hp hpa hpe
    rw [hactive, hpa, Bool.true_and, Bool.not_eq_false', decide_eq_true_eq] at hpe
    exact hended p hp hpe

section Runs
variable {parse : Bytes → Option Json} {getLongLong : Json → Except Bytes Int} {fakeMode : Bool}

theorem Inv.step {s t : Admission} {l : Step} (h : Inv fakeMode s) (hok : Exclusive s l)
    (hstep : step parse getLongLong fakeMode s l = some t) : Inv fakeMode t := by
  cases l with
  | invoke model =>
    cases hstep
    exact h.invoke model hok
  | search i epoch =>
    simp only [Admission.step] at hstep
    split at hstep
    · rename_i c hi
      split at hstep
      · rename_i hc
        cases hstep
        exact h.search hi hc epoch fun d hd hsame => hok c d hi hd hsame
      · cases hstep
    · cases hstep
  | insert i now epoch =>
    simp only [Admission.step] at hstep
    split at hstep
    · rename_i c hi
      split at hstep
      · rename_i hc
        cases hstep
        exact h.insert hi hc now epoch
      · cases hstep
    · cases hstep
  | spawn i exchange clock started =>
    simp only [Admission.step] at hstep
    split at hstep
    · rename_i c hi
      split at hstep
      · rename_i job hc
        cases hstep
        have hjob : c.job? = some job := by rw [Call.job?, hc]
        unfold spawned
        split
        · exact h.settle hi (by simp) (by simp) (by simp [Call.waits]) (fun a ha => hjob.trans ha)
        · rename_i hmode
          rw [Bool.not_eq_true] at hmode
          subst hmode
          split
          · exact h.spawn hi hc (steady_runPull clock exchange)
          · exact h.settle hi (by simp) (by simp) (by simp [Call.waits]) (by simp [Call.job?])
      · cases hstep
    · cases hstep
  | back i =>
    simp only [Admission.step] at hstep
    split at hstep
    · rename_i c hi
      split at hstep
      · rename_i job hc
        cases hstep
        have hjob : c.job? = some job := by rw [Call.job?, hc]
        exact h.settle hi (by simp) (by simp) (by simp [Call.waits]) (fun a ha => hjob.trans ha)
      · cases hstep
    · cases hstep
  | write jobId =>
    cases hstep
    exact h.write jobId hok
  | completeFake epoch =>
    simp only [Admission.step] at hstep
    split at hstep
    · rename_i hmode
      cases hstep
      subst hmode
      exact h.completeFake epoch hok
    · cases hstep

end Runs

/-- The job that a call gets where nothing comes between its search and its insertion is the one
of `Client.startPull`. -/
theorem startPull_alone {c : Client} {s : Admission} (h : c.pulls = s.pulls.map Pull.job)
    (model : Bytes) (now : Nat) (epoch : Int) :
    (c.startPull model now (s.sequence + 1) epoch).1 =
      if model = [] then missingModel epoch
      else
        match s.find model with
        | some p => p.job
        | none => newJob model now (s.sequence + 1) epoch := by
  have hfind : (c.pulls.find? fun job => job.model = model ∧ job.status.active) =
      (s.find model).map Pull.job := by
    rw [h, List.find?_map]
    rfl
  unfold Client.startPull
  split
  · rfl
  · rw [hfind]
    cases s.find model <;> rfl

def llama : Bytes := ascii "llama"

/-- Two calls that search before either of them inserts. -/
def twoSearches : List Step :=
  [.invoke llama, .invoke llama, .search 0 5, .search 1 5, .insert 0 7 5, .insert 1 7 5,
    .spawn 0 (.answered 200 []) (fun _ => 5) true, .spawn 1 (.answered 200 []) (fun _ => 5) true,
    .back 0, .back 1]

def twoPulls : Admission where
  pulls := [⟨newJob llama 7 1 5, [.start 5]⟩, ⟨newJob llama 7 2 5, [.start 5]⟩]
  calls := [⟨llama, [], .returned (newJob llama 7 1 5)⟩, ⟨llama, [0], .returned (newJob llama 7 2 5)⟩]
  sequence := 2

theorem run_twoSearches :
    Machine.run (step (fun _ => none) integer false) {} twoSearches = some twoPulls := by
  rfl

def oneSearch : List Step :=
  [.invoke llama, .search 0 5, .insert 0 7 5, .spawn 0 (.answered 200 []) (fun _ => 5) true, .back 0]

end Admission

end PullJobs

end HolderDaemon
