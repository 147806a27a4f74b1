import HolderDaemon.Machine

/-!
The serial executor (`core/SerialExecutor.h`, `core/SerialExecutor.cpp`): threads that submit
tasks or call through them, threads that stop it, and its one worker. A step is a critical
section, a notification, or the end of a task; a wait may also end without a notification.
-/

set_option autoImplicit false

namespace HolderDaemon

namespace SerialExecutor

universe u v

section Executor
variable {τ : Type u} {θ : Type v}

/-- What a thread wants run: through `submit`, or through `call` and its future. -/
structure Job (τ : Type u) where
  isCall : Bool
  payload : τ

/-- A job on the queue, numbered in the order of the pushes. -/
structure Task (τ : Type u) where
  ticket : Nat
  job : Job τ

inductive Caller (τ : Type u) where
  | idle
  | submitting (job : Job τ)
  | waitingSpace (job : Job τ)
  | notifying (isCall : Bool) (ticket : Nat)
  /-- In `future.get()`; without a ticket the task was never queued. -/
  | awaiting (ticket : Option Nat)
  | stopping
  | stoppingSpace
  | joining

inductive Worker (τ : Type u) where
  | entering
  | waiting
  | popped (task : Task τ)
  | running (task : Task τ)
  | returned
  /-- A task threw out of the thread's function, and the process ends. -/
  | terminated

def Worker.task : Worker τ → Option (Task τ)
  | .popped task => some task
  | .running task => some task
  | _ => none

/-- `ran` holds the tickets of the tasks that have ended, in order. -/
structure Executor (τ : Type u) (θ : Type v) where
  maxPendingTasks : Nat
  queue : List (Task τ) := []
  stopRequested : Bool := false
  worker : Worker τ := .entering
  threads : θ → Caller τ := fun _ => .idle
  pushed : Nat := 0
  ran : List Nat := []

inductive Step (τ : Type u) (θ : Type v) where
  | begin (thread : θ) (job : Job τ)
  | enter (thread : θ)
  | wakeSpace (thread : θ)
  | notify (thread : θ)
  | get (thread : θ)
  | stop (thread : θ)
  | notifyStop (thread : θ)
  | notifyStopSpace (thread : θ)
  | joined (thread : θ)
  | workerEnter
  | workerWake
  | workerNotify
  | workerFinish (throws : Bool)

def wake : Worker τ → Worker τ
  | .waiting => .entering
  | w => w

def wakeSpace : Caller τ → Caller τ
  | .waitingSpace job => .submitting job
  | c => c

variable [DecidableEq θ]

namespace Executor

def set (s : Executor τ θ) (thread : θ) (c : Caller τ) : Executor τ θ :=
  { s with threads := Function.update s.threads thread c }

/-- `submit` with the mutex: the wait for space, the stop flag, and the push. -/
def enter (s : Executor τ θ) (thread : θ) (job : Job τ) : Executor τ θ :=
  if 0 < s.maxPendingTasks ∧ s.stopRequested = false ∧ s.maxPendingTasks ≤ s.queue.length then
    s.set thread (.waitingSpace job)
  else if s.stopRequested then s.set thread (if job.isCall then .awaiting none else .idle)
  else
    { s.set thread (.notifying job.isCall s.pushed) with
      queue := s.queue ++ [⟨s.pushed, job⟩]
      pushed := s.pushed + 1 }

/-- The worker's wait, its end, or the pop. -/
def workerEnter (s : Executor τ θ) : Executor τ θ :=
  match s.queue with
  | [] => { s with worker := if s.stopRequested then .returned else .waiting }
  | task :: rest => { s with queue := rest, worker := .popped task }

/-- A call's task keeps what it throws for the future. -/
def workerFinish (s : Executor τ θ) (task : Task τ) (throws : Bool) : Executor τ θ :=
  if throws && !task.job.isCall then { s with worker := .terminated }
  else { s with worker := .entering, ran := s.ran ++ [task.ticket] }

def step (s : Executor τ θ) : Step τ θ → Option (Executor τ θ)
  | .begin thread job =>
    match s.threads thread with
    | .idle => some (s.set thread (.submitting job))
    | _ => none
  | .enter thread =>
    match s.threads thread with
    | .submitting job => some (s.enter thread job)
    | _ => none
  | .wakeSpace thread =>
    match s.threads thread with
    | .waitingSpace job => some (s.set thread (.submitting job))
    | _ => none
  | .notify thread =>
    match s.threads thread with
    | .notifying isCall ticket =>
      some { s.set thread (if isCall then .awaiting (some ticket) else .idle) with
        worker := wake s.worker }
    | _ => none
  | .get thread =>
    match s.threads thread with
    | .awaiting (some ticket) => if ticket ∈ s.ran then some (s.set thread .idle) else none
    | _ => none
  | .stop thread =>
    match s.threads thread with
    | .idle =>
      some { s.set thread (if s.stopRequested then .idle else .stopping) with
        stopRequested := true }
    | _ => none
  | .notifyStop thread =>
    match s.threads thread with
    | .stopping => some { s.set thread .stoppingSpace with worker := wake s.worker }
    | _ => none
  | .notifyStopSpace thread =>
    match s.threads thread with
    | .stoppingSpace =>
      some { s with
        threads := Function.update (fun t => SerialExecutor.wakeSpace (s.threads t)) thread
          .joining }
    | _ => none
  | .joined thread =>
    match s.threads thread, s.worker with
    | .joining, .returned => some (s.set thread .idle)
    | _, _ => none
  | .workerEnter =>
    match s.worker with
    | .entering => some s.workerEnter
    | _ => none
  | .workerWake =>
    match s.worker with
    | .waiting => some { s with worker := .entering }
    | _ => none
  | .workerNotify =>
    match s.worker with
    | .popped task =>
      some { s with
        worker := .running task
        threads := fun t => SerialExecutor.wakeSpace (s.threads t) }
    | _ => none
  | .workerFinish throws =>
    match s.worker with
    | .running task => some (s.workerFinish task throws)
    | _ => none

end Executor

/-! What holds in every run -/

/-- A notification of the worker is on its way. -/
def Caller.wakesWorker : Caller τ → Bool
  | .notifying _ _ => true
  | .stopping => true
  | _ => false

/-- A notification of the threads that wait for space is on its way. -/
def Caller.wakesSpace : Caller τ → Bool
  | .stopping => true
  | .stoppingSpace => true
  | _ => false

def Worker.wakesSpace : Worker τ → Bool
  | .popped _ => true
  | _ => false

/-- The tasks are run one at a time in the order of the pushes, each once; the queue keeps its
bound; the worker ends with an empty queue; no wake-up is lost; and a thread in `future.get()`
has its task queued, running or ended. -/
structure Sound (s : Executor τ θ) : Prop where
  order : s.ran ++ (s.worker.task.toList ++ s.queue).map Task.ticket = List.range s.pushed
  bounded : 0 < s.maxPendingTasks → s.queue.length ≤ s.maxPendingTasks
  drained : s.worker = .returned → s.queue = [] ∧ s.stopRequested = true
  alive : s.worker ≠ .terminated
  awake : s.worker = .waiting →
    (s.queue = [] ∧ s.stopRequested = false) ∨ ∃ t, (s.threads t).wakesWorker = true
  spaceAwake : ∀ t job, s.threads t = .waitingSpace job →
    (s.maxPendingTasks ≤ s.queue.length ∧ s.stopRequested = false) ∨
      s.worker.wakesSpace = true ∨ ∃ t', (s.threads t').wakesSpace = true
  notified : ∀ t isCall ticket, s.threads t = .notifying isCall ticket → ticket < s.pushed
  placed : ∀ t ticket, s.threads t = .awaiting ticket → ∃ k, ticket = some k ∧ k < s.pushed

/-- No call gets past its wait for space when a stop has been requested, and no task that was
given to `submit` throws. -/
def Harmless (s : Executor τ θ) : Step τ θ → Prop
  | .enter thread => ∀ job, s.threads thread = .submitting job → job.isCall = true →
      s.stopRequested = false
  | .workerFinish throws => throws = true → ∀ task, s.worker = .running task →
      task.job.isCall = true
  | _ => True

@[simp] theorem set_threads (s : Executor τ θ) (thread : θ) (c : Caller τ) :
    (s.set thread c).threads = Function.update s.threads thread c := rfl

@[simp] theorem task_wake (w : Worker τ) : (wake w).task = w.task := by
  cases w <;> rfl

theorem wake_ne_waiting (w : Worker τ) : wake w ≠ .waiting := by
  cases w <;> simp [wake]

@[simp] theorem wakesSpace_wake (w : Worker τ) : (wake w).wakesSpace = w.wakesSpace := by
  cases w <;> rfl

theorem wake_eq_returned {w : Worker τ} : wake w = .returned ↔ w = .returned := by
  cases w <;> simp [wake]

theorem wake_eq_terminated {w : Worker τ} : wake w = .terminated ↔ w = .terminated := by
  cases w <;> simp [wake]

theorem wakeSpace_ne_waitingSpace (c : Caller τ) (job : Job τ) :
    wakeSpace c ≠ .waitingSpace job := by
  cases c <;> simp [wakeSpace]

@[simp] theorem wakesWorker_wakeSpace (c : Caller τ) :
    (wakeSpace c).wakesWorker = c.wakesWorker := by
  cases c <;> rfl

theorem wakeSpace_eq_notifying {c : Caller τ} {isCall : Bool} {ticket : Nat} :
    wakeSpace c = .notifying isCall ticket ↔ c = .notifying isCall ticket := by
  cases c <;> simp [wakeSpace]

theorem wakeSpace_eq_awaiting {c : Caller τ} {ticket : Option Nat} :
    wakeSpace c = .awaiting ticket ↔ c = .awaiting ticket := by
  cases c <;> simp [wakeSpace]

/-- Some other thread's notification stays on its way. -/
theorem exists_update {p : Caller τ → Bool} {threads : θ → Caller τ} {thread : θ} {c : Caller τ}
    (h : ∃ t, p (threads t) = true) (hthread : p (threads thread) = false ∨ p c = true) :
    ∃ t, p (Function.update threads thread c t) = true := by
  obtain ⟨t, ht⟩ := h
  by_cases heq : t = thread
  · subst heq
    refine ⟨t, ?_⟩
    rw [Function.update_self]
    exact hthread.resolve_left (by simp [ht])
  · exact ⟨t, by rwa [Function.update_of_ne heq]⟩

/-- A step of one thread that takes back no notification that is waited for. -/
theorem Sound.set {s : Executor τ θ} (h : Sound s) {thread : θ} {c : Caller τ}
    (hworker : s.worker ≠ .waiting ∨ (s.threads thread).wakesWorker = false)
    (hspace : (s.threads thread).wakesSpace = false ∨ c.wakesSpace = true ∨
      ∀ t job, s.threads t ≠ .waitingSpace job)
    (hwaits : ∀ job, c = .waitingSpace job →
      s.maxPendingTasks ≤ s.queue.length ∧ s.stopRequested = false)
    (hnotified : ∀ isCall ticket, c = .notifying isCall ticket → ticket < s.pushed)
    (hplaced : ∀ ticket, c = .awaiting ticket → ∃ k, ticket = some k ∧ k < s.pushed) :
    Sound (s.set thread c) where
  order := h.order
  bounded := h.bounded
  drained := h.drained
  alive := h.alive
  awake := fun hw => by
    rcases h.awake hw with hidle | hpending
    · exact .inl hidle
    · exact .inr (exists_update hpending (.inl (hworker.resolve_left (not_not.mpr hw))))
  spaceAwake := fun t job ht => by
    rw [set_threads] at ht ⊢
    by_cases heq : t = thread
    · subst heq
      rw [Function.update_self] at ht
      exact .inl (hwaits job ht)
    · rw [Function.update_of_ne heq] at ht
      rcases h.spaceAwake t job ht with hfull | hpopped | hpending
      · exact .inl hfull
      · exact .inr (.inl hpopped)
      · refine .inr (.inr (exists_update hpending ?_))
        rcases hspace with hold | hnew | hnone
        · exact .inl hold
        · exact .inr hnew
        · exact absurd ht (hnone t job)
  notified := fun t isCall ticket ht => by
    rw [set_threads] at ht
    by_cases heq : t = thread
    · subst heq
      rw [Function.update_self] at ht
      exact hnotified isCall ticket ht
    · rw [Function.update_of_ne heq] at ht
      exact h.notified t isCall ticket ht
  placed := fun t ticket ht => by
    rw [set_threads] at ht
    by_cases heq : t = thread
    · subst heq
      rw [Function.update_self] at ht
      exact hplaced ticket ht
    · rw [Function.update_of_ne heq] at ht
      exact h.placed t ticket ht

omit [DecidableEq θ] in
theorem Sound.wake {s : Executor τ θ} (h : Sound s) :
    Sound { s with worker := SerialExecutor.wake s.worker } where
  order := by simpa using h.order
  bounded := h.bounded
  drained := fun hw => h.drained (wake_eq_returned.mp hw)
  alive := fun hw => h.alive (wake_eq_terminated.mp hw)
  awake := fun hw => absurd hw (wake_ne_waiting s.worker)
  spaceAwake := fun t job ht => by simpa using h.spaceAwake t job ht
  notified := h.notified
  placed := h.placed

omit [DecidableEq θ] in
theorem Sound.wakeSpace {s : Executor τ θ} (h : Sound s) :
    Sound { s with threads := fun t => SerialExecutor.wakeSpace (s.threads t) } where
  order := h.order
  bounded := h.bounded
  drained := h.drained
  alive := h.alive
  awake := fun hw => by simpa using h.awake hw
  spaceAwake := fun t job ht => absurd ht (wakeSpace_ne_waitingSpace _ job)
  notified := fun t isCall ticket ht => h.notified t isCall ticket (wakeSpace_eq_notifying.mp ht)
  placed := fun t ticket ht => h.placed t ticket (wakeSpace_eq_awaiting.mp ht)

theorem Sound.enter {s : Executor τ θ} (h : Sound s) {thread : θ} {job : Job τ}
    (hthread : s.threads thread = .submitting job)
    (hok : job.isCall = true → s.stopRequested = false) : Sound (s.enter thread job) := by
  unfold Executor.enter
  split
  · rename_i hfull
    refine h.set (.inr (by rw [hthread]; rfl)) (.inl (by rw [hthread]; rfl)) ?_ (by simp) (by simp)
    intro _ _
    exact ⟨hfull.2.2, hfull.2.1⟩
  · rename_i hspace
    split
    · rename_i hstop
      have hsubmit : job.isCall = false := by
        by_contra hcall
        rw [Bool.not_eq_false] at hcall
        rw [hok hcall] at hstop
        cases hstop
      rw [hsubmit]
      exact h.set (.inr (by rw [hthread]; rfl)) (.inl (by rw [hthread]; rfl)) (by simp) (by simp)
        (by simp)
    · rename_i hstop
      rw [Bool.not_eq_true] at hstop
      refine ⟨?_, fun hmax => ?_, fun hw => ?_, h.alive, fun _ => .inr ⟨thread, ?_⟩,
        fun t j ht => ?_, fun t isCall ticket ht => ?_, fun t ticket ht => ?_⟩
      · show s.ran ++ (s.worker.task.toList ++ (s.queue ++ [_])).map Task.ticket =
          List.range (s.pushed + 1)
        rw [List.range_succ, ← h.order]
        simp
      · have hlt : s.queue.length < s.maxPendingTasks := by
          by_contra hge
          exact hspace ⟨hmax, hstop, Nat.not_lt.mp hge⟩
        show (s.queue ++ [_]).length ≤ s.maxPendingTasks
        simpa using hlt
      · rw [(h.drained hw).2] at hstop
        cases hstop
      · simp [Executor.set, Caller.wakesWorker]
      · simp only [Executor.set] at ht ⊢
        by_cases heq : t = thread
        · subst heq
          rw [Function.update_self] at ht
          cases ht
        · rw [Function.update_of_ne heq] at ht
          rcases h.spaceAwake t j ht with hfull | hpopped | hpending
          · refine .inl ⟨le_trans hfull.1 ?_, hfull.2⟩
            simp
          · exact .inr (.inl hpopped)
          · exact .inr (.inr (exists_update hpending (.inl (by rw [hthread]; rfl))))
      · simp only [Executor.set] at ht ⊢
        by_cases heq : t = thread
        · subst heq
          rw [Function.update_self] at ht
          cases ht
          exact Nat.lt_succ_self _
        · rw [Function.update_of_ne heq] at ht
          exact Nat.lt_succ_of_lt (h.notified t isCall ticket ht)
      · simp only [Executor.set] at ht ⊢
        by_cases heq : t = thread
        · subst heq
          rw [Function.update_self] at ht
          cases ht
        · rw [Function.update_of_ne heq] at ht
          obtain ⟨k, hk, hlt⟩ := h.placed t ticket ht
          exact ⟨k, hk, Nat.lt_succ_of_lt hlt⟩

theorem Sound.stop {s : Executor τ θ} (h : Sound s) {thread : θ}
    (hthread : s.threads thread = .idle) :
    Sound { s.set thread (if s.stopRequested then .idle else .stopping) with
      stopRequested := true } := by
  by_cases hstop : s.stopRequested = true
  · have heq : { s.set thread .idle with stopRequested := true } = s.set thread .idle := by
      rw [← hstop]
      rfl
    rw [if_pos hstop, heq]
    exact h.set (.inr (by rw [hthread]; rfl)) (.inl (by rw [hthread]; rfl)) (by simp) (by simp)
      (by simp)
  · have hself : Function.update s.threads thread .stopping thread = (.stopping : Caller τ) :=
      Function.update_self ..
    have hset : Sound (s.set thread .stopping) :=
      h.set (.inr (by rw [hthread]; rfl)) (.inl (by rw [hthread]; rfl)) (by simp) (by simp)
        (by simp)
    rw [if_neg hstop]
    refine ⟨hset.order, hset.bounded, fun hw => ⟨(hset.drained hw).1, rfl⟩, hset.alive,
      fun _ => .inr ⟨thread, ?_⟩, fun t job ht => .inr (.inr ⟨thread, ?_⟩), hset.notified,
      hset.placed⟩
    · simp only [set_threads, hself]
      rfl
    · simp only [set_threads, hself]
      rfl

omit [DecidableEq θ] in
theorem Sound.workerEnter {s : Executor τ θ} (h : Sound s) (hw : s.worker = .entering) :
    Sound s.workerEnter := by
  have horder := h.order
  rw [hw] at horder
  unfold Executor.workerEnter
  split
  · rename_i hqueue
    rw [hqueue] at horder
    refine ⟨?_, h.bounded, fun hret => ?_, ?_, fun hwait => ?_, fun t job ht => ?_, h.notified,
      h.placed⟩
    · dsimp only
      rw [hqueue]
      split <;> exact horder
    · refine ⟨hqueue, ?_⟩
      by_contra hstop
      simp_all
    · dsimp only
      split <;> simp
    · refine .inl ⟨hqueue, ?_⟩
      by_contra hstop
      simp_all
    · rcases h.spaceAwake t job ht with hfull | hpopped | hpending
      · exact .inl hfull
      · rw [hw] at hpopped
        cases hpopped
      · exact .inr (.inr hpending)
  · rename_i task rest hqueue
    rw [hqueue] at horder
    refine ⟨horder, fun hmax => ?_, by simp, by simp, by simp, fun t job ht => .inr (.inl rfl),
      h.notified, h.placed⟩
    have hle := h.bounded hmax
    rw [hqueue] at hle
    exact le_trans (Nat.le_succ _) hle

omit [DecidableEq θ] in
theorem Sound.workerFinish {s : Executor τ θ} (h : Sound s) {task : Task τ} {throws : Bool}
    (hw : s.worker = .running task) (hok : throws = true → task.job.isCall = true) :
    Sound (s.workerFinish task throws) := by
  have horder := h.order
  rw [hw] at horder
  unfold Executor.workerFinish
  rw [if_neg]
  · refine ⟨?_, h.bounded, by simp, by simp, by simp, fun t job ht => ?_, h.notified, h.placed⟩
    · simpa [Worker.task] using horder
    · rcases h.spaceAwake t job ht with hfull | hpopped | hpending
      · exact .inl hfull
      · rw [hw] at hpopped
        cases hpopped
      · exact .inr (.inr hpending)
  · intro hthrows
    rw [Bool.and_eq_true, Bool.not_eq_true'] at hthrows
    rw [hok hthrows.1] at hthrows
    cases hthrows.2

theorem Sound.step {s s' : Executor τ θ} {l : Step τ θ} (h : Sound s) (hok : Harmless s l)
    (hstep : s.step l = some s') : Sound s' := by
  cases l with
  | begin thread job =>
    simp only [Executor.step] at hstep
    split at hstep <;> cases hstep
    rename_i ht
    exact h.set (.inr (by rw [ht]; rfl)) (.inl (by rw [ht]; rfl)) (by simp) (by simp) (by simp)
  | enter thread =>
    simp only [Executor.step] at hstep
    split at hstep <;> cases hstep
    rename_i job ht
    exact h.enter ht (hok job ht)
  | wakeSpace thread =>
    simp only [Executor.step] at hstep
    split at hstep <;> cases hstep
    rename_i ht
    exact h.set (.inr (by rw [ht]; rfl)) (.inl (by rw [ht]; rfl)) (by simp) (by simp) (by simp)
  | notify thread =>
    simp only [Executor.step] at hstep
    split at hstep <;> cases hstep
    rename_i isCall ticket ht
    refine h.wake.set (.inl (wake_ne_waiting _)) (.inl (by rw [ht]; rfl)) ?_ ?_ ?_
    · cases isCall <;> simp
    · cases isCall <;> simp
    · intro k hk
      cases isCall
      · simp at hk
      · cases hk
        exact ⟨ticket, rfl, h.notified thread true ticket ht⟩
  | get thread =>
    simp only [Executor.step] at hstep
    split at hstep
    · rename_i ticket ht
      split at hstep <;> cases hstep
      exact h.set (.inr (by rw [ht]; rfl)) (.inl (by rw [ht]; rfl)) (by simp) (by simp) (by simp)
    · cases hstep
  | stop thread =>
    simp only [Executor.step] at hstep
    split at hstep <;> cases hstep
    rename_i ht
    exact h.stop ht
  | notifyStop thread =>
    simp only [Executor.step] at hstep
    split at hstep <;> cases hstep
    exact h.wake.set (.inl (wake_ne_waiting _)) (.inr (.inl rfl)) (by simp) (by simp) (by simp)
  | notifyStopSpace thread =>
    simp only [Executor.step] at hstep
    split at hstep <;> cases hstep
    rename_i ht
    refine h.wakeSpace.set (.inr ?_) (.inr (.inr fun t job => wakeSpace_ne_waitingSpace _ job))
      (by simp) (by simp) (by simp)
    show (SerialExecutor.wakeSpace (s.threads thread)).wakesWorker = false
    rw [wakesWorker_wakeSpace, ht]
    rfl
  | joined thread =>
    simp only [Executor.step] at hstep
    split at hstep <;> cases hstep
    rename_i ht _
    exact h.set (.inr (by rw [ht]; rfl)) (.inl (by rw [ht]; rfl)) (by simp) (by simp) (by simp)
  | workerEnter =>
    simp only [Executor.step] at hstep
    split at hstep <;> cases hstep
    rename_i hw
    exact h.workerEnter hw
  | workerWake =>
    simp only [Executor.step] at hstep
    split at hstep <;> cases hstep
    rename_i hw
    have hwake := h.wake
    rw [hw] at hwake
    exact hwake
  | workerNotify =>
    simp only [Executor.step] at hstep
    split at hstep <;> cases hstep
    rename_i task hw
    have horder := h.order
    rw [hw] at horder
    exact ⟨horder, h.bounded, by simp, by simp, by simp,
      fun t job ht => absurd ht (wakeSpace_ne_waitingSpace _ job), h.wakeSpace.notified,
      h.wakeSpace.placed⟩
  | workerFinish throws =>
    simp only [Executor.step] at hstep
    split at hstep <;> cases hstep
    rename_i task hw
    exact h.workerFinish hw fun hthrows => hok hthrows task hw

/-- A constructed executor, its thread begun. -/
def start (maxPendingTasks : Nat) : Executor τ θ := { maxPendingTasks := maxPendingTasks }

omit [DecidableEq θ] in
theorem Sound.start (maxPendingTasks : Nat) :
    Sound (SerialExecutor.start maxPendingTasks : Executor τ θ) where
  order := rfl
  bounded := fun _ => Nat.zero_le _
  drained := fun hw => by cases hw
  alive := fun hw => by cases hw
  awake := fun hw => by cases hw
  spaceAwake := fun _ _ ht => by cases ht
  notified := fun _ _ _ ht => by cases ht
  placed := fun _ _ ht => by cases ht

theorem Sound.run {maxPendingTasks : Nat} {ls : List (Step τ θ)} {s : Executor τ θ}
    (hok : Machine.Along Executor.step Harmless (SerialExecutor.start maxPendingTasks) ls)
    (hrun : Machine.run Executor.step (SerialExecutor.start maxPendingTasks) ls = some s) :
    Sound s :=
  Machine.run_invariant_along Executor.step (fun _ _ _ h hl hs => h.step hl hs)
    (.start maxPendingTasks) hok hrun

/-- The task is queued, with the worker, or finished. -/
def Executor.Knows (s : Executor τ θ) (ticket : Nat) : Prop :=
  ticket ∈ s.ran ∨ ticket ∈ (s.worker.task.toList ++ s.queue).map Task.ticket

/-- The thread is in `future.get()` and its task is neither queued, nor with the worker, nor
finished. -/
def Executor.Stranded (s : Executor τ θ) (thread : θ) : Prop :=
  ∃ ticket, s.threads thread = .awaiting ticket ∧ ∀ k, ticket = some k → ¬ s.Knows k

omit [DecidableEq θ] in
theorem Sound.knows {s : Executor τ θ} (h : Sound s) {k : Nat} (hk : k < s.pushed) :
    s.Knows k := by
  have hmem : k ∈ List.range s.pushed := List.mem_range.mpr hk
  rw [← h.order] at hmem
  exact List.mem_append.mp hmem

omit [DecidableEq θ] in
theorem Sound.not_stranded {s : Executor τ θ} (h : Sound s) (thread : θ) :
    ¬ s.Stranded thread := by
  rintro ⟨ticket, hthread, hlost⟩
  obtain ⟨k, hk, hlt⟩ := h.placed thread ticket hthread
  exact hlost k hk (h.knows hlt)

omit [DecidableEq θ] in
theorem Sound.all_ran {s : Executor τ θ} (h : Sound s) (hw : s.worker = .returned) :
    s.ran = List.range s.pushed := by
  have horder := h.order
  rw [hw, (h.drained hw).1] at horder
  simpa [Worker.task] using horder

/-- Where no call gets past its wait after a stop was requested and no submitted task throws,
the tasks run in order and once, the queue keeps its bound, no caller is stranded, and the
worker returns when every task has run. -/
theorem no_lost_task {maxPendingTasks : Nat} {ls : List (Step τ θ)} {s : Executor τ θ}
    (hok : Machine.Along Executor.step Harmless (start maxPendingTasks) ls)
    (hrun : Machine.run Executor.step (start maxPendingTasks) ls = some s) :
    Sound s ∧ (∀ thread, ¬ s.Stranded thread) ∧
      (s.worker = .returned → s.ran = List.range s.pushed) := by
  have h : Sound s := .run hok hrun
  exact ⟨h, h.not_stranded, h.all_ran⟩

/-- Nothing that any thread does changes a caller whose task was never queued. -/
theorem stranded_step {s s' : Executor τ θ} {l : Step τ θ} {thread : θ}
    (hstep : s.step l = some s') (hthread : s.threads thread = .awaiting none) :
    s'.threads thread = .awaiting none := by
  have hother : ∀ t c, s.threads t ≠ .awaiting none →
      Function.update s.threads t c thread = .awaiting none := by
    intro t c ht
    rw [Function.update_of_ne, hthread]
    rintro rfl
    exact ht hthread
  cases l with
  | workerEnter =>
    simp only [Executor.step] at hstep
    split at hstep <;> cases hstep
    unfold Executor.workerEnter
    split <;> exact hthread
  | workerFinish throws =>
    simp only [Executor.step] at hstep
    split at hstep <;> cases hstep
    unfold Executor.workerFinish
    split <;> exact hthread
  | workerWake =>
    simp only [Executor.step] at hstep
    split at hstep <;> cases hstep
    exact hthread
  | workerNotify =>
    simp only [Executor.step] at hstep
    split at hstep <;> cases hstep
    exact wakeSpace_eq_awaiting.mpr hthread
  | enter t =>
    simp only [Executor.step] at hstep
    split at hstep <;> cases hstep
    rename_i job ht
    unfold Executor.enter
    split
    · exact hother t _ (by simp [ht])
    · split <;> exact hother t _ (by simp [ht])
  | get t =>
    simp only [Executor.step] at hstep
    split at hstep
    · rename_i ticket ht
      split at hstep <;> cases hstep
      exact hother t _ (by simp [ht])
    · cases hstep
  | notifyStopSpace t =>
    simp only [Executor.step] at hstep
    split at hstep <;> cases hstep
    rename_i ht
    dsimp only
    rw [Function.update_of_ne, hthread]
    · rfl
    · rintro rfl
      rw [hthread] at ht
      cases ht
  | joined t =>
    simp only [Executor.step] at hstep
    split at hstep <;> cases hstep
    rename_i ht _
    exact hother t _ (by simp [ht])
  | begin t job | wakeSpace t | notify t | stop t | notifyStop t =>
    simp only [Executor.step] at hstep
    split at hstep <;> cases hstep
    rename_i ht
    exact hother t _ (by simp [ht])

theorem stranded_forever {s s' : Executor τ θ} {ls : List (Step τ θ)} {thread : θ}
    (hrun : Machine.run Executor.step s ls = some s')
    (hthread : s.threads thread = .awaiting none) : s'.threads thread = .awaiting none :=
  Machine.run_invariant Executor.step (I := fun s => s.threads thread = .awaiting none)
    (fun _ _ _ h hstep => stranded_step hstep h) hthread hrun

instance (s : Executor τ θ) : (l : Step τ θ) → Decidable (Harmless s l)
  | .enter thread =>
    match h : s.threads thread with
    | .submitting job =>
      decidable_of_iff (job.isCall = true → s.stopRequested = false)
        ⟨fun hok _ heq => by cases h.symm.trans heq; exact hok, fun hok => hok job h⟩
    | .idle | .waitingSpace _ | .notifying _ _ | .awaiting _ | .stopping | .stoppingSpace
    | .joining => isTrue fun _ heq => by cases h.symm.trans heq
  | .workerFinish throws =>
    match h : s.worker with
    | .running task =>
      decidable_of_iff (throws = true → task.job.isCall = true)
        ⟨fun hok hthrows _ heq => by cases h.symm.trans heq; exact hok hthrows,
          fun hok hthrows => hok hthrows task h⟩
    | .entering | .waiting | .popped _ | .returned | .terminated =>
      isTrue fun _ _ heq => by cases h.symm.trans heq
  | .begin _ _ | .wakeSpace _ | .notify _ | .get _ | .stop _ | .notifyStop _
  | .notifyStopSpace _ | .joined _ | .workerEnter | .workerWake | .workerNotify => isTrue trivial

end Executor

/-! A stop beside calls -/

/-- A call that is in `submit` when another thread stops the executor waits for ever. -/
theorem call_beside_stop :
    ∃ s : Executor Unit Bool,
      Machine.run Executor.step (start 1) [.begin true ⟨true, ()⟩, .stop false, .enter true] =
        some s ∧
      s.Stranded true ∧
      ∀ ls s', Machine.run Executor.step s ls = some s' → s'.threads true = .awaiting none := by
  refine ⟨_, rfl, ⟨none, rfl, by simp⟩, fun ls s' hrun => ?_⟩
  exact stranded_forever hrun rfl

/-- A call, a second one behind a full queue, and a stop after both. -/
def stopAfterCalls : List (Step Unit Bool) :=
  [.begin true ⟨true, ()⟩, .enter true, .begin false ⟨true, ()⟩, .enter false, .notify true,
    .workerEnter, .workerNotify, .enter false, .workerFinish true, .get true, .stop true,
    .notify false, .workerEnter, .notifyStop true, .workerNotify, .notifyStopSpace true,
    .workerFinish false, .workerEnter, .joined true, .get false]

theorem no_lost_task_stop :
    ∃ s, Machine.run Executor.step (start 1) stopAfterCalls = some s ∧ s.ran = [0, 1] ∧
      Sound s ∧ (∀ thread, ¬ s.Stranded thread) := by
  obtain ⟨s, hrun, htest⟩ := Machine.run_of_any Executor.step (start 1) stopAfterCalls
    (fun s => decide (s.ran = [0, 1])) (by decide +kernel)
  have h := no_lost_task (by decide +kernel) hrun
  exact ⟨s, hrun, of_decide_eq_true htest, h.1, h.2.1⟩

end SerialExecutor

end HolderDaemon
