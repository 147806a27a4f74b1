import HolderDaemon.RunnerRegistry
import HolderDaemon.SerialExecutor

/-!
Probes of manual clients (`llm/RunnerRegistry.cpp`, `llm/ExecutorRunnerClient.cpp`): every worker
has a registry of its own, and the registries submit their probes to one executor. A probe's
task refers to its client, which lives as long as a registry or a stream shares it.
-/

set_option autoImplicit false

open Bytes

namespace HolderDaemon

namespace SerialExecutor

universe u v

/-! What a step of the executor does to the tasks and to the jobs on their way to it -/

section Pending
variable {τ : Type u} {θ : Type v}

def Executor.tasks (s : Executor τ θ) : List (Task τ) := s.worker.task.toList ++ s.queue

/-- The job of a thread that is in `submit` and has not pushed it. -/
def Caller.job : Caller τ → Option (Job τ)
  | .submitting job => some job
  | .waitingSpace job => some job
  | _ => none

@[simp] theorem job_wakeSpace (c : Caller τ) : Caller.job (wakeSpace c) = Caller.job c := by
  cases c <;> rfl

variable [DecidableEq θ]

theorem job_update {threads : θ → Caller τ} {thread t : θ} {c : Caller τ} {job : Job τ}
    (h : Caller.job (Function.update threads thread c t) = some job) :
    (t = thread ∧ Caller.job c = some job) ∨ Caller.job (threads t) = some job := by
  by_cases heq : t = thread
  · subst heq
    rw [Function.update_self] at h
    exact .inl ⟨rfl, h⟩
  · rw [Function.update_of_ne heq] at h
    exact .inr h

theorem job_update_of_none {threads : θ → Caller τ} {thread t : θ} {c : Caller τ} {job : Job τ}
    (hc : Caller.job c = none)
    (h : Caller.job (Function.update threads thread c t) = some job) :
    Caller.job (threads t) = some job := by
  rcases job_update h with ⟨-, hj⟩ | hold
  · rw [hc] at hj
    cases hj
  · exact hold

/-- A job gets to a thread by its `begin` only. -/
theorem job_step {s s' : Executor τ θ} {l : Step τ θ} {t : θ} {job : Job τ}
    (hstep : s.step l = some s') (h : Caller.job (s'.threads t) = some job) :
    Caller.job (s.threads t) = some job ∨ l = .begin t job := by
  cases l with
  | begin thread j =>
    simp only [Executor.step] at hstep
    split at hstep <;> cases hstep
    rcases job_update h with ⟨rfl, hj⟩ | hold
    · cases hj
      exact .inr rfl
    · exact .inl hold
  | enter thread =>
    simp only [Executor.step] at hstep
    split at hstep <;> cases hstep
    rename_i j ht
    unfold Executor.enter at h
    left
    split at h
    · rcases job_update h with ⟨rfl, hj⟩ | hold
      · cases hj
        rw [ht]
        rfl
      · exact hold
    · split at h
      · exact job_update_of_none (by split <;> rfl) h
      · exact job_update_of_none rfl h
  | wakeSpace thread =>
    simp only [Executor.step] at hstep
    split at hstep <;> cases hstep
    rename_i j ht
    rcases job_update h with ⟨rfl, hj⟩ | hold
    · cases hj
      rw [ht]
      exact .inl rfl
    · exact .inl hold
  | notify thread =>
    simp only [Executor.step] at hstep
    split at hstep <;> cases hstep
    exact .inl (job_update_of_none (by split <;> rfl) h)
  | get thread =>
    simp only [Executor.step] at hstep
    split at hstep
    · split at hstep <;> cases hstep
      exact .inl (job_update_of_none rfl h)
    · cases hstep
  | stop thread =>
    simp only [Executor.step] at hstep
    split at hstep <;> cases hstep
    exact .inl (job_update_of_none (by split <;> rfl) h)
  | notifyStop thread =>
    simp only [Executor.step] at hstep
    split at hstep <;> cases hstep
    exact .inl (job_update_of_none rfl h)
  | notifyStopSpace thread =>
    simp only [Executor.step] at hstep
    split at hstep <;> cases hstep
    dsimp only at h
    have hold := job_update_of_none rfl h
    rw [job_wakeSpace] at hold
    exact .inl hold
  | joined thread =>
    simp only [Executor.step] at hstep
    split at hstep <;> cases hstep
    exact .inl (job_update_of_none rfl h)
  | workerEnter =>
    simp only [Executor.step] at hstep
    split at hstep <;> cases hstep
    unfold Executor.workerEnter at h
    split at h <;> exact .inl h
  | workerWake =>
    simp only [Executor.step] at hstep
    split at hstep <;> cases hstep
    exact .inl h
  | workerNotify =>
    simp only [Executor.step] at hstep
    split at hstep <;> cases hstep
    exact .inl (by simpa using h)
  | workerFinish throws =>
    simp only [Executor.step] at hstep
    split at hstep <;> cases hstep
    unfold Executor.workerFinish at h
    split at h <;> exact .inl h

/-- A task gets to the executor from the thread that submits its job only. -/
theorem tasks_step {s s' : Executor τ θ} {l : Step τ θ} {task : Task τ}
    (hstep : s.step l = some s') (h : task ∈ Executor.tasks s') :
    task ∈ Executor.tasks s ∨ ∃ t, Caller.job (s.threads t) = some task.job := by
  cases l with
  | enter thread =>
    simp only [Executor.step] at hstep
    split at hstep <;> cases hstep
    rename_i job ht
    unfold Executor.enter at h
    split at h
    · exact .inl h
    · split at h
      · exact .inl h
      · rcases List.mem_append.mp h with hworker | hqueue
        · exact .inl (List.mem_append_left _ hworker)
        · rcases List.mem_append.mp hqueue with hold | hnew
          · exact .inl (List.mem_append_right _ hold)
          · rw [List.mem_singleton] at hnew
            exact .inr ⟨thread, by rw [ht, hnew]; rfl⟩
  | notify thread =>
    simp only [Executor.step] at hstep
    split at hstep <;> cases hstep
    simp only [Executor.tasks, task_wake] at h
    exact .inl h
  | notifyStop thread =>
    simp only [Executor.step] at hstep
    split at hstep <;> cases hstep
    simp only [Executor.tasks, task_wake] at h
    exact .inl h
  | get thread =>
    simp only [Executor.step] at hstep
    split at hstep
    · split at hstep <;> cases hstep
      exact .inl h
    · cases hstep
  | workerEnter =>
    simp only [Executor.step] at hstep
    split at hstep <;> cases hstep
    rename_i hw
    left
    unfold Executor.workerEnter at h
    unfold Executor.tasks at h ⊢
    rw [hw]
    split at h
    · dsimp only at h
      split at h <;> exact h
    · rename_i hqueue
      rw [hqueue]
      exact h
  | workerWake =>
    simp only [Executor.step] at hstep
    split at hstep <;> cases hstep
    exact .inl (List.mem_append_right _ h)
  | workerNotify =>
    simp only [Executor.step] at hstep
    split at hstep <;> cases hstep
    rename_i hw
    unfold Executor.tasks
    rw [hw]
    exact .inl h
  | workerFinish throws =>
    simp only [Executor.step] at hstep
    split at hstep <;> cases hstep
    unfold Executor.workerFinish at h
    split at h <;> exact .inl (List.mem_append_right _ h)
  | begin thread job | wakeSpace thread | stop thread | notifyStopSpace thread | joined thread =>
    simp only [Executor.step] at hstep
    split at hstep <;> cases hstep
    exact .inl h

end Pending

end SerialExecutor

namespace ProbeTasks

open SerialExecutor Runners

universe v

section Registries
variable {θ : Type v}

/-- What a thread is at in `load_manual_clients` of its registry. -/
inductive Loading where
  | idle
  | cleared
  | loading (rest : List Runner)
  /-- A made client that only the loop holds, while it submits its probe. -/
  | probing (runnerId : Bytes) (client : Nat) (rest : List Runner)
  deriving DecidableEq

/-- The payload of a task is the client that its probe refers to; the tasks of calls, whose
callers stay in the client's method, have none. Clients are numbered as they are made. -/
structure Registries (θ : Type v) where
  executor : Executor (Option Nat) θ
  created : Nat := 0
  manualClients : θ → List (Bytes × Nat) := fun _ => []
  loading : θ → Loading := fun _ => .idle
  shared : List Nat := []

inductive RegistryStep (θ : Type v) where
  | refresh (thread : θ)
  | list (thread : θ) (table : Option RunnerTable)
  | load (thread : θ)
  | emplace (thread : θ)
  | shareClient (thread : θ) (runnerId : Bytes)
  | release (client : Nat)
  | exec (l : Step (Option Nat) θ)

/-- The steps of the executor that are not part of a refresh. -/
def Registries.allows (s : Registries θ) : Step (Option Nat) θ → Prop
  | .begin thread job => job.payload = none ∧ s.loading thread = .idle
  | _ => True

variable [DecidableEq θ]

def Registries.setLoading (s : Registries θ) (thread : θ) (l : Loading) : Registries θ :=
  { s with loading := Function.update s.loading thread l }

/-- One row of the loop: its client made and the probe's submission begun, where it has one. -/
def Registries.loadRow (s : Registries θ) (thread : θ) (runner : Runner) (rest : List Runner) :
    Option (Registries θ) :=
  match clientAddress runner with
  | none => some (s.setLoading thread (.loading rest))
  | some _ =>
    (s.executor.step (.begin thread ⟨false, some s.created⟩)).map fun executor =>
      { s.setLoading thread (.probing runner.runnerId s.created rest) with
        executor, created := s.created + 1 }

/-- `manual_clients_.emplace`: a name that is taken keeps its client. -/
def Registries.emplace (s : Registries θ) (thread : θ) (runnerId : Bytes) (client : Nat)
    (rest : List Runner) : Registries θ :=
  let clients := s.manualClients thread
  { s.setLoading thread (.loading rest) with
    manualClients := Function.update s.manualClients thread
      (if runnerId ∈ clients.map Prod.fst then clients else clients ++ [(runnerId, client)]) }

instance (s : Registries θ) : (l : Step (Option Nat) θ) → Decidable (s.allows l)
  | .begin thread job => inferInstanceAs (Decidable (job.payload = none ∧ s.loading thread = .idle))
  | .enter _ | .wakeSpace _ | .notify _ | .get _ | .stop _ | .notifyStop _ | .notifyStopSpace _
  | .joined _ | .workerEnter | .workerWake | .workerNotify | .workerFinish _ => isTrue trivial

def Registries.step (s : Registries θ) : RegistryStep θ → Option (Registries θ)
  | .refresh thread =>
    match s.loading thread, s.executor.threads thread with
    | .idle, .idle =>
      some { s.setLoading thread .cleared with
        manualClients := Function.update s.manualClients thread [] }
    | _, _ => none
  | .list thread table =>
    match s.loading thread with
    | .cleared =>
      some (s.setLoading thread (match table with
        | none => .idle
        | some t => .loading t.rows))
    | _ => none
  | .load thread =>
    match s.loading thread with
    | .loading [] => some (s.setLoading thread .idle)
    | .loading (runner :: rest) => s.loadRow thread runner rest
    | _ => none
  | .emplace thread =>
    match s.loading thread, s.executor.threads thread with
    | .probing runnerId client rest, .idle => some (s.emplace thread runnerId client rest)
    | _, _ => none
  | .shareClient thread runnerId =>
    match s.loading thread, (s.manualClients thread).lookup runnerId with
    | .idle, some client => some { s with shared := client :: s.shared }
    | _, _ => none
  | .release client =>
    if client ∈ s.shared then some { s with shared := s.shared.erase client } else none
  | .exec l =>
    if s.allows l then (s.executor.step l).map fun executor => { s with executor } else none

/-! Who keeps a client -/

def Loading.client : Loading → Option Nat
  | .probing _ client _ => some client
  | _ => none

/-- The names that the loop has still to emplace. -/
def Loading.names : Loading → List Bytes
  | .loading rest => rest.map Runner.runnerId
  | .probing runnerId _ rest => runnerId :: rest.map Runner.runnerId
  | _ => []

/-- Somebody holds the client, so that it has not been destroyed. -/
def Registries.Held (s : Registries θ) (client : Nat) : Prop :=
  (∃ t, client ∈ (s.manualClients t).map Prod.snd) ∨ (∃ t, (s.loading t).client = some client) ∨
    client ∈ s.shared

/-- A task that refers to the client is queued or with the worker. -/
def Registries.Pending (s : Registries θ) (client : Nat) : Prop :=
  ∃ task ∈ s.executor.tasks, task.job.payload = some client

structure Live (s : Registries θ) : Prop where
  tasks : ∀ client, s.Pending client → s.Held client
  submitting : ∀ t job client, (s.executor.threads t).job = some job →
    job.payload = some client → (s.loading t).client = some client
  cleared : ∀ t, s.loading t = .cleared → s.manualClients t = []
  names : ∀ t, ((s.manualClients t).map Prod.fst ++ (s.loading t).names).Nodup

/-- A registry is refreshed, and a stream lets go of a client, only when no probe of a client
that this destroys is queued or with the worker. -/
def ProbesEnded (s : Registries θ) : RegistryStep θ → Prop
  | .refresh thread => ∀ e ∈ s.manualClients thread, s.Pending e.2 → e.2 ∈ s.shared
  | .release client => s.Pending client →
      client ∈ s.shared.erase client ∨ ∃ t, client ∈ (s.manualClients t).map Prod.snd
  | _ => True

/-- The loop of one thread goes on, and what it held before it still holds. -/
theorem Registries.Held.setLoading {s : Registries θ} {client : Nat} (h : s.Held client)
    {thread : θ} {l : Loading} (hl : ∀ c, (s.loading thread).client = some c → l.client = some c) :
    (s.setLoading thread l).Held client := by
  rcases h with hmap | ⟨t, ht⟩ | hshared
  · exact .inl hmap
  · refine .inr (.inl ⟨t, ?_⟩)
    by_cases heq : t = thread
    · subst heq
      simp only [Registries.setLoading, Function.update_self]
      exact hl client ht
    · simp only [Registries.setLoading, Function.update_of_ne heq]
      exact ht
  · exact .inr (.inr hshared)

/-- A step of the loop alone. -/
theorem Live.setLoading {s : Registries θ} (h : Live s) {thread : θ} {l : Loading}
    (hl : ∀ c, (s.loading thread).client = some c → l.client = some c)
    (hcleared : l = .cleared → s.manualClients thread = [])
    (hnames : ((s.manualClients thread).map Prod.fst ++ l.names).Nodup) :
    Live (s.setLoading thread l) where
  tasks := fun client hp => (h.tasks client hp).setLoading hl
  submitting := fun t job client hjob hpayload => by
    have hold := h.submitting t job client hjob hpayload
    by_cases heq : t = thread
    · subst heq
      simp only [Registries.setLoading, Function.update_self]
      exact hl client hold
    · simp only [Registries.setLoading, Function.update_of_ne heq]
      exact hold
  cleared := fun t ht => by
    by_cases heq : t = thread
    · subst heq
      simp only [Registries.setLoading, Function.update_self] at ht
      exact hcleared ht
    · simp only [Registries.setLoading, Function.update_of_ne heq] at ht
      exact h.cleared t ht
  names := fun t => by
    by_cases heq : t = thread
    · subst heq
      simp only [Registries.setLoading, Function.update_self]
      exact hnames
    · simp only [Registries.setLoading, Function.update_of_ne heq]
      exact h.names t

/-- The clients of one registry change while its thread is not in `submit`. -/
theorem Live.setClients {s : Registries θ} (h : Live s) {thread : θ} {l : Loading}
    {clients : List (Bytes × Nat)} (hidle : s.executor.threads thread = .idle)
    (hheld : ∀ c, c ∈ (s.manualClients thread).map Prod.snd ∨ (s.loading thread).client = some c →
      s.Pending c → c ∈ clients.map Prod.snd ∨ l.client = some c ∨ c ∈ s.shared)
    (hcleared : l = .cleared → clients = [])
    (hnames : (clients.map Prod.fst ++ l.names).Nodup) :
    Live { s.setLoading thread l with
      manualClients := Function.update s.manualClients thread clients } where
  tasks := fun client hp => by
    have hmine : client ∈ clients.map Prod.snd ∨ l.client = some client ∨ client ∈ s.shared →
        Registries.Held { s.setLoading thread l with
          manualClients := Function.update s.manualClients thread clients } client := by
      rintro (hmap | hloop | hshared)
      · exact .inl ⟨thread, by simpa using hmap⟩
      · exact .inr (.inl ⟨thread, by simpa [Registries.setLoading] using hloop⟩)
      · exact .inr (.inr hshared)
    rcases h.tasks client hp with ⟨t, ht⟩ | ⟨t, ht⟩ | hshared
    · by_cases heq : t = thread
      · subst heq
        exact hmine (hheld client (.inl ht) hp)
      · exact .inl ⟨t, by simpa [Function.update_of_ne heq] using ht⟩
    · by_cases heq : t = thread
      · subst heq
        exact hmine (hheld client (.inr ht) hp)
      · refine .inr (.inl ⟨t, ?_⟩)
        simpa [Registries.setLoading, Function.update_of_ne heq] using ht
    · exact hmine (.inr (.inr hshared))
  submitting := fun t job client hjob hpayload => by
    have hold := h.submitting t job client hjob hpayload
    by_cases heq : t = thread
    · subst heq
      have hnone : (s.executor.threads t).job = some job := hjob
      rw [hidle] at hnone
      cases hnone
    · simpa [Registries.setLoading, Function.update_of_ne heq] using hold
  cleared := fun t ht => by
    by_cases heq : t = thread
    · subst heq
      simp only [Registries.setLoading, Function.update_self] at ht ⊢
      exact hcleared ht
    · simp only [Registries.setLoading, Function.update_of_ne heq] at ht ⊢
      exact h.cleared t ht
  names := fun t => by
    by_cases heq : t = thread
    · subst heq
      simp only [Registries.setLoading, Function.update_self]
      exact hnames
    · simp only [Registries.setLoading, Function.update_of_ne heq]
      exact h.names t

/-- A step of the executor that submits nothing for a client outside its refresh. -/
theorem Live.exec {s : Registries θ} (h : Live s) {l : Step (Option Nat) θ}
    {executor : Executor (Option Nat) θ} (hallows : s.allows l)
    (hstep : s.executor.step l = some executor) : Live { s with executor } where
  tasks := fun client ⟨task, htask, hpayload⟩ => by
    rcases tasks_step hstep htask with hold | ⟨t, hjob⟩
    · exact h.tasks client ⟨task, hold, hpayload⟩
    · exact .inr (.inl ⟨t, h.submitting t task.job client hjob hpayload⟩)
  submitting := fun t job client hjob hpayload => by
    rcases job_step hstep hjob with hold | rfl
    · exact h.submitting t job client hold hpayload
    · rw [hallows.1] at hpayload
      cases hpayload
  cleared := h.cleared
  names := h.names

/-- A client is made and its probe's submission begins. -/
theorem Live.probe {s : Registries θ} (h : Live s) {thread : θ} {runner : Runner}
    {rest : List Runner} {executor : Executor (Option Nat) θ}
    (hthread : s.loading thread = .loading (runner :: rest))
    (hstep : s.executor.step (.begin thread ⟨false, some s.created⟩) = some executor) :
    Live { s.setLoading thread (.probing runner.runnerId s.created rest) with
      executor, created := s.created + 1 } := by
  have hnone : (s.loading thread).client = none := by rw [hthread]; rfl
  have hloop : Live (s.setLoading thread (.probing runner.runnerId s.created rest)) := by
    refine h.setLoading (by simp [hnone]) (by simp) ?_
    have hnames := h.names thread
    rw [hthread] at hnames
    exact hnames
  refine ⟨fun client ⟨task, htask, hpayload⟩ => ?_, fun t job client hjob hpayload => ?_,
    hloop.cleared, hloop.names⟩
  · rcases tasks_step hstep htask with hold | ⟨t, hjob⟩
    · exact hloop.tasks client ⟨task, hold, hpayload⟩
    · exact .inr (.inl ⟨t, hloop.submitting t task.job client hjob hpayload⟩)
  · rcases job_step hstep hjob with hold | heq
    · exact hloop.submitting t job client hold hpayload
    · cases heq
      cases hpayload
      simp [Registries.setLoading, Loading.client]

theorem Live.step {s s' : Registries θ} {l : RegistryStep θ} (h : Live s) (hok : ProbesEnded s l)
    (hstep : s.step l = some s') : Live s' := by
  cases l with
  | refresh thread =>
    simp only [Registries.step] at hstep
    split at hstep <;> cases hstep
    rename_i hidle hthread
    refine h.setClients hthread ?_ (fun _ => rfl) (by simp [Loading.names])
    rintro c (hmap | hloop) hpending
    · obtain ⟨e, he, rfl⟩ := List.mem_map.mp hmap
      exact .inr (.inr (hok e he hpending))
    · rw [hidle] at hloop
      cases hloop
  | list thread table =>
    simp only [Registries.step] at hstep
    split at hstep <;> cases hstep
    rename_i hthread
    have hempty := h.cleared thread hthread
    refine h.setLoading (by simp [hthread, Loading.client]) (fun _ => hempty) ?_
    rw [hempty]
    cases table with
    | none => exact List.nodup_nil
    | some t => exact t.unique
  | load thread =>
    simp only [Registries.step] at hstep
    have hnames := h.names thread
    split at hstep
    · rename_i hthread
      cases hstep
      rw [hthread] at hnames
      exact h.setLoading (by simp [hthread, Loading.client]) (by simp) hnames
    · rename_i runner rest hthread
      unfold Registries.loadRow at hstep
      split at hstep
      · cases hstep
        rw [hthread] at hnames
        refine h.setLoading (by simp [hthread, Loading.client]) (by simp) (hnames.sublist ?_)
        exact List.Sublist.append_left (List.sublist_cons_self _ _) _
      · obtain ⟨executor, hexec, rfl⟩ := Option.map_eq_some_iff.mp hstep
        exact h.probe hthread hexec
    · cases hstep
  | emplace thread =>
    simp only [Registries.step] at hstep
    split at hstep <;> cases hstep
    rename_i runnerId client rest hprobing hthread
    have hnames := h.names thread
    rw [hprobing] at hnames
    have hnew : runnerId ∉ (s.manualClients thread).map Prod.fst := by
      intro hmem
      exact List.disjoint_of_nodup_append hnames hmem List.mem_cons_self
    unfold Registries.emplace
    dsimp only
    rw [if_neg hnew]
    refine h.setClients hthread ?_ (by simp) ?_
    · rintro c (hmap | hloop) _
      · left
        rw [List.map_append]
        exact List.mem_append_left _ hmap
      · rw [hprobing] at hloop
        cases hloop
        exact .inl (by simp)
    · simpa [Loading.names] using hnames
  | shareClient thread runnerId =>
    simp only [Registries.step] at hstep
    split at hstep <;> cases hstep
    refine ⟨fun c hp => ?_, h.submitting, h.cleared, h.names⟩
    rcases h.tasks c hp with hmap | hloop | hshared
    · exact .inl hmap
    · exact .inr (.inl hloop)
    · exact .inr (.inr (List.mem_cons_of_mem _ hshared))
  | release client =>
    simp only [Registries.step] at hstep
    split at hstep <;> cases hstep
    refine ⟨fun c hp => ?_, h.submitting, h.cleared, h.names⟩
    rcases h.tasks c hp with hmap | hloop | hshared
    · exact .inl hmap
    · exact .inr (.inl hloop)
    · by_cases heq : c = client
      · subst heq
        rcases hok hp with hother | hmap
        · exact .inr (.inr hother)
        · exact .inl hmap
      · exact .inr (.inr ((List.mem_erase_of_ne heq).mpr hshared))
  | exec l =>
    simp only [Registries.step] at hstep
    split at hstep
    · rename_i hallows
      obtain ⟨executor, hexec, rfl⟩ := Option.map_eq_some_iff.mp hstep
      exact h.exec hallows hexec
    · cases hstep

/-- Registries that have loaded nothing, over an executor of the given bound. -/
def Registries.start (maxPendingTasks : Nat) : Registries θ where
  executor := SerialExecutor.start maxPendingTasks

omit [DecidableEq θ] in
theorem Live.start (maxPendingTasks : Nat) :
    Live (Registries.start maxPendingTasks : Registries θ) where
  tasks := fun _ ⟨_, htask, _⟩ => by cases htask
  submitting := fun _ _ _ hjob => by cases hjob
  cleared := fun _ _ => rfl
  names := fun _ => List.nodup_nil

/-- Where clients are let go of after their probes, a task never outlives its client. -/
theorem pending_held {maxPendingTasks : Nat} {ls : List (RegistryStep θ)} {s : Registries θ}
    (hok : Machine.Along Registries.step ProbesEnded (.start maxPendingTasks) ls)
    (hrun : Machine.run Registries.step (.start maxPendingTasks) ls = some s) :
    ∀ client, s.Pending client → s.Held client :=
  (Machine.run_invariant_along Registries.step (fun _ _ _ h hl hs => h.step hl hs)
    (Live.start maxPendingTasks) hok hrun).tasks

/-! Two refreshes of one registry -/

instance (s : Registries θ) (client : Nat) : Decidable (s.Pending client) :=
  inferInstanceAs (Decidable (∃ task ∈ s.executor.tasks, task.job.payload = some client))

instance [Fintype θ] (s : Registries θ) : (l : RegistryStep θ) → Decidable (ProbesEnded s l)
  | .refresh thread => inferInstanceAs (Decidable (∀ e ∈ s.manualClients thread,
      s.Pending e.2 → e.2 ∈ s.shared))
  | .release client => inferInstanceAs (Decidable (s.Pending client →
      client ∈ s.shared.erase client ∨ ∃ t, client ∈ (s.manualClients t).map Prod.snd))
  | .list _ _ | .load _ | .emplace _ | .shareClient _ _ | .exec _ => isTrue trivial

end Registries

def manualRunner : Runner where
  runnerId := ascii "r1"
  name := ascii "r1"
  kind := ascii "ollama"
  baseUrl := some (ascii "http://127.0.0.1:11435")
  source := ascii "manual"
  enabled := true
  createdAt := 5
  updatedAt := 5

def oneRunner : RunnerTable := ⟨[manualRunner], by decide⟩

/-- One worker constructs its registry: a client, and its probe on the queue. -/
def loadOne : List (RegistryStep Unit) :=
  [.refresh (), .list () (some oneRunner), .load (), .exec (.enter ()), .exec (.notify ()),
    .emplace (), .load ()]

/-- A refresh while the probe is queued destroys the client that the task refers to. -/
theorem refresh_beside_probe :
    ∃ s, Machine.run Registries.step (.start 16) (loadOne ++ [.refresh ()]) = some s ∧
      ∃ client, s.Pending client ∧ ¬ s.Held client := by
  obtain ⟨s, hrun, htest⟩ := Machine.run_of_any Registries.step (.start 16)
    (loadOne ++ [.refresh ()])
    (fun s => decide (s.Pending 0) && decide (s.manualClients () = []) &&
      decide ((s.loading ()).client = none) && decide (s.shared = [])) (by decide +kernel)
  simp only [Bool.and_eq_true, decide_eq_true_eq] at htest
  obtain ⟨⟨⟨hpending, hclients⟩, hloop⟩, hshared⟩ := htest
  refine ⟨s, hrun, 0, hpending, ?_⟩
  rintro (⟨⟨⟩, hmap⟩ | ⟨⟨⟩, hheld⟩ | hstream)
  · rw [hclients] at hmap
    cases hmap
  · rw [hloop] at hheld
    cases hheld
  · rw [hshared] at hstream
    cases hstream

/-- The same with the first probe run before the refresh, and a second client made after it. -/
theorem pending_held_refresh :
    ∃ s, Machine.run Registries.step (.start 16) (loadOne ++
        [.exec .workerEnter, .exec .workerNotify, .exec (.workerFinish false)] ++ loadOne) =
        some s ∧ s.Pending 1 ∧ s.Held 1 := by
  obtain ⟨s, hrun, htest⟩ := Machine.run_of_any Registries.step (.start 16) (loadOne ++
    [.exec .workerEnter, .exec .workerNotify, .exec (.workerFinish false)] ++ loadOne)
    (fun s => decide (s.Pending 1)) (by decide +kernel)
  have hpending := of_decide_eq_true htest
  exact ⟨s, hrun, hpending, pending_held (by decide +kernel) hrun 1 hpending⟩

end ProbeTasks

end HolderDaemon
