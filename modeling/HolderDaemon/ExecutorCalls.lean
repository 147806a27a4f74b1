import HolderDaemon.Linearization
import HolderDaemon.SerialExecutor

/-!
What callers see of an object behind the serial executor (`core/SerialExecutor.h` `call`,
`git/ExecutorGitOps.cpp`): every method is a task that runs on the executor's one thread, and
the caller waits for its future.
-/

set_option autoImplicit false

namespace HolderDaemon

namespace ExecutorCalls

open SerialExecutor AtomicObject

universe u v w x

section Shared
variable {θ : Type u} {σ : Type v} {Op : Type w} {Res : Type x}

/-- `results` holds what the futures were given, in the order of the tickets. -/
structure Shared (σ : Type v) (θ : Type u) (Op : Type w) (Res : Type x) where
  executor : Executor Op θ
  object : σ
  results : List Res := []

variable [DecidableEq θ] (apply : σ → Op → σ × Res)

namespace Shared

/-- A step of the executor, whose threads use `call` only; a task's end applies the operation
and fulfils the future, with the result or with what the operation threw. -/
def step (s : Shared σ θ Op Res) (l : SerialExecutor.Step Op θ) : Option (Shared σ θ Op Res) :=
  match l with
  | .begin _ job =>
    if job.isCall then (s.executor.step l).map fun e => { s with executor := e } else none
  | .workerFinish _ =>
    match s.executor.worker with
    | .running task =>
      (s.executor.step l).map fun e =>
        { executor := e
          object := (apply s.object task.job.payload).1
          results := s.results ++ [(apply s.object task.job.payload).2] }
    | _ => none
  | _ => (s.executor.step l).map fun e => { s with executor := e }

/-- The start of a call and the return of its future. -/
def shows (s : Shared σ θ Op Res) : SerialExecutor.Step Op θ → List (Event θ Op Res)
  | .begin thread job => [.call thread job.payload]
  | .get thread =>
    match s.executor.threads thread with
    | .awaiting (some ticket) => (s.results[ticket]?).toList.map (.answer thread)
    | _ => []
  | _ => []

end Shared

def start (maxPendingTasks : Nat) (object : σ) : Shared σ θ Op Res :=
  { executor := SerialExecutor.start maxPendingTasks, object }

/-! The simulation by an atomic object -/

/-- The tasks that have been pushed and have not ended. -/
def pending (e : Executor Op θ) : List (SerialExecutor.Task Op) := e.worker.task.toList ++ e.queue

def ticketOf : SerialExecutor.Caller Op → Option Nat
  | .notifying _ ticket => some ticket
  | .awaiting ticket => ticket
  | _ => none

/-- What a thread of the executor is, seen from outside. -/
def Stands (results : List Res) (pushed : Nat) :
    SerialExecutor.Caller Op → AtomicObject.Caller Op Res → Prop
  | .submitting job, c => job.isCall = true ∧ c = .called job.payload
  | .waitingSpace job, c => job.isCall = true ∧ c = .called job.payload
  | .notifying isCall ticket, c =>
    isCall = true ∧ ticket < pushed ∧ ∀ r, results[ticket]? = some r → c = .answered r
  | .awaiting none, c => ∃ op, c = .called op
  | .awaiting (some ticket), c =>
    ticket < pushed ∧ ∀ r, results[ticket]? = some r → c = .answered r
  | _, c => c = .idle

/-- The executor's object beside the atomic one: an operation takes effect where its task
ends. -/
structure Matches (s : Shared σ θ Op Res) (t : AtomicObject.State σ θ Op Res) : Prop where
  object : t.object = s.object
  order : s.executor.ran ++ (pending s.executor).map SerialExecutor.Task.ticket =
    List.range s.executor.pushed
  answered : s.results.length = s.executor.ran.length
  calls : ∀ task ∈ pending s.executor, task.job.isCall = true
  owner : ∀ task ∈ pending s.executor, ∃ thread,
    ticketOf (s.executor.threads thread) = some task.ticket ∧
      t.threads thread = .called task.job.payload
  alone : ∀ a b k, ticketOf (s.executor.threads a) = some k →
    ticketOf (s.executor.threads b) = some k → a = b
  caller : ∀ thread, Stands s.results s.executor.pushed (s.executor.threads thread)
    (t.threads thread)

omit [DecidableEq θ] in
@[simp] theorem ticketOf_wakeSpace (c : SerialExecutor.Caller Op) :
    ticketOf (SerialExecutor.wakeSpace c) = ticketOf c := by
  cases c <;> rfl

omit [DecidableEq θ] in
@[simp] theorem stands_wakeSpace (results : List Res) (pushed : Nat)
    (c : SerialExecutor.Caller Op) (d : AtomicObject.Caller Op Res) :
    Stands results pushed (SerialExecutor.wakeSpace c) d ↔ Stands results pushed c d := by
  cases c <;> rfl

omit [DecidableEq θ] in
/-- A thread's place does not change when tasks are pushed. -/
theorem Stands.pushed {results : List Res} {n m : Nat} {c : SerialExecutor.Caller Op}
    {d : AtomicObject.Caller Op Res} (h : Stands results n c d) (hle : n ≤ m) :
    Stands results m c d := by
  cases c with
  | notifying isCall ticket => exact ⟨h.1, lt_of_lt_of_le h.2.1 hle, h.2.2⟩
  | awaiting ticket =>
    cases ticket with
    | none => exact h
    | some k => exact ⟨lt_of_lt_of_le h.1 hle, h.2⟩
  | _ => exact h

omit [DecidableEq θ] in
theorem ticket_lt {s : Shared σ θ Op Res} {t : AtomicObject.State σ θ Op Res}
    (h : Matches s t) {thread : θ} {k : Nat}
    (hk : ticketOf (s.executor.threads thread) = some k) : k < s.executor.pushed := by
  have hstand := h.caller thread
  cases hc : s.executor.threads thread <;> rw [hc] at hk hstand <;> simp only [ticketOf] at hk
  · cases hk
  · cases hk
  · cases hk
  · cases hk
    exact hstand.2.1
  · subst hk
    exact hstand.1
  · cases hk
  · cases hk
  · cases hk

omit [DecidableEq θ] in
/-- The executor moved, and no thread looks different from outside. -/
theorem Matches.quiet {s : Shared σ θ Op Res} {t : AtomicObject.State σ θ Op Res}
    (h : Matches s t) {e : Executor Op θ} (hpending : pending e = pending s.executor)
    (hran : e.ran = s.executor.ran) (hpushed : e.pushed = s.executor.pushed)
    (hthreads : ∀ thread, ticketOf (e.threads thread) = ticketOf (s.executor.threads thread) ∧
      ∀ d, Stands s.results s.executor.pushed (s.executor.threads thread) d →
        Stands s.results s.executor.pushed (e.threads thread) d) :
    Matches { s with executor := e } t where
  object := h.object
  order := by
    rw [hpending, hran, hpushed]
    exact h.order
  answered := by
    rw [hran]
    exact h.answered
  calls := by
    rw [hpending]
    exact h.calls
  owner := by
    rw [hpending]
    intro task htask
    obtain ⟨thread, hticket, hcalled⟩ := h.owner task htask
    exact ⟨thread, (hthreads thread).1.trans hticket, hcalled⟩
  alone := by
    intro a b k ha hb
    rw [(hthreads a).1] at ha
    rw [(hthreads b).1] at hb
    exact h.alone a b k ha hb
  caller := by
    intro thread
    rw [hpushed]
    exact (hthreads thread).2 _ (h.caller thread)

theorem threads_update {threads : θ → SerialExecutor.Caller Op} {results : List Res}
    {pushed : Nat} {thread : θ} {c : SerialExecutor.Caller Op}
    (hticket : ticketOf c = ticketOf (threads thread))
    (hstands : ∀ d, Stands results pushed (threads thread) d → Stands results pushed c d)
    (other : θ) :
    ticketOf (Function.update threads thread c other) = ticketOf (threads other) ∧
      ∀ d, Stands results pushed (threads other) d →
        Stands results pushed (Function.update threads thread c other) d := by
  by_cases heq : other = thread
  · subst heq
    simpa using ⟨hticket, hstands⟩
  · simp [Function.update_of_ne heq]

/-- One thread moved, seen from outside too; it holds no ticket afterwards. -/
theorem Matches.moved {s : Shared σ θ Op Res} {t : AtomicObject.State σ θ Op Res}
    (h : Matches s t) {thread : θ} {c : SerialExecutor.Caller Op}
    {d : AtomicObject.Caller Op Res} (hc : ticketOf c = none)
    (hstands : Stands s.results s.executor.pushed c d)
    (hfree : ∀ task ∈ pending s.executor,
      ticketOf (s.executor.threads thread) = some task.ticket →
        t.threads thread ≠ .called task.job.payload) :
    Matches { s with executor := s.executor.set thread c }
      { t with threads := Function.update t.threads thread d } where
  object := h.object
  order := h.order
  answered := h.answered
  calls := h.calls
  owner := by
    intro task htask
    obtain ⟨other, hticket, hcalled⟩ := h.owner task htask
    have hne : other ≠ thread := by
      rintro rfl
      exact hfree task htask hticket hcalled
    exact ⟨other, by simpa [Function.update_of_ne hne] using hticket,
      by simpa [Function.update_of_ne hne] using hcalled⟩
  alone := by
    intro a b k ha hb
    have hne : ∀ x, ticketOf (Function.update s.executor.threads thread c x) = some k →
        x ≠ thread := by
      rintro x hx rfl
      rw [Function.update_self, hc] at hx
      cases hx
    have hna := hne a ha
    have hnb := hne b hb
    simp only [set_threads, Function.update_of_ne hna] at ha
    simp only [set_threads, Function.update_of_ne hnb] at hb
    exact h.alone a b k ha hb
  caller := by
    intro other
    by_cases heq : other = thread
    · subst heq
      simpa [Executor.set] using hstands
    · simpa [Executor.set, Function.update_of_ne heq] using h.caller other

omit [DecidableEq θ] in
/-- The tickets that have ended are the first ones. -/
theorem Matches.ran_eq {s : Shared σ θ Op Res} {t : AtomicObject.State σ θ Op Res}
    (h : Matches s t) : s.executor.ran = List.range s.executor.ran.length := by
  have horder := congrArg (List.take s.executor.ran.length) h.order
  rw [List.take_left, List.take_range] at horder
  have hle : s.executor.ran.length ≤ s.executor.pushed := by
    have hlength := congrArg List.length h.order
    simp only [List.length_append, List.length_range] at hlength
    omega
  rwa [Nat.min_eq_left hle] at horder

/-- A thread pushes its task. -/
theorem Matches.push {s : Shared σ θ Op Res} {t : AtomicObject.State σ θ Op Res}
    (h : Matches s t) {thread : θ} {job : Job Op}
    (hthread : s.executor.threads thread = .submitting job) :
    Matches
      { s with
        executor :=
          { s.executor.set thread (.notifying job.isCall s.executor.pushed) with
            queue := s.executor.queue ++ [⟨s.executor.pushed, job⟩]
            pushed := s.executor.pushed + 1 } } t := by
  have hstand := h.caller thread
  rw [hthread] at hstand
  obtain ⟨hcall, hcalled⟩ := hstand
  have hpending : pending
      { s.executor.set thread (.notifying job.isCall s.executor.pushed) with
        queue := s.executor.queue ++ [⟨s.executor.pushed, job⟩]
        pushed := s.executor.pushed + 1 } =
      pending s.executor ++ [⟨s.executor.pushed, job⟩] := by
    simp [pending, Executor.set]
  have hnew : ∀ other k, ticketOf (Function.update s.executor.threads thread
      (.notifying job.isCall s.executor.pushed) other) = some k →
      (other = thread ∧ k = s.executor.pushed) ∨
        (other ≠ thread ∧ ticketOf (s.executor.threads other) = some k) := by
    intro other k hk
    by_cases heq : other = thread
    · subst heq
      rw [Function.update_self] at hk
      cases hk
      exact .inl ⟨rfl, rfl⟩
    · rw [Function.update_of_ne heq] at hk
      exact .inr ⟨heq, hk⟩
  refine ⟨h.object, ?_, h.answered, ?_, ?_, ?_, ?_⟩
  · rw [hpending, List.map_append, ← List.append_assoc]
    change s.executor.ran ++ _ ++ [s.executor.pushed] = List.range (s.executor.pushed + 1)
    rw [h.order, List.range_succ]
  · rw [hpending]
    intro task htask
    rcases List.mem_append.mp htask with hold | hlast
    · exact h.calls task hold
    · rw [List.mem_singleton.mp hlast]
      exact hcall
  · rw [hpending]
    intro task htask
    rcases List.mem_append.mp htask with hold | hlast
    · obtain ⟨other, hticket, hother⟩ := h.owner task hold
      have hne : other ≠ thread := by
        rintro rfl
        rw [hthread] at hticket
        cases hticket
      exact ⟨other, by simpa [Executor.set, Function.update_of_ne hne] using hticket, hother⟩
    · rw [List.mem_singleton.mp hlast]
      exact ⟨thread, by simp [Executor.set, ticketOf], hcalled⟩
  · intro a b k ha hb
    rcases hnew a k ha with ⟨rfl, hka⟩ | ⟨hna, hta⟩ <;>
      rcases hnew b k hb with ⟨rfl, hkb⟩ | ⟨hnb, htb⟩
    · rfl
    · exact absurd (ticket_lt h htb) (by omega)
    · exact absurd (ticket_lt h hta) (by omega)
    · exact h.alone a b k hta htb
  · intro other
    by_cases heq : other = thread
    · subst heq
      have hlength := congrArg List.length h.order
      simp only [List.length_append, List.length_range] at hlength
      have hnone : s.results[s.executor.pushed]? = none :=
        List.getElem?_eq_none (by rw [h.answered]; omega)
      simp only [Executor.set, Function.update_self]
      exact ⟨hcall, Nat.lt_succ_self _, fun r hr => by rw [hnone] at hr; cases hr⟩
    · simp only [Executor.set, Function.update_of_ne heq]
      exact (h.caller other).pushed (Nat.le_succ _)

/-- The worker ends a task: the operation of the thread that waits for it takes effect. -/
theorem Matches.finish {s : Shared σ θ Op Res} {t : AtomicObject.State σ θ Op Res}
    (h : Matches s t) {task : SerialExecutor.Task Op}
    (hworker : s.executor.worker = .running task) :
    ∃ thread t', AtomicObject.step apply t (.perform thread) = some t' ∧
      Matches
        { executor :=
            { s.executor with worker := .entering, ran := s.executor.ran ++ [task.ticket] }
          object := (apply s.object task.job.payload).1
          results := s.results ++ [(apply s.object task.job.payload).2] } t' := by
  have hpending : pending s.executor = task :: s.executor.queue := by
    simp [pending, hworker, Worker.task]
  obtain ⟨thread, hticket, hcalled⟩ := h.owner task (by rw [hpending]; exact List.mem_cons_self)
  have hnext : task.ticket = s.results.length := by
    have hget := congrArg (fun l => l[s.executor.ran.length]?) h.order
    simp only [hpending, List.map_cons, List.getElem?_append_right (Nat.le_refl _),
      Nat.sub_self, List.getElem?_cons_zero] at hget
    have hlt := List.getElem?_eq_some_iff.mp hget.symm
    obtain ⟨hbound, hvalue⟩ := hlt
    rw [List.getElem_range] at hvalue
    rw [h.answered, hvalue]
  have hlater : ∀ task' ∈ s.executor.queue, task'.ticket ≠ task.ticket := by
    intro task' htask' heq
    have hnodup : (task.ticket :: s.executor.queue.map SerialExecutor.Task.ticket).Nodup := by
      have hall : (List.range s.executor.pushed).Nodup := List.nodup_range
      rw [← h.order, hpending, List.map_cons] at hall
      exact hall.of_append_right
    exact (List.nodup_cons.mp hnodup).1 (heq ▸ List.mem_map_of_mem htask')
  have hold : ∀ k r, (s.results ++ [(apply s.object task.job.payload).2])[k]? = some r →
      k ≠ task.ticket → s.results[k]? = some r := by
    intro k r hr hk
    rw [hnext] at hk
    rcases Nat.lt_or_ge k s.results.length with hlt | hge
    · rwa [List.getElem?_append_left hlt] at hr
    · rw [List.getElem?_append_right hge, List.getElem?_eq_none (by simp; omega)] at hr
      cases hr
  have hnew : ∀ r, (s.results ++ [(apply s.object task.job.payload).2])[task.ticket]? = some r →
      r = (apply s.object task.job.payload).2 := by
    intro r hr
    rw [hnext, List.getElem?_concat_length] at hr
    exact (Option.some.inj hr).symm
  refine ⟨thread, _, by simp only [AtomicObject.step, hcalled]; rfl, ?_⟩
  refine ⟨?_, ?_, ?_, ?_, ?_, h.alone, ?_⟩
  · simp [h.object]
  · have horder := h.order
    rw [hpending, List.map_cons] at horder
    simpa [pending, Worker.task] using horder
  · simp [h.answered]
  · intro task' htask'
    refine h.calls task' ?_
    rw [hpending]
    exact List.mem_cons_of_mem _ (by simpa [pending, Worker.task] using htask')
  · intro task' htask'
    have hqueued : task' ∈ s.executor.queue := by simpa [pending, Worker.task] using htask'
    obtain ⟨other, hother, hcalled'⟩ :=
      h.owner task' (by rw [hpending]; exact List.mem_cons_of_mem _ hqueued)
    have hne : other ≠ thread := by
      rintro rfl
      rw [hticket] at hother
      exact hlater task' hqueued (Option.some.inj hother).symm
    exact ⟨other, hother, by simpa [Function.update_of_ne hne] using hcalled'⟩
  · intro other
    have hstand := h.caller other
    dsimp only
    by_cases heq : other = thread
    · subst heq
      rw [Function.update_self]
      cases hc : s.executor.threads other with
      | notifying isCall ticket =>
        rw [hc] at hstand hticket
        cases hticket
        exact ⟨hstand.1, hstand.2.1, fun r hr => by rw [hnew r hr, h.object]⟩
      | awaiting ticket =>
        rw [hc] at hstand hticket
        simp only [ticketOf] at hticket
        subst hticket
        exact ⟨hstand.1, fun r hr => by rw [hnew r hr, h.object]⟩
      | _ =>
        rw [hc] at hticket
        cases hticket
    · rw [Function.update_of_ne heq]
      have hk : ∀ k, ticketOf (s.executor.threads other) = some k → k ≠ task.ticket := by
        rintro k hother rfl
        exact heq (h.alone other thread _ hother hticket)
      cases hc : s.executor.threads other with
      | notifying isCall ticket =>
        rw [hc] at hstand hk
        exact ⟨hstand.1, hstand.2.1, fun r hr => hstand.2.2 r (hold ticket r hr (hk ticket rfl))⟩
      | awaiting ticket =>
        rw [hc] at hstand hk
        cases ticket with
        | none => exact hstand
        | some k => exact ⟨hstand.1, fun r hr => hstand.2 r (hold k r hr (hk k rfl))⟩
      | _ =>
        rw [hc] at hstand
        exact hstand

/-- Every step of the shared object is matched by at most one step of the atomic one. -/
theorem simulated :
    Machine.Simulated (Shared.step apply) (Shared.shows (θ := θ)) (AtomicObject.step apply)
      AtomicObject.shows Matches := by
  intro s t l s' h hstep
  have quiet : ∀ {e : Executor Op θ}, s' = { s with executor := e } → Shared.shows s l = [] →
      pending e = pending s.executor → e.ran = s.executor.ran →
      e.pushed = s.executor.pushed →
      (∀ thread, ticketOf (e.threads thread) = ticketOf (s.executor.threads thread) ∧
        ∀ d, Stands s.results s.executor.pushed (s.executor.threads thread) d →
          Stands s.results s.executor.pushed (e.threads thread) d) →
      ∃ ms t', Machine.run (AtomicObject.step apply) t ms = some t' ∧
        Machine.trace (AtomicObject.step apply) AtomicObject.shows t ms = Shared.shows s l ∧
          Matches s' t' := by
    intro e hs' hshows hpending hran hpushed hthreads
    rw [hs', hshows]
    exact ⟨[], t, rfl, rfl, h.quiet hpending hran hpushed hthreads⟩
  have same : ∀ thread, ticketOf (s.executor.threads thread) =
      ticketOf (s.executor.threads thread) ∧
        ∀ d, Stands s.results s.executor.pushed (s.executor.threads thread) d →
          Stands s.results s.executor.pushed (s.executor.threads thread) d :=
    fun _ => ⟨rfl, fun _ hd => hd⟩
  cases l with
  | begin thread job =>
    simp only [Shared.step] at hstep
    split at hstep
    case isFalse => cases hstep
    case isTrue hcall =>
      obtain ⟨e, he, rfl⟩ := Option.map_eq_some_iff.mp hstep
      simp only [Executor.step] at he
      split at he
      case h_1 hidle =>
        cases he
        have hstand : t.threads thread = .idle := by
          have hstands := h.caller thread
          rwa [hidle] at hstands
        refine ⟨[.call thread job.payload], _, ?_, ?_, h.moved (d := .called job.payload) rfl
          ⟨hcall, rfl⟩ ?_⟩
        · simp only [Machine.run_cons, AtomicObject.step, hstand]
          rfl
        · rw [Machine.trace_single]
          rfl
        · intro task _ hticket
          rw [hidle] at hticket
          cases hticket
      case h_2 => cases he
  | enter thread =>
    obtain ⟨e, he, hs'⟩ := Option.map_eq_some_iff.mp hstep
    simp only [Executor.step] at he
    split at he
    case h_2 => cases he
    case h_1 job hsubmitting =>
      cases he
      simp only [Executor.enter] at hs'
      have hstand := h.caller thread
      rw [hsubmitting] at hstand
      split at hs'
      · refine quiet hs'.symm rfl rfl rfl rfl ?_
        exact threads_update (by rw [hsubmitting]; rfl) fun d hd => by rwa [hsubmitting] at hd
      · split at hs'
        · refine quiet hs'.symm rfl rfl rfl rfl ?_
          rw [if_pos hstand.1]
          refine threads_update (by rw [hsubmitting]; rfl) fun d hd => ?_
          rw [hsubmitting] at hd
          exact ⟨_, hd.2⟩
        · exact ⟨[], t, rfl, rfl, hs' ▸ h.push hsubmitting⟩
  | wakeSpace thread =>
    obtain ⟨e, he, hs'⟩ := Option.map_eq_some_iff.mp hstep
    simp only [Executor.step] at he
    split at he
    case h_2 => cases he
    case h_1 job hwaiting =>
      cases he
      refine quiet hs'.symm rfl rfl rfl rfl ?_
      exact threads_update (by rw [hwaiting]; rfl) fun d hd => by rwa [hwaiting] at hd
  | notify thread =>
    obtain ⟨e, he, hs'⟩ := Option.map_eq_some_iff.mp hstep
    simp only [Executor.step] at he
    split at he
    case h_2 => cases he
    case h_1 isCall ticket hnotifying =>
      cases he
      have hstand := h.caller thread
      rw [hnotifying] at hstand
      refine quiet hs'.symm rfl (by simp [pending, Executor.set]) rfl rfl ?_
      rw [if_pos hstand.1]
      refine threads_update (by rw [hnotifying]; rfl) fun d hd => ?_
      rw [hnotifying] at hd
      exact hd.2
  | get thread =>
    obtain ⟨e, he, hs'⟩ := Option.map_eq_some_iff.mp hstep
    simp only [Executor.step] at he
    split at he
    case h_2 => cases he
    case h_1 ticket hawaiting =>
      split at he
      case isFalse => cases he
      case isTrue hran =>
        cases he
        have hstand := h.caller thread
        rw [hawaiting] at hstand
        have hlt : ticket < s.results.length := by
          rw [h.ran_eq, List.mem_range] at hran
          rwa [h.answered]
        obtain ⟨r, hr⟩ : ∃ r, s.results[ticket]? = some r :=
          ⟨_, List.getElem?_eq_getElem hlt⟩
        have hanswered := hstand.2 r hr
        refine ⟨[.answer thread], _, ?_, ?_, hs' ▸ h.moved (c := .idle) (d := .idle) rfl rfl ?_⟩
        · simp only [Machine.run_cons, AtomicObject.step, hanswered]
          rfl
        · rw [Machine.trace_single]
          simp only [AtomicObject.shows, Shared.shows, hanswered, hawaiting, hr]
          rfl
        · intro task _ _ hcalled
          rw [hanswered] at hcalled
          cases hcalled
  | stop thread =>
    obtain ⟨e, he, hs'⟩ := Option.map_eq_some_iff.mp hstep
    simp only [Executor.step] at he
    split at he
    case h_2 => cases he
    case h_1 hidle =>
      cases he
      refine quiet hs'.symm rfl rfl rfl rfl ?_
      refine threads_update (by rw [hidle]; split <;> rfl) fun d hd => ?_
      rw [hidle] at hd
      split <;> exact hd
  | notifyStop thread =>
    obtain ⟨e, he, hs'⟩ := Option.map_eq_some_iff.mp hstep
    simp only [Executor.step] at he
    split at he
    case h_2 => cases he
    case h_1 hstopping =>
      cases he
      refine quiet hs'.symm rfl (by simp [pending, Executor.set]) rfl rfl ?_
      exact threads_update (by rw [hstopping]; rfl) fun d hd => by rwa [hstopping] at hd
  | notifyStopSpace thread =>
    obtain ⟨e, he, hs'⟩ := Option.map_eq_some_iff.mp hstep
    simp only [Executor.step] at he
    split at he
    case h_2 => cases he
    case h_1 hstopping =>
      cases he
      refine quiet hs'.symm rfl rfl rfl rfl fun other => ?_
      by_cases heq : other = thread
      · subst heq
        simp only [Function.update_self, hstopping]
        exact ⟨rfl, fun d hd => hd⟩
      · simp [Function.update_of_ne heq]
  | joined thread =>
    obtain ⟨e, he, hs'⟩ := Option.map_eq_some_iff.mp hstep
    simp only [Executor.step] at he
    split at he
    case h_2 => cases he
    case h_1 hjoining _ =>
      cases he
      refine quiet hs'.symm rfl rfl rfl rfl ?_
      exact threads_update (by rw [hjoining]; rfl) fun d hd => by rwa [hjoining] at hd
  | workerEnter =>
    obtain ⟨e, he, hs'⟩ := Option.map_eq_some_iff.mp hstep
    simp only [Executor.step] at he
    split at he
    case h_2 => cases he
    case h_1 hentering =>
      cases he
      simp only [Executor.workerEnter] at hs'
      split at hs'
      case h_1 hqueue =>
        refine quiet hs'.symm rfl ?_ rfl rfl same
        split <;> simp [pending, hentering, Worker.task]
      case h_2 task rest hqueue =>
        refine quiet hs'.symm rfl ?_ rfl rfl same
        simp [pending, hentering, hqueue, Worker.task]
  | workerWake =>
    obtain ⟨e, he, hs'⟩ := Option.map_eq_some_iff.mp hstep
    simp only [Executor.step] at he
    split at he
    case h_2 => cases he
    case h_1 hwaiting =>
      cases he
      exact quiet hs'.symm rfl (by simp [pending, hwaiting, Worker.task]) rfl rfl same
  | workerNotify =>
    obtain ⟨e, he, hs'⟩ := Option.map_eq_some_iff.mp hstep
    simp only [Executor.step] at he
    split at he
    case h_2 => cases he
    case h_1 task hpopped =>
      cases he
      refine quiet hs'.symm rfl (by simp [pending, hpopped, Worker.task]) rfl rfl
        fun thread => ?_
      simp
  | workerFinish throws =>
    simp only [Shared.step] at hstep
    split at hstep
    case h_2 => cases hstep
    case h_1 task hrunning =>
      have hcall : task.job.isCall = true :=
        h.calls task (by simp [pending, hrunning, Worker.task])
      obtain ⟨e, he, hs'⟩ := Option.map_eq_some_iff.mp hstep
      simp only [Executor.step, hrunning, Executor.workerFinish, hcall, Bool.not_true,
        Bool.and_false, Bool.false_eq_true, if_false, Option.some.injEq] at he
      obtain ⟨thread, t', ht', hmatches⟩ := h.finish apply hrunning
      refine ⟨[.perform thread], t', ?_, ?_, ?_⟩
      · rw [Machine.run_cons, ht']
        rfl
      · rw [Machine.trace_single]
        rfl
      · rw [← hs', ← he]
        exact hmatches

omit [DecidableEq θ] in
theorem matches_start (maxPendingTasks : Nat) (object : σ) :
    Matches (start maxPendingTasks object : Shared σ θ Op Res)
      (AtomicObject.State.mk object fun _ => .idle) where
  object := rfl
  order := rfl
  answered := rfl
  calls := fun _ h => by cases h
  owner := fun _ h => by cases h
  alone := fun _ _ _ h => by cases h
  caller := fun _ => rfl

/-- Whatever the threads do, what they see of the object behind the executor is a history of
operations that take effect one at a time, each between its call and its answer. -/
theorem linearizable {maxPendingTasks : Nat} {object : σ} {ls : List (SerialExecutor.Step Op θ)}
    {s : Shared σ θ Op Res}
    (hrun : Machine.run (Shared.step apply) (start maxPendingTasks object) ls = some s) :
    Linearizable apply object
      (Machine.trace (Shared.step apply) Shared.shows (start maxPendingTasks object) ls)
      s.object := by
  obtain ⟨ms, t, ht, hshown, hmatches⟩ :=
    (simulated apply).run (matches_start maxPendingTasks object) hrun
  exact ⟨ms, t, ht, hshown, hmatches.object⟩

end Shared

end ExecutorCalls

end HolderDaemon
