import HolderDaemon.Machine

/-!
Simulation between machines, and the linearizability of an object's history: the history is one
that an object could have shown whose operations each take effect at one moment between their
call and their answer.
-/

set_option autoImplicit false

namespace Machine

universe u v w x y

section Simulation
variable {S : Type u} {L : Type v} {T : Type w} {M : Type x} {E : Type y}

/-- What a run shows: each step shows some events. -/
def trace (step : S → L → Option S) (shows : S → L → List E) : S → List L → List E
  | _, [] => []
  | s, l :: ls => shows s l ++ ((step s l).map fun t => trace step shows t ls).getD []

variable {step : S → L → Option S} {shows : S → L → List E}

theorem trace_cons {s m : S} {l : L} {ls : List L} (h : step s l = some m) :
    trace step shows s (l :: ls) = shows s l ++ trace step shows m ls := by
  simp [trace, h]

@[simp] theorem trace_single (s : S) (l : L) : trace step shows s [l] = shows s l := by
  cases h : step s l <;> simp [trace, h]

theorem run_append {s m : S} {ls ms : List L} (h : run step s ls = some m) :
    run step s (ls ++ ms) = run step m ms := by
  induction ls generalizing s with
  | nil =>
    cases h
    rfl
  | cons l ls ih =>
    obtain ⟨k, hk, hr⟩ := run_cons_some step h
    rw [List.cons_append, run_cons, hk, Option.bind_some, ih hr]

theorem run_split {s u : S} {ls ms : List L} (h : run step s (ls ++ ms) = some u) :
    ∃ m, run step s ls = some m ∧ run step m ms = some u := by
  induction ls generalizing s with
  | nil => exact ⟨s, rfl, h⟩
  | cons l ls ih =>
    obtain ⟨k, hk, hr⟩ := run_cons_some step h
    obtain ⟨m, hm, hrest⟩ := ih hr
    exact ⟨m, by rw [run_cons, hk, Option.bind_some, hm], hrest⟩

/-- What every step keeps of the past and the state, every run keeps. -/
theorem run_history {I : List L → S → Prop}
    (keep : ∀ past s l t, I past s → step s l = some t → I (past ++ [l]) t)
    {s t : S} {ls : List L} (h0 : I [] s) (h : run step s ls = some t) : I ls t := by
  induction ls using List.reverseRecOn generalizing t with
  | nil =>
    cases h
    exact h0
  | append_singleton past l ih =>
    obtain ⟨m, hpast, hlast⟩ := run_split h
    obtain ⟨u, hu, hend⟩ := run_cons_some step hlast
    cases hend
    exact keep past m l t (ih hpast) hu

theorem trace_append {s m : S} {ls ms : List L} (h : run step s ls = some m) :
    trace step shows s (ls ++ ms) = trace step shows s ls ++ trace step shows m ms := by
  induction ls generalizing s with
  | nil =>
    cases h
    rfl
  | cons l ls ih =>
    obtain ⟨k, hk, hr⟩ := run_cons_some step h
    rw [List.cons_append, trace_cons hk, trace_cons hk, ih hr, List.append_assoc]

/-- Each step of the one machine is matched by steps of the other that show the same. -/
def Simulated (step : S → L → Option S) (shows : S → L → List E) (step' : T → M → Option T)
    (shows' : T → M → List E) (R : S → T → Prop) : Prop :=
  ∀ s t l s', R s t → step s l = some s' →
    ∃ ms t', run step' t ms = some t' ∧ trace step' shows' t ms = shows s l ∧ R s' t'

variable {step' : T → M → Option T} {shows' : T → M → List E} {R : S → T → Prop}

/-- A simulated run shows what a run of the other machine shows. -/
theorem Simulated.run (h : Simulated step shows step' shows' R) {s s' : S} {t : T}
    {ls : List L} (hr : R s t) (hrun : Machine.run step s ls = some s') :
    ∃ ms t', Machine.run step' t ms = some t' ∧
      trace step' shows' t ms = trace step shows s ls ∧ R s' t' := by
  induction ls generalizing s t with
  | nil =>
    cases hrun
    exact ⟨[], t, rfl, rfl, hr⟩
  | cons l ls ih =>
    obtain ⟨m, hm, hrest⟩ := run_cons_some step hrun
    obtain ⟨ms, t₁, hms, hshown, hr₁⟩ := h s t l m hr hm
    obtain ⟨ns, t₂, hns, hshown', hr₂⟩ := ih hr₁ hrest
    refine ⟨ms ++ ns, t₂, ?_, ?_, hr₂⟩
    · rw [run_append hms, hns]
    · rw [trace_append hms, hshown, hshown', trace_cons hm]

end Simulation

end Machine

namespace AtomicObject

universe u v w x

variable {θ : Type u} {σ : Type v} {Op : Type w} {Res : Type x}

inductive Event (θ : Type u) (Op : Type w) (Res : Type x) where
  | call (thread : θ) (op : Op)
  | answer (thread : θ) (result : Res)

inductive Caller (Op : Type w) (Res : Type x) where
  | idle
  | called (op : Op)
  | answered (result : Res)

/-- The object with its callers, each with at most one operation. -/
structure State (σ : Type v) (θ : Type u) (Op : Type w) (Res : Type x) where
  object : σ
  threads : θ → Caller Op Res := fun _ => .idle

inductive Step (θ : Type u) (Op : Type w) where
  | call (thread : θ) (op : Op)
  /-- The operation takes effect, whole. -/
  | perform (thread : θ)
  | answer (thread : θ)

variable [DecidableEq θ] (apply : σ → Op → σ × Res)

def step (s : State σ θ Op Res) : Step θ Op → Option (State σ θ Op Res)
  | .call thread op =>
    match s.threads thread with
    | .idle => some { s with threads := Function.update s.threads thread (.called op) }
    | _ => none
  | .perform thread =>
    match s.threads thread with
    | .called op =>
      some
        { object := (apply s.object op).1
          threads := Function.update s.threads thread (.answered (apply s.object op).2) }
    | _ => none
  | .answer thread =>
    match s.threads thread with
    | .answered _ => some { s with threads := Function.update s.threads thread .idle }
    | _ => none

def shows (s : State σ θ Op Res) : Step θ Op → List (Event θ Op Res)
  | .call thread op => [.call thread op]
  | .perform _ => []
  | .answer thread =>
    match s.threads thread with
    | .answered result => [.answer thread result]
    | _ => []

/-- A history of calls and answers that the object shows when each operation takes effect at
one moment between its call and its answer, and the object the operations leave. -/
def Linearizable (start : σ) (history : List (Event θ Op Res)) (final : σ) : Prop :=
  ∃ ls t, Machine.run (step apply) (State.mk start fun _ => .idle) ls = some t ∧
    Machine.trace (step apply) shows (State.mk start fun _ => .idle) ls = history ∧
    t.object = final

end AtomicObject
