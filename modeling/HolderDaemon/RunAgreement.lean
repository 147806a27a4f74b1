import HolderDaemon.AiRuns

/-!
What the records of a run say when its request is over, and where they agree.
-/

set_option autoImplicit false

open Bytes

namespace HolderDaemon

namespace AiRuns

/-- One terminal event, the last one; the row and the thread say what it says. -/
def Agrees (thread : Bool) (r : Records) : Prop :=
  ∃ front name, r.events = front ++ [name] ∧ name.terminal = true ∧
    (∀ e ∈ front, e.terminal = false) ∧
    r.status = (if name = .done then .completed else .failed) ∧
    (thread = true → (r.assistant = true ↔ r.status = .completed))

/-- How many steps of a path have been taken when one throws out of it; that step counts
where it has taken effect. -/
def escape (env : Env) : Nat → List Op → Option Nat
  | _, [] => none
  | i, op :: ops =>
    if env.stops i op then some (if env.takesEffect i then 1 else 0)
    else (escape env (i + 1) ops).map (· + 1)

/-- No step throws out of the path; or the first that does comes after the completion guard,
before the assistant's message in a thread and before `done` is journaled, and either
`failed` is not journaled yet and the handler journals it, or it is and the handler does not. -/
def Recovers (env : Env) (input : Input) : Prop :=
  ∀ n, escape env 0 input.path = some n →
    .guard ∈ input.path.take n ∧
    (input.thread = true → .appendAssistantMessage ∉ input.path.take n) ∧
    .event .done ∉ input.path.take n ∧
    (.event .failed ∈ input.path.take n ↔ env.handlerThrows = true)

/-! Parts of a path -/

theorem escape_le {env : Env} {i n : Nat} {ops : List Op} (h : escape env i ops = some n) :
    n ≤ ops.length := by
  induction ops generalizing i n with
  | nil => cases h
  | cons op ops ih =>
    simp only [escape] at h
    split at h
    · cases h
      split <;> simp
    · obtain ⟨k, hk, rfl⟩ := Option.map_eq_some_iff.mp h
      simpa using ih hk

theorem escape_append (env : Env) (i : Nat) (a b : List Op) :
    escape env i (a ++ b) =
      (escape env i a).or ((escape env (i + a.length) b).map (a.length + ·)) := by
  induction a generalizing i with
  | nil => simp [escape]
  | cons op a ih =>
    have hindex : i + 1 + a.length = i + (op :: a).length := by simp; omega
    simp only [List.cons_append, escape]
    split
    · rfl
    · rw [ih, Option.map_or, Option.map_map, hindex]
      congr 2
      funext n
      simp only [Function.comp_apply, List.length_cons]
      omega

theorem execute_append (env : Env) (i : Nat) (a b : List Op) (r : Records) :
    execute env i (a ++ b) r =
      if (execute env i a r).2 then execute env i a r
      else execute env (i + a.length) b (execute env i a r).1 := by
  induction a generalizing i r with
  | nil => simp [execute]
  | cons op a ih =>
    have hindex : i + 1 + a.length = i + (op :: a).length := by simp; omega
    by_cases hstop : env.stops i op = true
    · simp [execute, hstop]
    · simp only [List.cons_append, execute, hstop, Bool.false_eq_true, if_false]
      rw [ih, hindex]

theorem execute_escaped (env : Env) (i : Nat) (ops : List Op) (r : Records) :
    (execute env i ops r).2 = (escape env i ops).isSome := by
  induction ops generalizing i r with
  | nil => rfl
  | cons op ops ih =>
    simp only [execute, escape]
    split
    · rfl
    · rw [ih, Option.isSome_map]

/-- Steps that journal no terminal event. -/
def Op.quiet : Op → Bool
  | .event name => !name.terminal
  | .callback name => !name.terminal
  | _ => true

/-- What the records show of the quiet steps of a path so far. -/
structure Shows (steps : List Op) (r : Records) : Prop where
  running : ∀ e ∈ r.events, e.terminal = false
  guarded : r.guarded = true ↔ .guard ∈ steps
  assistant : r.assistant = true ↔ .appendAssistantMessage ∈ steps

theorem shows_start : Shows [] {} := ⟨by simp, by simp, by simp⟩

theorem Shows.journal {steps : List Op} {r : Records} (h : Shows steps r) {op : Op}
    {name : EventName} (hname : name.terminal = false) (hguard : op ≠ .guard)
    (hmessage : op ≠ .appendAssistantMessage) :
    Shows (steps ++ [op]) { r with events := r.events ++ [name] } := by
  refine ⟨?_, ?_, ?_⟩
  · intro e he
    rcases List.mem_append.mp he with he | he
    · exact h.running e he
    · rw [List.mem_singleton.mp he]
      exact hname
  · simpa [hguard.symm] using h.guarded
  · simpa [hmessage.symm] using h.assistant

theorem Shows.effect {steps : List Op} {r : Records} (h : Shows steps r) {op : Op}
    (hquiet : op.quiet = true) : Shows (steps ++ [op]) (op.effect r) := by
  cases op with
  | appendStarted => exact h.journal (by decide) (by simp) (by simp)
  | guard => exact ⟨h.running, by simp [Op.effect], by simpa [Op.effect] using h.assistant⟩
  | event name => exact h.journal (by simpa [Op.quiet] using hquiet) (by simp) (by simp)
  | callback name => exact h.journal (by simpa [Op.quiet] using hquiet) (by simp) (by simp)
  | appendAssistantMessage =>
    exact ⟨h.running, by simpa [Op.effect] using h.guarded, by simp [Op.effect]⟩
  | updateStatus status =>
    exact ⟨h.running, by simpa [Op.effect] using h.guarded, by simpa [Op.effect] using h.assistant⟩
  | call c =>
    exact ⟨h.running, by simpa [Op.effect] using h.guarded, by simpa [Op.effect] using h.assistant⟩

/-- Only a swallowed callback is passed over. -/
theorem Shows.passed {steps : List Op} {r : Records} (h : Shows steps r) {env : Env} {i : Nat}
    {op : Op} (hquiet : op.quiet = true) (hgo : env.stops i op = false) :
    Shows (steps ++ [op]) (env.apply i op r) := by
  unfold Env.apply
  split
  · exact h.effect hquiet
  · rename_i heffect
    cases op with
    | callback name => exact ⟨h.running, by simpa using h.guarded, by simpa using h.assistant⟩
    | _ => simp_all [Env.stops, Env.takesEffect, Env.absorbed]

theorem execute_shows {env : Env} {i : Nat} {ops steps : List Op} {r : Records}
    (h : Shows steps r) (hquiet : ∀ op ∈ ops, op.quiet = true) :
    Shows (steps ++ ops.take ((escape env i ops).getD ops.length)) (execute env i ops r).1 := by
  induction ops generalizing i steps r with
  | nil => simpa [execute] using h
  | cons op ops ih =>
    simp only [execute, escape]
    by_cases hstop : env.stops i op = true
    · simp only [hstop, if_true, Option.getD_some, Env.apply]
      split
      · exact h.effect (hquiet op List.mem_cons_self)
      · simpa using h
    · have hgo : env.stops i op = false := by simpa using hstop
      have hrest := ih (i := i + 1) (h.passed (hquiet op List.mem_cons_self) hgo)
        fun o ho => hquiet o (List.mem_cons_of_mem op ho)
      simp only [hstop, Bool.false_eq_true, if_false]
      cases hlater : escape env (i + 1) ops with
      | none => simpa [hlater, List.append_assoc] using hrest
      | some n => simpa [hlater, List.append_assoc] using hrest

/-! The shape of a path -/

/-- Steps of the part of a path that has no result yet. -/
def Op.plain : Op → Bool
  | .event name => !name.terminal
  | .callback name => !name.terminal
  | .appendAssistantMessage => false
  | .updateStatus _ => false
  | _ => true

@[simp] theorem plain_event (name : EventName) : (Op.event name).plain = !name.terminal := rfl

@[simp] theorem plain_callback (name : EventName) :
    (Op.callback name).plain = !name.terminal := rfl

@[simp] theorem plain_call (c : Call) : (Op.call c).plain = true := rfl

theorem Op.plain.quiet {op : Op} (h : op.plain = true) : op.quiet = true := by
  cases op <;> simp_all [Op.quiet]

def Plain (ops : List Op) : Prop := ∀ op ∈ ops, op.plain = true

@[simp] theorem plain_nil : Plain [] := by simp [Plain]

@[simp] theorem plain_cons (op : Op) (ops : List Op) :
    Plain (op :: ops) ↔ op.plain = true ∧ Plain ops := by simp [Plain]

@[simp] theorem plain_append (a b : List Op) : Plain (a ++ b) ↔ Plain a ∧ Plain b := by
  simp [Plain, or_imp, forall_and]

@[simp] theorem plain_replicate {name : EventName} (h : name.terminal = false) (n : Nat) :
    Plain (List.replicate n (.callback name)) := by
  intro op hop
  rw [List.eq_of_mem_replicate hop]
  simpa using h

theorem plain_if (c : Prop) [Decidable c] {a b : List Op} (ha : Plain a) (hb : Plain b) :
    Plain (if c then a else b) := by
  split
  · exact ha
  · exact hb

theorem plain_refreshSummary (cfg : SummaryRefresh) (refresh : Refresh) :
    Plain (refreshSummary cfg refresh).1 := by
  unfold refreshSummary
  repeat' split
  all_goals simp [EventName.terminal]

theorem plain_tryCandidates (candidates : List Candidate) :
    Plain (tryCandidates candidates).1 := by
  induction candidates with
  | nil => simp [tryCandidates]
  | cons c rest ih =>
    unfold tryCandidates
    repeat' split
    all_goals simp [EventName.terminal, ih]

theorem plain_tryModels (models : List Generation) : Plain (tryModels models).1 := by
  induction models with
  | nil => simp [tryModels]
  | cons g rest ih =>
    unfold tryModels
    split
    all_goals simp [EventName.terminal, ih]

theorem plain_routingOps (routing : Routing) : Plain (routingOps routing) := by
  cases routing <;> simp [routingOps, EventName.terminal]

theorem plain_maybeUpdateThreadTitle (thread textEmpty : Bool) (title : Title) :
    Plain (maybeUpdateThreadTitle thread textEmpty title) := by
  unfold maybeUpdateThreadTitle
  repeat' split
  all_goals simp

theorem plain_cloudBody (input : CloudInput) : Plain (cloudBody input) := by
  have hrefresh := plain_refreshSummary input.summaryRefresh input.refresh
  simp only [cloudBody, plain_append, plain_cons]
  refine ⟨⟨⟨⟨⟨rfl, ?_⟩, ?_⟩, plain_tryCandidates input.candidates⟩, ?_⟩, ?_⟩
  · exact plain_if _ (by simp) plain_nil
  · rw [apply_ite Prod.fst]
    exact plain_if _ hrefresh plain_nil
  · exact plain_if _ (by simp) plain_nil
  · exact plain_if _ (by simp [EventName.terminal]) plain_nil

theorem plain_localBody (input : LocalInput) : Plain (localBody input) := by
  simp only [localBody, plain_append]
  exact ⟨⟨plain_if _ (by simp) plain_nil, plain_routingOps input.routing⟩,
    plain_tryModels input.models⟩

/-- The result of a path: its assistant's message, its row and its terminal event. -/
inductive Result (thread : Bool) : List Op → Status → EventName → Prop where
  | completed :
      Result thread (if thread then [.appendAssistantMessage] else []) .completed .done
  | failed : Result thread [] .failed .failed

theorem ending_shape (thread textEmpty answered : Bool) (title : Title) {trace : List Op}
    (htrace : Plain trace) :
    ∃ message rest status name,
      ending thread textEmpty answered title trace =
        message ++ rest ++ [.updateStatus status, .event name] ∧
      Plain rest ∧ Result thread message status name := by
  cases answered with
  | true =>
    refine ⟨_, maybeUpdateThreadTitle thread textEmpty title ++ trace, _, _, ?_, ?_, .completed⟩
    · simp [ending]
    · exact (plain_append _ _).mpr ⟨plain_maybeUpdateThreadTitle thread textEmpty title, htrace⟩
  | false => exact ⟨[], trace, _, _, by simp [ending], htrace, .failed⟩

/-- A path is the guard, plain steps, the assistant's message where there is one, plain steps
again, the row and the terminal event. -/
theorem path_shape (input : Input) :
    ∃ body message rest status name,
      input.path =
        opening ++ body ++ message ++ rest ++ [.updateStatus status] ++ [.event name] ∧
      Plain body ∧ Plain rest ∧ Result input.thread message status name := by
  cases input with
  | cloud input =>
    obtain ⟨message, rest, status, name, hend, hrest, hresult⟩ :=
      ending_shape input.thread input.textEmpty (tryCandidates input.candidates).2 input.title
        (show Plain [.call .dumpPolicyTrace] by simp)
    refine ⟨cloudBody input, message, rest, status, name, ?_, plain_cloudBody input, hrest, hresult⟩
    simp [Input.path, executeCloudPostPath, hend]
  | «local» input =>
    obtain ⟨message, rest, status, name, hend, hrest, hresult⟩ :=
      ending_shape input.thread input.textEmpty (tryModels input.models).2 input.title plain_nil
    refine ⟨localBody input, message, rest, status, name, ?_, plain_localBody input, hrest, hresult⟩
    simp [Input.path, executeLocalPostPath, hend]

/-! Agreement -/

/-- The steps before the terminal event. -/
structure Front (thread : Bool) (status : Status) (name : EventName) (front : List Op) : Prop where
  quiet : ∀ op ∈ front, op.quiet = true
  guard : .guard ∈ front
  message : thread = true → (.appendAssistantMessage ∈ front ↔ status = .completed)
  result : status = .completed ∧ name = .done ∨ status = .failed ∧ name = .failed
  row : ∃ rest, front = rest ++ [.updateStatus status]

theorem path_front (input : Input) :
    ∃ front status name, input.path = front ++ [.event name] ∧
      Front input.thread status name front := by
  obtain ⟨body, message, rest, status, name, hpath, hbody, hrest, hresult⟩ := path_shape input
  have hnot : ∀ {ops}, Plain ops → .appendAssistantMessage ∉ ops := fun h hmem =>
    Bool.false_ne_true (h _ hmem)
  refine ⟨_, status, name, hpath, ?_, by simp [opening], ?_, ?_, _, rfl⟩
  · have hmessage : ∀ op ∈ message, op.quiet = true := by
      cases hresult with
      | completed => split <;> simp [Op.quiet]
      | failed => simp
    intro op hop
    simp only [List.mem_append, List.mem_singleton] at hop
    rcases hop with (((hop | hop) | hop) | hop) | rfl
    · have hopening : ∀ op ∈ opening, op.quiet = true := by decide
      exact hopening op hop
    · exact Op.plain.quiet (hbody op hop)
    · exact hmessage op hop
    · exact Op.plain.quiet (hrest op hop)
    · rfl
  · intro hthread
    have hopening : .appendAssistantMessage ∉ opening := by decide
    have hmem : .appendAssistantMessage ∈ message ↔ status = .completed := by
      cases hresult <;> simp [hthread]
    simpa [hnot hbody, hnot hrest, hopening] using hmem
  · cases hresult <;> simp

theorem Front.no_event {thread : Bool} {status : Status} {name : EventName} {front : List Op}
    (h : Front thread status name front) {e : EventName} (he : e.terminal = true) :
    .event e ∉ front := by
  intro hmem
  have hquiet := h.quiet _ hmem
  simp [Op.quiet, he] at hquiet

/-- A front that has run to its end has put its result into the row. -/
theorem Front.status {thread : Bool} {status : Status} {name : EventName} {front : List Op}
    (h : Front thread status name front) {env : Env} {r : Records}
    (hgo : escape env 0 front = none) : (execute env 0 front r).1.status = status := by
  obtain ⟨rest, rfl⟩ := h.row
  have hfate : env.stops rest.length (.updateStatus status) = false := by
    rw [escape_append, Nat.zero_add] at hgo
    have hlast := (Option.or_eq_none_iff.mp hgo).2
    rw [Option.map_eq_none_iff, escape] at hlast
    split at hlast
    · cases hlast
    · simp_all
  have heffect : env.takesEffect rest.length = true := by
    simp_all [Env.stops, Env.absorbed, Env.takesEffect]
  have hrest : (execute env 0 rest r).2 = false := by
    rw [execute_escaped]
    rw [escape_append] at hgo
    simp [(Option.or_eq_none_iff.mp hgo).1]
  rw [execute_append]
  simp [hrest, execute, hfate, Env.apply, heffect, Op.effect]

/-- Where a step throws before any terminal event, the completion handler makes the records
agree exactly where it exists, its own append works and no message is stored. -/
theorem completeRun_agrees {env : Env} {thread : Bool} {steps : List Op} {r : Records}
    (h : Shows steps r) :
    Agrees thread (if r.guarded then completeRun env r else r) ↔
      .guard ∈ steps ∧ (thread = true → .appendAssistantMessage ∉ steps) ∧
        env.handlerThrows = false := by
  have hopen : ¬ Agrees thread { r with status := .failed } ∧ ¬ Agrees thread r := by
    constructor
    all_goals
      rintro ⟨front, name, hevents, hname, -⟩
      have hmem : name ∈ r.events := by
        rw [show r.events = front ++ [name] from hevents]
        simp
      exact Bool.false_ne_true ((h.running name hmem).symm.trans hname)
  rw [← h.guarded, ← h.assistant]
  cases hguard : r.guarded with
  | false => simpa [hguard] using hopen.2
  | true =>
    cases hthrows : env.handlerThrows with
    | true => simpa [completeRun, hthrows] using hopen.1
    | false =>
      simp only [completeRun, hthrows, Bool.false_eq_true, if_false, if_true, true_and, and_true]
      constructor
      · rintro ⟨front, name, -, -, -, -, hassistant⟩ hthread
        simpa using hassistant hthread
      · intro hassistant
        refine ⟨r.events, .failed, rfl, rfl, h.running, rfl, fun hthread => ?_⟩
        simpa using hassistant hthread

/-- The records where the terminal event has been journaled and its sending throws. -/
theorem sent_agrees {env : Env} {thread : Bool} {status : Status} {name : EventName}
    {front : List Op} (h : Front thread status name front) {r : Records} (hr : Shows front r) :
    Agrees thread (completeRun env { r with events := r.events ++ [name] }) ↔
      name = .failed ∧ env.handlerThrows = true := by
  have hname : name.terminal = true := by
    rcases h.result with ⟨-, rfl⟩ | ⟨-, rfl⟩ <;> rfl
  cases hthrows : env.handlerThrows with
  | false =>
    simp only [completeRun, hthrows, Bool.false_eq_true, if_false, and_false, iff_false]
    rintro ⟨front', name', hevents, -, hfront, -⟩
    have hsame := (List.append_inj' hevents rfl).1
    have hmem : name ∈ front' := by simp [← hsame]
    exact Bool.false_ne_true ((hfront name hmem).symm.trans hname)
  | true =>
    simp only [completeRun, hthrows, if_true, and_true]
    constructor
    · rintro ⟨front', name', hevents, -, -, hstatus, -⟩
      obtain rfl : name = name' := by simpa using (List.append_inj' hevents rfl).2
      rcases h.result with ⟨-, rfl⟩ | ⟨-, rfl⟩
      · cases hstatus
      · rfl
    · rintro rfl
      have hfailed : status = .failed := by simpa using h.result
      refine ⟨r.events, .failed, rfl, rfl, hr.running, rfl, fun hthread => ?_⟩
      have hmessage := h.message hthread
      rw [← hr.assistant, hfailed] at hmessage
      simpa using hmessage

theorem recovers_before_event {env : Env} {input : Input} {front : List Op} {status : Status}
    {name : EventName} (hpath : input.path = front ++ [.event name])
    (hfront : Front input.thread status name front) {n : Nat} (hn : n ≤ front.length)
    (hstop : escape env 0 input.path = some n) :
    Recovers env input ↔
      .guard ∈ front.take n ∧ (input.thread = true → .appendAssistantMessage ∉ front.take n) ∧
        env.handlerThrows = false := by
  have hno : ∀ e : EventName, e.terminal = true → Op.event e ∉ front.take n := fun e he hmem =>
    hfront.no_event he (List.mem_of_mem_take hmem)
  simp only [Recovers, hstop, Option.some.injEq, forall_eq']
  rw [hpath, List.take_append_of_le_length hn]
  simp only [hno .done rfl, hno .failed rfl, not_false_eq_true, true_and, false_iff,
    Bool.not_eq_true]

theorem recovers_after_event {env : Env} {input : Input} {front : List Op} {status : Status}
    {name : EventName} (hpath : input.path = front ++ [.event name])
    (hfront : Front input.thread status name front)
    (hstop : escape env 0 input.path = some (front.length + 1)) :
    Recovers env input ↔ name = .failed ∧ env.handlerThrows = true := by
  have htake : (front ++ [Op.event name]).take (front.length + 1) = front ++ [.event name] :=
    List.take_of_length_le (by simp)
  have hmessage := hfront.message
  simp only [Recovers, hstop, Option.some.injEq, forall_eq']
  rw [hpath, htake]
  rcases hfront.result with ⟨rfl, rfl⟩ | ⟨rfl, rfl⟩
  · simp
  · have hnone : input.thread = true → .appendAssistantMessage ∉ front := by simpa using hmessage
    simpa [hfront.guard, hfront.no_event (e := .done) rfl] using fun _ => hnone

/-- The records of a run agree exactly where the path recovers from its first escape. -/
theorem run_agrees_iff (env : Env) (input : Input) :
    Agrees input.thread (outcome env input) ↔ Recovers env input := by
  obtain ⟨front, status, name, hpath, hfront⟩ := path_front input
  have hescaped := execute_escaped env 0 front {}
  have hshows : Shows _ (execute env 0 front {}).1 := execute_shows shows_start hfront.quiet
  have hescape : escape env 0 input.path =
      (escape env 0 front).or ((escape env front.length [.event name]).map (front.length + ·)) := by
    rw [hpath, escape_append, Nat.zero_add]
  have hexecute : execute env 0 input.path {} =
      if (execute env 0 front {}).2 then execute env 0 front {}
      else execute env front.length [.event name] (execute env 0 front {}).1 := by
    rw [hpath, execute_append, Nat.zero_add]
  cases hstop : escape env 0 front with
  | some n =>
    have hout : outcome env input =
        if (execute env 0 front {}).1.guarded then completeRun env (execute env 0 front {}).1
        else (execute env 0 front {}).1 := by
      simp only [hstop, Option.isSome_some] at hescaped
      rw [outcome, hexecute, if_pos hescaped, ← Prod.eta (execute env 0 front {}), hescaped]
    rw [hstop, Option.some_or] at hescape
    rw [hstop, Option.getD_some, List.nil_append] at hshows
    rw [hout, completeRun_agrees hshows,
      recovers_before_event hpath hfront (escape_le hstop) hescape]
  | none =>
    have hstatus := hfront.status (r := {}) hstop
    simp only [hstop, Option.isSome_none] at hescaped
    rw [hstop, Option.getD_none, List.take_length, List.nil_append] at hshows
    rw [hescaped, if_neg Bool.false_ne_true] at hexecute
    rw [hstop, Option.none_or] at hescape
    generalize (execute env 0 front {}).1 = r at hexecute hshows hstatus
    have hguarded := hshows.guarded.mpr hfront.guard
    cases hfate : env.fate front.length with
    | passes =>
      have hout : outcome env input = { r with events := r.events ++ [name] } := by
        simp [outcome, hexecute, execute, Env.stops, Env.apply, Env.takesEffect, hfate, Op.effect]
      have hnone : escape env 0 input.path = none := by
        simp [hescape, escape, Env.stops, hfate]
      have hholds : Recovers env input := by simp [Recovers, hnone]
      rw [hout, iff_true_right hholds]
      refine ⟨r.events, name, rfl, ?_, hshows.running, ?_, fun hthread => ?_⟩
      · rcases hfront.result with ⟨-, rfl⟩ | ⟨-, rfl⟩ <;> rfl
      · rcases hfront.result with ⟨rfl, rfl⟩ | ⟨rfl, rfl⟩ <;> exact hstatus
      · rw [hshows.assistant, hfront.message hthread]
        exact hstatus ▸ Iff.rfl
    | throws =>
      have hout : outcome env input = if r.guarded then completeRun env r else r := by
        simp [outcome, hexecute, execute, Env.stops, Env.absorbed, Env.apply,
          Env.takesEffect, hfate]
      have hsome : escape env 0 input.path = some front.length := by
        simp [hescape, escape, Env.stops, Env.absorbed, Env.takesEffect, hfate]
      rw [hout, completeRun_agrees hshows, recovers_before_event hpath hfront le_rfl hsome,
        List.take_length]
    | throwsAfter =>
      have hout : outcome env input = completeRun env { r with events := r.events ++ [name] } := by
        simp [outcome, hexecute, execute, Env.stops, Env.absorbed, Env.apply, Env.takesEffect, hfate,
          Op.effect, hguarded]
      have hsome : escape env 0 input.path = some (front.length + 1) := by
        simp [hescape, escape, Env.stops, Env.absorbed, Env.takesEffect, hfate]
      rw [hout, sent_agrees hfront hshows, recovers_after_event hpath hfront hsome]

/-- A thread's run with a candidate in cooldown whose last error was cut inside a character,
and a second one that answers. -/
def cutErrorRun : CloudInput where
  thread := true
  contextEmpty := true
  summaryRefresh := ⟨0, 0, 0, 0⟩
  refresh := ⟨none, 0, 0, 0, 0, none, {}, 0, none⟩
  candidates := [
    { model := ascii "m1", cooldown := some ⟨1, 160, ascii "caf" ++ [0xC3]⟩, now := 100,
      answers := false },
    { model := ascii "m2", now := 100, answers := true }]
  textEmpty := false
  title := ⟨false, false⟩

def cutErrorEnv : Env where
  fate i := if i = 18 then .throws else .passes
  absorbs := false
  handlerThrows := false

/-- `policy_trace.dump()` throws once the answer is in the thread: the run is stored and
reported as failed. -/
theorem answered_run_failed :
    executeCloudPostPath cutErrorRun = [.appendStarted, .call .activate, .call .sendStarted,
      .guard, .event .progress, .call .appendUserMessage, .call .loadThreadCompactionState,
      .call .loadCloudModelCooldown, .call .loadCloudModelCooldown, .call .loadCloudWindowUsage,
      .call .loadCloudWindowUsage, .event .progress, .call .runCloudModel,
      .call .clearCloudModelCooldown, .call .recordCloudUsageEvent, .event .chunk,
      .appendAssistantMessage, .call .getThread, .call .dumpPolicyTrace,
      .updateStatus .completed, .event .done] ∧
    (cutErrorRun.candidates.head?.bind fun c => c.cooldown.map fun cooldown =>
      (rejectedAttempt c cooldown).encodable) = some false ∧
    outcome cutErrorEnv (.cloud cutErrorRun) =
      { events := [.runStarted, .progress, .progress, .chunk, .failed], status := .failed,
        assistant := true, guarded := true } ∧
    ¬ Agrees cutErrorRun.thread (outcome cutErrorEnv (.cloud cutErrorRun)) := by
  have hout : outcome cutErrorEnv (.cloud cutErrorRun) =
      { events := [.runStarted, .progress, .progress, .chunk, .failed], status := .failed,
        assistant := true, guarded := true } := by decide +kernel
  refine ⟨by decide +kernel, by decide +kernel, hout, ?_⟩
  rw [hout]
  rintro ⟨front, name, -, -, -, -, hassistant⟩
  simpa using hassistant rfl

end AiRuns

end HolderDaemon
