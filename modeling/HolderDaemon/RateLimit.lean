import HolderDaemon.UsageLedger

/-!
The quota check of `execute_cloud_post_path` (`api/routes/ai/runs/AiRunPostRoute.cpp`) under
concurrent runs: the usage is read when a candidate is checked, and recorded after the provider
has answered.
-/

set_option autoImplicit false

open Bytes

namespace HolderDaemon

namespace CloudQuota

/-! The check -/

/-- A model of a provider, by the identifiers that its rows have. -/
structure ModelId where
  provider : Text
  modelId : Text
  deriving DecidableEq

/-- `limits` of a configured model; no positive number is no limit. -/
structure ModelLimits where
  rpm : Int := 0
  tpm : Int := 0
  rpd : Int := 0

structure WindowUsage where
  requests : Nat
  tokens : Int

def isUsage (model : ModelId) (row : UsageRow) : Bool :=
  row.provider = model.provider && row.modelId = model.modelId

def loadCloudWindowUsage (db : List UsageRow) (model : ModelId) (since : Int) : WindowUsage :=
  let rows := db.filter fun row => isUsage model row && decide (since ≤ row.createdAt.toInt)
  ⟨rows.length, (rows.map fun row => row.totalTokens.toInt).sum⟩

/-- The reason that the candidate is rejected for, or none where it is selected. -/
def rejection (limits : ModelLimits) (minute day : WindowUsage) (projectedTokens : Int) :
    Option Bytes :=
  if limits.rpm > 0 ∧ (minute.requests : Int) + 1 > limits.rpm then some (ascii "rpm_exceeded")
  else if limits.rpd > 0 ∧ (day.requests : Int) + 1 > limits.rpd then some (ascii "rpd_exceeded")
  else if limits.tpm > 0 ∧ minute.tokens + projectedTokens > limits.tpm then
    some (ascii "tpm_exceeded")
  else none

/-! Runs -/

inductive Phase where
  /-- The clock has been read, the usage not yet. -/
  | read (now : Int64)
  /-- The provider is being called. -/
  | calling (now : Int64)
  /-- The time of the event to be recorded is known. -/
  | answered (createdAt : Int64)
  | ended
  deriving DecidableEq, Repr

/-- One candidate of one run. The refresh of a thread's summary records its event at the time that
was read before its check; the answer of a run is recorded at the time it is there. -/
structure Attempt where
  model : ModelId
  summary : Bool
  phase : Phase
  deriving DecidableEq

structure Quota where
  clock : Int64
  db : List UsageRow := []
  attempts : List Attempt := []

inductive QuotaStep where
  | tick (now : Int64)
  | begin (model : ModelId) (summary : Bool)
  | check (i : Nat) (projectedTokens : Int)
  /-- The model cools down, or the request fails, or an exception ends the run. -/
  | fail (i : Nat)
  | answer (i : Nat)
  /-- `record_cloud_usage_event`, where its insertion takes place. -/
  | record (i : Nat) (eventId : Text) (promptTokens responseTokens : Int64)

section Steps
variable (limits : ModelId → ModelLimits)

namespace Quota

def put (s : Quota) (i : Nat) (a : Attempt) : Quota := { s with attempts := s.attempts.set i a }

def check (s : Quota) (i : Nat) (projectedTokens : Int) : Option Quota :=
  match s.attempts[i]? with
  | some ⟨model, summary, .read now⟩ =>
    let minute := loadCloudWindowUsage s.db model (now.toInt - 60)
    let day := loadCloudWindowUsage s.db model (now.toInt - 86400)
    match rejection (limits model) minute day projectedTokens with
    | some _ => some (s.put i ⟨model, summary, .ended⟩)
    | none => some (s.put i ⟨model, summary, .calling now⟩)
  | _ => none

/-- The clock does not go back. -/
def step (s : Quota) : QuotaStep → Option Quota
  | .tick now => if s.clock ≤ now then some { s with clock := now } else none
  | .begin model summary =>
    some { s with attempts := s.attempts ++ [⟨model, summary, .read s.clock⟩] }
  | .check i projectedTokens => s.check limits i projectedTokens
  | .fail i =>
    match s.attempts[i]? with
    | some ⟨model, summary, _⟩ => some (s.put i ⟨model, summary, .ended⟩)
    | none => none
  | .answer i =>
    match s.attempts[i]? with
    | some ⟨model, summary, .calling now⟩ =>
      some (s.put i ⟨model, summary, .answered (if summary then now else s.clock)⟩)
    | _ => none
  | .record i eventId promptTokens responseTokens =>
    match s.attempts[i]? with
    | some ⟨model, summary, .answered createdAt⟩ =>
      if (Rows.get UsageRow.eventId eventId s.db).isSome then none
      else
        some { s.put i ⟨model, summary, .ended⟩ with
          db := s.db ++ [⟨eventId, model.provider, model.modelId, promptTokens, responseTokens,
            promptTokens + responseTokens, createdAt⟩] }
    | _ => none

end Quota

end Steps

/-! What may fall into a window -/

/-- The rows of a model in the sixty seconds from `t` on. -/
def recordedIn (db : List UsageRow) (model : ModelId) (t : Int) : Nat :=
  db.countP fun row => isUsage model row &&
    decide (t ≤ row.createdAt.toInt ∧ row.createdAt.toInt ≤ t + 60)

/-- Selected, and not recorded yet. -/
def Attempt.inFlight (model : ModelId) (a : Attempt) : Bool :=
  a.model = model &&
    match a.phase with
    | .calling _ | .answered _ => true
    | .read _ | .ended => false

/-- The event of the attempt may yet be one of the window's. -/
def Attempt.mayFall (clock : Int64) (model : ModelId) (t : Int) (a : Attempt) : Bool :=
  a.model = model &&
    match a.phase with
    | .calling now =>
      if a.summary then decide (t ≤ now.toInt ∧ now.toInt ≤ t + 60)
      else decide (clock.toInt ≤ t + 60)
    | .answered createdAt => decide (t ≤ createdAt.toInt ∧ createdAt.toInt ≤ t + 60)
    | .read _ | .ended => false

theorem inFlight_of_mayFall {clock : Int64} {model : ModelId} {t : Int} {a : Attempt}
    (h : a.mayFall clock model t = true) : a.inFlight model = true := by
  obtain ⟨m, summary, phase⟩ := a
  cases phase <;> simp_all [Attempt.mayFall, Attempt.inFlight]

/-- In every window, what is recorded and what may yet be recorded is within the limit; and no
check has been begun in the future. -/
structure Limited (limits : ModelId → ModelLimits) (s : Quota) : Prop where
  window : ∀ model t, 0 < (limits model).rpm →
    ((recordedIn s.db model t + s.attempts.countP (Attempt.mayFall s.clock model t) : Nat) :
      Int) ≤ (limits model).rpm
  begun : ∀ a ∈ s.attempts, ∀ now, a.phase = .read now → now ≤ s.clock

/-- Where the candidate passes its check, the limit has room for the model's runs in flight too. -/
def Attempt.Room (limits : ModelId → ModelLimits) (s : Quota) (projectedTokens : Int) :
    Attempt → Prop
  | ⟨model, _, .read now⟩ =>
    rejection (limits model) (loadCloudWindowUsage s.db model (now.toInt - 60))
      (loadCloudWindowUsage s.db model (now.toInt - 86400)) projectedTokens = none →
    0 < (limits model).rpm →
    (((loadCloudWindowUsage s.db model (now.toInt - 60)).requests +
      s.attempts.countP (Attempt.inFlight model) : Nat) : Int) + 1 ≤ (limits model).rpm
  | ⟨_, _, .calling _⟩ | ⟨_, _, .answered _⟩ | ⟨_, _, .ended⟩ => True

def Counted (limits : ModelId → ModelLimits) (s : Quota) : QuotaStep → Prop
  | .check i projectedTokens => ∀ a ∈ s.attempts[i]?, a.Room limits s projectedTokens
  | .tick _ | .begin _ _ | .fail _ | .answer _ | .record _ _ _ _ => True

instance (limits : ModelId → ModelLimits) (s : Quota) (projectedTokens : Int) :
    (a : Attempt) → Decidable (a.Room limits s projectedTokens)
  | ⟨_, _, .read _⟩ => inferInstanceAs (Decidable (_ → _ → _))
  | ⟨_, _, .calling _⟩ | ⟨_, _, .answered _⟩ | ⟨_, _, .ended⟩ => isTrue trivial

instance (limits : ModelId → ModelLimits) (s : Quota) :
    (l : QuotaStep) → Decidable (Counted limits s l)
  | .check i projectedTokens =>
    inferInstanceAs (Decidable (∀ a ∈ s.attempts[i]?, a.Room limits s projectedTokens))
  | .tick _ | .begin _ _ | .fail _ | .answer _ | .record _ _ _ _ => isTrue trivial

/-- One entry is written over another. -/
theorem countP_set_add {α : Type} (p : α → Bool) {l : List α} {i : Nat} {a : α} (b : α)
    (h : l[i]? = some a) :
    (l.set i b).countP p + (if p a then 1 else 0) = l.countP p + if p b then 1 else 0 := by
  induction l generalizing i with
  | nil => simp at h
  | cons c l ih =>
    cases i with
    | zero =>
      rw [List.getElem?_cons_zero, Option.some.injEq] at h
      rw [List.set_cons_zero, List.countP_cons, List.countP_cons, h]
      omega
    | succ i =>
      rw [List.getElem?_cons_succ] at h
      have hrest := ih h
      rw [List.set_cons_succ, List.countP_cons, List.countP_cons]
      omega

/-- The rows of a window that a check may open are among those that it counts. -/
theorem recordedIn_le {db : List UsageRow} {model : ModelId} {t since : Int} (h : since ≤ t) :
    recordedIn db model t ≤ (loadCloudWindowUsage db model since).requests := by
  rw [recordedIn, loadCloudWindowUsage, ← List.countP_eq_length_filter]
  refine List.countP_mono_left fun row _ hrow => ?_
  simp only [Bool.and_eq_true, decide_eq_true_eq] at hrow ⊢
  exact ⟨hrow.1, le_trans h hrow.2.1⟩

section Keeps
variable {limits : ModelId → ModelLimits} {s t : Quota}

/-- An attempt goes on to a phase in which its event falls into no more windows. -/
theorem Limited.put (h : Limited limits s) {i : Nat} {a b : Attempt}
    (ha : s.attempts[i]? = some a)
    (hfall : ∀ model u, b.mayFall s.clock model u = true → a.mayFall s.clock model u = true)
    (hread : ∀ now, b.phase = .read now → a.phase = .read now) :
    Limited limits (s.put i b) := by
  refine ⟨fun model u hpos => ?_, fun c hc now hphase => ?_⟩
  · have hset := countP_set_add (Attempt.mayFall s.clock model u) b ha
    have hwindow := h.window model u hpos
    have hle : (s.attempts.set i b).countP (Attempt.mayFall s.clock model u) ≤
        s.attempts.countP (Attempt.mayFall s.clock model u) := by
      have hmono := hfall model u
      cases hb : b.mayFall s.clock model u with
      | false =>
        simp only [hb, Bool.false_eq_true, if_false] at hset
        omega
      | true =>
        simp only [hb, hmono hb, if_true] at hset
        omega
    simp only [Quota.put]
    omega
  · rcases List.mem_or_eq_of_mem_set hc with hc | rfl
    · exact h.begun c hc now hphase
    · exact h.begun a (List.mem_of_getElem? ha) now (hread now hphase)

theorem mayFall_ended (clock : Int64) (model m : ModelId) (u : Int) (summary : Bool) :
    Attempt.mayFall clock model u ⟨m, summary, .ended⟩ = false := by
  simp [Attempt.mayFall]

/-- As the clock goes on, less may fall into a window. -/
theorem mayFall_tick {clock now : Int64} (h : clock ≤ now) {model : ModelId} {u : Int}
    {a : Attempt} (ha : a.mayFall now model u = true) : a.mayFall clock model u = true := by
  have hle := Int64.le_iff_toInt_le.mp h
  obtain ⟨m, summary, phase⟩ := a
  cases phase with
  | calling read =>
    cases summary with
    | true => simpa only [Attempt.mayFall, if_true] using ha
    | false =>
      simp only [Attempt.mayFall, Bool.and_eq_true, decide_eq_true_eq, Bool.false_eq_true,
        if_false] at ha ⊢
      exact ⟨ha.1, le_trans hle ha.2⟩
  | answered createdAt => simpa only [Attempt.mayFall] using ha
  | read => simp [Attempt.mayFall] at ha
  | ended => simp [Attempt.mayFall] at ha

theorem Limited.tick (h : Limited limits s) {now : Int64} (hle : s.clock ≤ now) :
    Limited limits { s with clock := now } := by
  refine ⟨fun model u hpos => ?_, fun a ha read hphase => ?_⟩
  · have hwindow := h.window model u hpos
    have hmono : s.attempts.countP (Attempt.mayFall now model u) ≤
        s.attempts.countP (Attempt.mayFall s.clock model u) :=
      List.countP_mono_left fun a _ => mayFall_tick hle
    show ((recordedIn s.db model u + s.attempts.countP (Attempt.mayFall now model u) : Nat) :
      Int) ≤ (limits model).rpm
    omega
  · exact Int64.le_trans (h.begun a ha read hphase) hle

theorem Limited.begin (h : Limited limits s) (model : ModelId) (summary : Bool) :
    Limited limits { s with attempts := s.attempts ++ [⟨model, summary, .read s.clock⟩] } := by
  refine ⟨fun m u hpos => ?_, fun a ha read hphase => ?_⟩
  · have hnone : Attempt.mayFall s.clock m u ⟨model, summary, .read s.clock⟩ = false := by
      simp [Attempt.mayFall]
    rw [List.countP_append, List.countP_singleton, hnone]
    exact h.window m u hpos
  · rcases List.mem_append.mp ha with ha | ha
    · exact h.begun a ha read hphase
    · obtain rfl := List.mem_singleton.mp ha
      cases hphase
      exact Int64.le_refl _

/-- The windows that a selected attempt may fall into begin no earlier than what its check has
counted, and the limit has room for it beside the others in flight. -/
theorem Limited.select (h : Limited limits s) {i : Nat} {model : ModelId} {summary : Bool}
    {now : Int64} (ha : s.attempts[i]? = some ⟨model, summary, .read now⟩)
    (hroom : 0 < (limits model).rpm →
      (((loadCloudWindowUsage s.db model (now.toInt - 60)).requests +
        s.attempts.countP (Attempt.inFlight model) : Nat) : Int) + 1 ≤ (limits model).rpm) :
    Limited limits (s.put i ⟨model, summary, .calling now⟩) := by
  have hnow := Int64.le_iff_toInt_le.mp (h.begun _ (List.mem_of_getElem? ha) now rfl)
  refine ⟨fun m u hpos => ?_, fun c hc read hphase => ?_⟩
  · have hset := countP_set_add (Attempt.mayFall s.clock m u) ⟨model, summary, .calling now⟩ ha
    have hread : Attempt.mayFall s.clock m u ⟨model, summary, .read now⟩ = false := by
      simp [Attempt.mayFall]
    simp only [hread, Bool.false_eq_true, if_false] at hset
    simp only [Quota.put]
    cases hb : Attempt.mayFall s.clock m u ⟨model, summary, .calling now⟩ with
    | false =>
      simp only [hb, Bool.false_eq_true, if_false] at hset
      have hwindow := h.window m u hpos
      omega
    | true =>
      simp only [hb, if_true] at hset
      obtain ⟨rfl, hopen⟩ : model = m ∧ now.toInt ≤ u + 60 := by
        cases summary with
        | true =>
          simp only [Attempt.mayFall, Bool.and_eq_true, decide_eq_true_eq, if_true] at hb
          exact ⟨hb.1, hb.2.2⟩
        | false =>
          simp only [Attempt.mayFall, Bool.and_eq_true, decide_eq_true_eq, Bool.false_eq_true,
            if_false] at hb
          exact ⟨hb.1, le_trans hnow hb.2⟩
      have hrecorded : recordedIn s.db model u ≤
          (loadCloudWindowUsage s.db model (now.toInt - 60)).requests := recordedIn_le (by omega)
      have hflight : s.attempts.countP (Attempt.mayFall s.clock model u) ≤
          s.attempts.countP (Attempt.inFlight model) :=
        List.countP_mono_left fun a _ => inFlight_of_mayFall
      have hspare := hroom hpos
      omega
  · rcases List.mem_or_eq_of_mem_set hc with hc | rfl
    · exact h.begun c hc read hphase
    · cases hphase

/-- A row is recorded where its event could fall. -/
theorem Limited.record (h : Limited limits s) {i : Nat} {model : ModelId} {summary : Bool}
    {createdAt : Int64} (ha : s.attempts[i]? = some ⟨model, summary, .answered createdAt⟩)
    {row : UsageRow} (hrow : row.provider = model.provider ∧ row.modelId = model.modelId)
    (hcreated : row.createdAt = createdAt) :
    Limited limits { s.put i ⟨model, summary, .ended⟩ with db := s.db ++ [row] } := by
  refine ⟨fun m u hpos => ?_, fun c hc read hphase => ?_⟩
  · have hset := countP_set_add (Attempt.mayFall s.clock m u) ⟨model, summary, .ended⟩ ha
    have hwindow := h.window m u hpos
    have hmoved : (isUsage m row &&
        decide (u ≤ row.createdAt.toInt ∧ row.createdAt.toInt ≤ u + 60)) = true →
        Attempt.mayFall s.clock m u ⟨model, summary, .answered createdAt⟩ = true := by
      intro hin
      simp only [isUsage, Bool.and_eq_true, decide_eq_true_eq, hrow, hcreated] at hin
      simp only [Attempt.mayFall, Bool.and_eq_true, decide_eq_true_eq]
      obtain ⟨p, q⟩ := model
      obtain ⟨p', q'⟩ := m
      exact ⟨by simpa using hin.1, hin.2⟩
    simp only [mayFall_ended, Bool.false_eq_true, if_false] at hset
    simp only [Quota.put]
    rw [recordedIn, List.countP_append, List.countP_singleton, ← recordedIn]
    cases hin : (isUsage m row &&
        decide (u ≤ row.createdAt.toInt ∧ row.createdAt.toInt ≤ u + 60)) with
    | false =>
      simp only [Bool.false_eq_true, if_false]
      omega
    | true =>
      simp only [hmoved hin, if_true] at hset
      simp only [if_true]
      omega
  · rcases List.mem_or_eq_of_mem_set hc with hc | rfl
    · exact h.begun c hc read hphase
    · cases hphase

theorem Limited.check (h : Limited limits s) {i : Nat} {projectedTokens : Int}
    (hok : Counted limits s (.check i projectedTokens))
    (hcheck : s.check limits i projectedTokens = some t) : Limited limits t := by
  unfold Quota.check at hcheck
  split at hcheck
  next model summary now ha =>
    cases hr : rejection (limits model) (loadCloudWindowUsage s.db model (now.toInt - 60))
        (loadCloudWindowUsage s.db model (now.toInt - 86400)) projectedTokens with
    | some reason =>
      simp only [hr, Option.some.injEq] at hcheck
      subst hcheck
      exact h.put ha (fun m u hb => by simp [Attempt.mayFall] at hb) nofun
    | none =>
      simp only [hr, Option.some.injEq] at hcheck
      subst hcheck
      exact h.select ha (hok _ ha hr)
  next => cases hcheck

theorem Limited.answer (h : Limited limits s) {i : Nat} {model : ModelId} {summary : Bool}
    {now : Int64} (ha : s.attempts[i]? = some ⟨model, summary, .calling now⟩) :
    Limited limits
      (s.put i ⟨model, summary, .answered (if summary then now else s.clock)⟩) := by
  refine h.put ha (fun m u hb => ?_) nofun
  cases summary with
  | true => exact hb
  | false =>
    simp only [Attempt.mayFall, Bool.and_eq_true, decide_eq_true_eq, Bool.false_eq_true,
      if_false] at hb ⊢
    exact ⟨hb.1, hb.2.2⟩

theorem Limited.step {l : QuotaStep} (h : Limited limits s) (hok : Counted limits s l)
    (hstep : s.step limits l = some t) : Limited limits t := by
  cases l with
  | tick now =>
    simp only [Quota.step, Option.ite_none_right_eq_some, Option.some.injEq] at hstep
    obtain ⟨hle, rfl⟩ := hstep
    exact h.tick hle
  | begin model summary =>
    simp only [Quota.step, Option.some.injEq] at hstep
    subst hstep
    exact h.begin model summary
  | check i projectedTokens => exact h.check hok hstep
  | fail i =>
    simp only [Quota.step] at hstep
    split at hstep
    next model summary phase ha =>
      cases hstep
      exact h.put ha (fun m u hb => by simp [Attempt.mayFall] at hb) nofun
    next => cases hstep
  | answer i =>
    simp only [Quota.step] at hstep
    split at hstep
    next model summary now ha =>
      cases hstep
      exact h.answer ha
    next => cases hstep
  | record i eventId promptTokens responseTokens =>
    simp only [Quota.step] at hstep
    split at hstep
    next model summary createdAt ha =>
      split at hstep
      · cases hstep
      · cases hstep
        exact h.record ha ⟨rfl, rfl⟩ rfl
    next => cases hstep

end Keeps

/-- In every run in which the limit of a model has room for its runs in flight wherever one of
its checks is passed, no sixty seconds have more of its rows than the limit. -/
theorem rate_limit_kept {limits : ModelId → ModelLimits} {clock : Int64} {steps : List QuotaStep}
    (hok : Machine.Along (Quota.step limits) (Counted limits) { clock } steps) {s : Quota}
    (hrun : Machine.run (Quota.step limits) { clock } steps = some s) {model : ModelId}
    (hlimit : 0 < (limits model).rpm) (t : Int) :
    (recordedIn s.db model t : Int) ≤ (limits model).rpm := by
  have hstart : Limited limits { clock } :=
    ⟨fun m u hpos => by simpa [recordedIn] using hpos.le, nofun⟩
  have hend := Machine.run_invariant_along (Quota.step limits)
    (fun s l t hs hl hstep => hs.step hl hstep) hstart hok hrun
  have hwindow := hend.window model t hlimit
  omega

/-- One call a minute. -/
def oneAMinute : ModelId → ModelLimits := fun _ => { rpm := 1 }

def gemini : ModelId := ⟨cString (ascii "google"), cString (ascii "gemini")⟩

def recordCall (i : Nat) (eventId : String) : QuotaStep :=
  .record i (cString (ascii eventId)) 90 10

/-- One run after the other, more than a minute apart. -/
def callsInTurn : List QuotaStep :=
  [.begin gemini false, .check 0 100, .answer 0, recordCall 0 "cloud-1", .tick 161,
    .begin gemini false, .check 1 100, .answer 1, recordCall 1 "cloud-2"]

theorem rate_limit_kept_in_turn :
    ∃ s, Machine.run (Quota.step oneAMinute) { clock := 100 } callsInTurn = some s ∧
      s.db.length = 2 ∧
      ∀ t, (recordedIn s.db gemini t : Int) ≤ (oneAMinute gemini).rpm := by
  obtain ⟨s, hrun, htest⟩ := Machine.run_of_any (Quota.step oneAMinute) { clock := 100 }
    callsInTurn (fun s => decide (s.db.length = 2)) (by decide +kernel)
  exact ⟨s, hrun, of_decide_eq_true htest, rate_limit_kept (by decide +kernel) hrun (by decide)⟩

/-- Two runs that are checked before either has its answer. -/
def callsAtOnce : List QuotaStep :=
  [.begin gemini false, .begin gemini false, .check 0 100, .check 1 100, .answer 0, .answer 1,
    recordCall 0 "cloud-1", recordCall 1 "cloud-2"]

/-- Runs that overlap are all selected: each counts only what is recorded. -/
theorem rate_limit_exceeded :
    ∃ s, Machine.run (Quota.step oneAMinute) { clock := 100 } callsAtOnce = some s ∧
      (oneAMinute gemini).rpm = 1 ∧ recordedIn s.db gemini 100 = 2 := by
  obtain ⟨s, hrun, htest⟩ := Machine.run_of_any (Quota.step oneAMinute) { clock := 100 }
    callsAtOnce (fun s => decide (recordedIn s.db gemini 100 = 2)) (by decide +kernel)
  exact ⟨s, hrun, rfl, of_decide_eq_true htest⟩

end CloudQuota

end HolderDaemon
