import HolderDaemon.EventService

/-!
Subscriptions over whole runs: calls of the source function between rounds of the observer.
-/

set_option autoImplicit false

open Bytes

namespace HolderDaemon

namespace EventService

/-- One subscription, with the events its source has answered. The stream stops calling
the source at the batch that finishes it. -/
structure Session where
  service : Service
  sub : Subscription
  delivered : List StreamEvent := []
  finished : Bool := false

inductive SessionStep where
  | observe (o : Observation)
  | call

def Session.took (t : Session) (answer : EventBatch × Subscription) : Session :=
  { t with
    sub := answer.2
    delivered := t.delivered ++ answer.1.events
    finished := answer.1.finished }

/-- Stuck only where the source reads past the end of the journal. -/
def Session.step (t : Session) : SessionStep → Option Session
  | .observe o => some { t with service := t.service.observe o }
  | .call => if t.finished then some t else (t.service.source t.sub).map t.took

/-- The calls that the rounds of the observer make. -/
def observedCalls (s : Service) : List SessionStep → List AppendCall
  | [] => []
  | .observe o :: steps => s.calls o ++ observedCalls (s.observe o) steps
  | .call :: steps => observedCalls s steps

/-! One call of the source -/

theorem restate_name (s : Service) (sub : Subscription) (cursor : Bytes) (event : StreamEvent) :
    (restate s sub cursor event).name = event.name := by
  unfold restate
  split <;> rfl

theorem restate_of_ne {s : Service} {sub : Subscription} {cursor : Bytes} {event : StreamEvent}
    (h : event.name ≠ resyncName) : restate s sub cursor event = event := by
  rw [restate, if_neg h]

theorem map_restate_of_clean {s : Service} {sub : Subscription} {cursor : Bytes}
    {events : List StreamEvent} (h : ∀ e ∈ events, e.name ≠ resyncName) :
    events.map (restate s sub cursor) = events := by
  conv_rhs => rw [← List.map_id events]
  exact List.map_congr_left fun e he => restate_of_ne (h e he)

/-- A batch either ends the stream with a resync, or has the events after the cursor that
pass, after the ready event where it is the first. -/
theorem source_cases {s : Service} {log : List StreamEvent} (h : s.changes.Represents log 0)
    (hopen : s.changes.finished = false) (sub : Subscription) :
    ∃ batch next, s.source sub = some (batch, next) ∧ next.project = sub.project ∧
      ((batch.finished = true ∧ ∃ e ∈ batch.events, e.name = resyncName) ∨
        (batch.finished = false ∧ (∀ e ∈ batch.events, e.name ≠ resyncName) ∧
          ∃ k, s.changes.StartsAfter sub.cursor k ∧ (sub.cursor = [] → sub.revision = []) ∧
            next = { sub with cursor := s.changes.cursor, first := false } ∧
            batch.events = (if sub.first then [readyEvent s sub s.changes.cursor] else []) ++
              (log.drop k).filter (passes sub.project))) := by
  by_cases hs : ∃ k, s.changes.StartsAfter sub.cursor k
  · obtain ⟨k, hk⟩ := hs
    have hread := EventJournal.read_startsAfter h hk
    rw [if_pos (hk.le_length h)] at hread
    simp only [Service.source, hread, Option.map_some]
    split
    · exact ⟨_, _, rfl, rfl, .inl ⟨rfl, _, List.mem_singleton_self _, rfl⟩⟩
    · rename_i hlive
      simp only [Bool.false_or, Bool.or_eq_true, Bool.and_eq_true, decide_eq_true_eq,
        Bool.not_eq_true', beq_iff_eq, not_or, not_and] at hlive
      refine ⟨_, _, rfl, rfl, ?_⟩
      simp only [hopen, Bool.false_or]
      cases hany : List.any _ _ with
      | true =>
        obtain ⟨e, he, hname⟩ := List.any_eq_true.mp hany
        exact .inl ⟨rfl, e, he, by simpa using hname⟩
      | false =>
        right
        have hclean : ∀ e ∈ (if sub.first then [readyEvent s sub s.changes.cursor] else []) ++
            (log.drop k).filter (passes sub.project), e.name ≠ resyncName := by
          intro e he hname
          have hfalse := List.any_eq_false.mp hany _ (List.mem_map_of_mem he)
          rw [restate_name, hname] at hfalse
          exact hfalse (beq_self_eq_true _)
        rw [map_restate_of_clean hclean]
        refine ⟨rfl, hclean, k, hk, ?_, trivial, rfl⟩
        intro hnil
        by_contra hrev
        exact hlive.2 hrev hnil
  · have hread := EventJournal.read_resync hs
    simp only [Service.source, hread, Option.map_some, Bool.true_or, if_true]
    exact ⟨_, _, rfl, rfl, .inl ⟨rfl, _, List.mem_singleton_self _, rfl⟩⟩

/-! Sessions -/

theorem observe_changes (s : Service) (o : Observation) :
    (s.observe o).changes = s.changes.appendAll (s.calls o) := by
  cases o <;> rfl

theorem appendAll_finished {j : EventJournal} {calls : List AppendCall}
    (h : ∀ c ∈ calls, c.data.encodable = true ∧ c.finished = false) (hj : j.finished = false) :
    (j.appendAll calls).finished = false := by
  induction calls generalizing j with
  | nil => exact hj
  | cons c calls ih =>
    obtain ⟨henc, hfin⟩ := h c List.mem_cons_self
    obtain ⟨frame, _, happend⟩ := EventJournal.append_of_encodable j c henc
    refine ih (fun d hd => h d (List.mem_cons_of_mem c hd)) ?_
    rw [EventJournal.call, happend]
    simp [hj, hfin]

/-- The journal holds this log, open, with no event named as the ready event is. -/
structure Service.Holds (s : Service) (log : List StreamEvent) : Prop where
  journal : s.changes.Represents log 0
  unfinished : s.changes.finished = false
  names : ∀ e ∈ log, e.name ≠ ascii "ready"

theorem historyFrom_name {epoch : Epoch} {n : Nat} {calls : List AppendCall} {e : StreamEvent}
    (h : e ∈ historyFrom epoch n calls) : ∃ c ∈ calls, e.name = c.name := by
  induction calls generalizing n with
  | nil => cases h
  | cons c calls ih =>
    rcases List.mem_cons.mp h with rfl | h
    · exact ⟨c, List.mem_cons_self, rfl⟩
    · obtain ⟨d, hd, hn⟩ := ih h
      exact ⟨d, List.mem_cons_of_mem c hd, hn⟩

theorem Service.Holds.observe {s : Service} {log : List StreamEvent} (h : s.Holds log)
    (o : Observation) (hn : log.length + (s.calls o).length < 2 ^ 64) :
    (s.observe o).Holds (log ++ historyFrom s.changes.epoch log.length (s.calls o)) ∧
      (s.observe o).changes.epoch = s.changes.epoch := by
  have hcalls := calls_name_ne_ready s o
  have hj := EventJournal.represents_appendAll h.journal (s.calls o)
    (fun c hc => (hcalls c hc).2.1) hn
  rw [← observe_changes] at hj
  refine ⟨⟨hj, ?_, ?_⟩, ?_⟩
  · rw [observe_changes]
    exact appendAll_finished (fun c hc => (hcalls c hc).2) h.unfinished
  · intro e he
    rcases List.mem_append.mp he with he | he
    · exact h.names e he
    · obtain ⟨c, hc, hname⟩ := historyFrom_name he
      rw [hname]
      exact (hcalls c hc).1
  · rw [observe_changes]
    exact (s.changes.appendAll_fixed _).1

/-- What has been delivered is the ready event, and then what passes of the log from the
starting cursor, number `n`, to the subscription's cursor. -/
def Session.Delivered (t : Session) (log : List StreamEvent) (start : Bytes) (m : Nat) : Prop :=
  ∃ n ready, WellFormedCursor t.service.changes.epoch start n ∧ n ≤ m ∧ m ≤ log.length ∧
    ready.name = ascii "ready" ∧ ready.id = start ∧
    t.delivered = ready :: ((log.take m).drop n).filter (passes t.sub.project)

structure Session.Tracks (t : Session) (log : List StreamEvent) (start : Bytes) : Prop where
  service : t.service.Holds log
  cursor : t.finished = false → t.sub.cursor = [] → t.sub.revision ≠ []
  resync : t.finished = true → ∃ e ∈ t.delivered, e.name = resyncName
  clean : t.finished = false → ∀ e ∈ t.delivered, e.name ≠ resyncName
  progress : t.finished = false →
    (t.sub.first = true ∧ t.sub.cursor = start ∧ t.delivered = []) ∨
    (t.sub.first = false ∧ ∃ m, WellFormedCursor t.service.changes.epoch t.sub.cursor m ∧
      t.Delivered log start m)

theorem Session.Tracks.live {t : Session} {log : List StreamEvent} {start : Bytes}
    (h : t.Tracks log start) (hno : ∀ e ∈ t.delivered, e.name ≠ resyncName) :
    t.finished = false := by
  cases hf : t.finished with
  | false => rfl
  | true =>
    obtain ⟨e, he, hname⟩ := h.resync hf
    exact absurd hname (hno e he)

theorem Session.Tracks.observe {t : Session} {log : List StreamEvent} {start : Bytes}
    (h : t.Tracks log start) (o : Observation)
    (hn : log.length + (t.service.calls o).length < 2 ^ 64) :
    Session.Tracks { t with service := t.service.observe o }
      (log ++ historyFrom t.service.changes.epoch log.length (t.service.calls o)) start := by
  obtain ⟨hs, hepoch⟩ := h.service.observe o hn
  refine ⟨hs, h.cursor, h.resync, h.clean, fun hf => ?_⟩
  rcases h.progress hf with hstart | ⟨hfirst, m, hw, n, ready, hstart, hnm, hm, hname, hid, hd⟩
  · exact .inl hstart
  · refine .inr ⟨hfirst, m, by rw [hepoch]; exact hw, n, ready, by rw [hepoch]; exact hstart,
      hnm, ?_, hname, hid, ?_⟩
    · simp only [List.length_append]
      omega
    · rw [List.take_append_of_le_length hm]
      exact hd

/-- A call is never stuck, and where it does not end the stream all the log is delivered. -/
theorem Session.Tracks.call {t : Session} {log : List StreamEvent} {start : Bytes}
    (h : t.Tracks log start) (hn : log.length < 2 ^ 64) :
    ∃ u, t.step .call = some u ∧ u.service = t.service ∧ u.sub.project = t.sub.project ∧
      u.Tracks log start ∧ (u.finished = false → u.Delivered log start log.length) := by
  cases hf : t.finished with
  | true => exact ⟨t, by simp [Session.step, hf], rfl, rfl, h, by simp [hf]⟩
  | false =>
    obtain ⟨batch, next, hsource, hproject, hcases⟩ :=
      source_cases h.service.journal h.service.unfinished t.sub
    have hstep : t.step .call = some (t.took (batch, next)) := by
      simp [Session.step, hf, hsource]
    refine ⟨_, hstep, rfl, hproject, ?_⟩
    rcases hcases with ⟨hend, e, he, hname⟩ | ⟨hlive, hclean, k, hk, hrev, hnext, hevents⟩
    · have hfin : (t.took (batch, next)).finished ≠ false := by
        simp [Session.took, hend]
      exact ⟨⟨h.service, fun hff => absurd hff hfin,
        fun _ => ⟨e, List.mem_append_right _ he, hname⟩, fun hff => absurd hff hfin,
        fun hff => absurd hff hfin⟩, fun hff => absurd hff hfin⟩
    · have hne : t.sub.cursor ≠ [] := fun hnil => h.cursor hf hnil (hrev hnil)
      have hkw : WellFormedCursor t.service.changes.epoch t.sub.cursor k := by
        rcases hk with ⟨hnil, _⟩ | ⟨hw, _⟩
        · exact absurd hnil hne
        · exact hw
      have hklen := hk.le_length h.service.journal
      have hcursor : WellFormedCursor t.service.changes.epoch t.service.changes.cursor
          log.length := by
        rw [EventJournal.cursor, h.service.journal.sequence]
        exact wellFormed_cursorText _ hn
      have hall : (t.took (batch, next)).Delivered log start log.length := by
        unfold Session.Delivered
        simp only [Session.took, hevents, hproject, List.take_length]
        rcases h.progress hf with ⟨hfirst, hstart, hnil⟩ |
          ⟨hfirst, m, hw, n, ready, hstart, hnm, hm, hname, hid, hd⟩
        · refine ⟨k, readyEvent t.service t.sub t.service.changes.cursor, hstart ▸ hkw, hklen,
            Nat.le_refl _, rfl, hstart, ?_⟩
          simp [hfirst, hnil]
        · have hmk := (hw.unique hkw).2
          subst hmk
          have hjoin : (log.take m).drop n ++ log.drop m = log.drop n := by
            rw [List.drop_take]
            exact take_drop_append log hnm
          refine ⟨n, ready, hstart, hnm.trans hm, Nat.le_refl _, hname, hid, ?_⟩
          rw [hd, ← hjoin]
          simp [hfirst]
      refine ⟨⟨h.service, ?_, ?_, ?_, ?_⟩, fun _ => hall⟩
      · intro _ hnil
        rw [hnext] at hnil
        exact absurd hnil hcursor.ne_nil
      · intro hff
        rw [Session.took, hlive] at hff
        cases hff
      · intro _ e he
        rcases List.mem_append.mp he with he | he
        · exact h.clean hf e he
        · exact hclean e he
      · intro _
        refine .inr ⟨by rw [Session.took, hnext], log.length, ?_, hall⟩
        simp only [Session.took, hnext]
        exact hcursor

theorem Session.Tracks.run {t : Session} {log : List StreamEvent} {start : Bytes}
    (h : t.Tracks log start) (steps : List SessionStep)
    (hn : log.length + (observedCalls t.service steps).length < 2 ^ 64) :
    ∃ u, Machine.run Session.step t steps = some u ∧ u.sub.project = t.sub.project ∧
      u.service.changes.epoch = t.service.changes.epoch ∧
      u.Tracks (log ++ historyFrom t.service.changes.epoch log.length
        (observedCalls t.service steps)) start := by
  induction steps generalizing t log with
  | nil => exact ⟨t, rfl, rfl, rfl, by simpa [observedCalls, historyFrom] using h⟩
  | cons step steps ih =>
    cases step with
    | observe o =>
      simp only [observedCalls, List.length_append] at hn
      have hnext := h.observe o (by omega)
      obtain ⟨u, hrun, hp, he, hu⟩ := ih hnext (by simp; omega)
      have hepoch := (h.service.observe o (by omega)).2
      refine ⟨u, hrun, hp, he.trans hepoch, ?_⟩
      simp only [hepoch, List.append_assoc, List.length_append, historyFrom_length] at hu
      rw [observedCalls, historyFrom_append]
      exact hu
    | call =>
      obtain ⟨m, hm, hs, hpm, htm, _⟩ := h.call (by omega)
      obtain ⟨u, hrun, hp, he, hu⟩ := ih htm (by rw [hs]; exact hn)
      rw [hs] at he hu
      exact ⟨u, by rw [Machine.run_cons, hm]; exact hrun, hp.trans hpm, he, hu⟩

theorem subscribe_some {s : Service} {project revision lastEventId : Bytes} {sub : Subscription}
    (h : s.subscribe project revision lastEventId = some sub) :
    sub = ⟨project, revision,
      if lastEventId = [] ∧ revision = [] then s.changes.cursor else lastEventId, true⟩ := by
  unfold Service.subscribe at h
  split at h
  · cases h
  · split at h <;> cases h
    rfl

theorem Service.Holds.cursor {s : Service} {log : List StreamEvent} (h : s.Holds log)
    (hn : log.length < 2 ^ 64) :
    WellFormedCursor s.changes.epoch s.changes.cursor log.length := by
  rw [EventJournal.cursor, h.journal.sequence]
  exact wellFormed_cursorText _ hn

theorem tracks_subscribe {s : Service} {log : List StreamEvent} (h : s.Holds log)
    (hn : log.length < 2 ^ 64) {project revision lastEventId : Bytes} {sub : Subscription}
    (hsub : s.subscribe project revision lastEventId = some sub) :
    Session.Tracks ⟨s, sub, [], false⟩ log sub.cursor := by
  have hs := subscribe_some hsub
  refine ⟨h, fun _ => ?_, fun hf => Bool.noConfusion hf, by simp, fun _ => .inl ⟨?_, rfl, rfl⟩⟩
  · subst hs
    intro hnil hrev
    simp only at hnil hrev
    split at hnil
    · exact (h.cursor hn).ne_nil hnil
    · rename_i hboth
      exact hboth ⟨hnil, hrev⟩
  · rw [hs]

/-- Rounds of the observer, and the calls they make. -/
def Service.rounds (s : Service) (os : List Observation) : Service := os.foldl Service.observe s

def Service.roundCalls : Service → List Observation → List AppendCall
  | _, [] => []
  | s, o :: os => s.calls o ++ (s.observe o).roundCalls os

theorem Service.Holds.rounds {s : Service} {log : List StreamEvent} (h : s.Holds log)
    (os : List Observation) (hn : log.length + (s.roundCalls os).length < 2 ^ 64) :
    (s.rounds os).Holds (log ++ historyFrom s.changes.epoch log.length (s.roundCalls os)) ∧
      (s.rounds os).changes.epoch = s.changes.epoch := by
  induction os generalizing s log with
  | nil => exact ⟨by simpa [Service.rounds, Service.roundCalls, historyFrom] using h, rfl⟩
  | cons o os ih =>
    simp only [Service.roundCalls, List.length_append] at hn
    obtain ⟨ho, hepoch⟩ := h.observe o (by omega)
    obtain ⟨hr, he⟩ := ih ho (by simp; omega)
    simp only [hepoch, List.append_assoc, List.length_append, historyFrom_length] at hr
    rw [Service.roundCalls, historyFrom_append]
    exact ⟨hr, he.trans hepoch⟩

theorem roundCalls_append (s : Service) (os more : List Observation) :
    s.roundCalls (os ++ more) = s.roundCalls os ++ (s.rounds os).roundCalls more := by
  induction os generalizing s with
  | nil => rfl
  | cons o os ih => simp [Service.roundCalls, Service.rounds, ih (s.observe o)]

theorem holds_start (epoch : Epoch) : (Service.start epoch).Holds [] :=
  ⟨⟨Window.longest_nil, rfl, rfl, rfl, by simp [Service.start, changesJournal]⟩, rfl, by simp⟩

/-- A subscription delivers the ready event and then exactly what passes of the log from its
starting cursor on, unless it delivers a resync and ends. -/
theorem subscription_complete (epoch : Epoch) (earlier later : List Observation)
    (project revision lastEventId : Bytes) (sub : Subscription) (steps : List SessionStep)
    (hsub : ((Service.start epoch).rounds (earlier ++ later)).subscribe project revision
      lastEventId = some sub)
    (hn : ((Service.start epoch).roundCalls (earlier ++ later) ++
      observedCalls ((Service.start epoch).rounds (earlier ++ later)) steps).length < 2 ^ 64) :
    let log := historyOf epoch ((Service.start epoch).roundCalls (earlier ++ later) ++
      observedCalls ((Service.start epoch).rounds (earlier ++ later)) steps)
    ∃ t u, Machine.run Session.step
        ⟨(Service.start epoch).rounds (earlier ++ later), sub, [], false⟩ steps = some t ∧
      ((∃ e ∈ t.delivered, e.name = resyncName) → t.finished = true) ∧
      ((∀ e ∈ t.delivered, e.name ≠ resyncName) → t.delivered = [] ∨
        ∃ n m ready, WellFormedCursor epoch sub.cursor n ∧ n ≤ m ∧ m ≤ log.length ∧
          ready.name = ascii "ready" ∧ ready.id = sub.cursor ∧
          t.delivered = ready :: ((log.take m).drop n).filter (passes project) ∧
          ∀ e ∈ t.delivered.tail, e.name ≠ ascii "ready") ∧
      t.step .call = some u ∧
      ((∀ e ∈ u.delivered, e.name ≠ resyncName) →
        ∃ n ready, WellFormedCursor epoch sub.cursor n ∧
          ready.name = ascii "ready" ∧ ready.id = sub.cursor ∧
          u.delivered = ready :: (log.drop n).filter (passes project) ∧
          (lastEventId = ((Service.start epoch).rounds earlier).changes.cursor →
            n = ((Service.start epoch).roundCalls earlier).length)) := by
  intro log
  simp only [List.length_append] at hn
  obtain ⟨hs, hepoch⟩ := (holds_start epoch).rounds (earlier ++ later) (by simp; omega)
  simp only [List.nil_append, List.length_nil] at hs
  have hstart : (Service.start epoch).changes.epoch = epoch := rfl
  rw [hstart] at hs hepoch
  have ht := tracks_subscribe hs (by simp; omega) hsub
  obtain ⟨t, hrun, hproject, hte, htracks⟩ := ht.run steps (by simp; omega)
  have hlog : historyFrom epoch 0 ((Service.start epoch).roundCalls (earlier ++ later)) ++
      historyFrom epoch ((Service.start epoch).roundCalls (earlier ++ later)).length
        (observedCalls ((Service.start epoch).rounds (earlier ++ later)) steps) = log := by
    rw [show log = _ from historyFrom_append epoch 0 _ _, Nat.zero_add]
  rw [hepoch] at hte
  simp only [hepoch, historyFrom_length, hlog] at htracks
  have hlen : log.length < 2 ^ 64 := by
    simp only [log, historyOf, historyFrom_length, List.length_append]
    omega
  have hsubp : sub.project = project := by rw [subscribe_some hsub]
  obtain ⟨u, hcall, hus, hup, hutracks, hall⟩ := htracks.call hlen
  refine ⟨t, u, hrun, ?_, ?_, hcall, ?_⟩
  · rintro ⟨e, he, hname⟩
    by_contra hf
    exact htracks.clean (by simpa using hf) e he hname
  · intro hno
    have hf : t.finished = false := htracks.live hno
    rcases htracks.progress hf with ⟨_, _, hnil⟩ |
      ⟨_, m, _, n, ready, hw, hnm, hm, hname, hid, hd⟩
    · exact .inl hnil
    · rw [hproject, hsubp] at hd
      rw [hte] at hw
      refine .inr ⟨n, m, ready, hw, hnm, hm, hname, hid, hd, ?_⟩
      rw [hd]
      intro e he
      exact htracks.service.names e
        (List.mem_of_mem_take (List.mem_of_mem_drop (List.mem_of_mem_filter he)))
  · intro hno
    obtain ⟨n, ready, hw, _, _, hname, hid, hd⟩ := hall (hutracks.live hno)
    rw [hup, hproject, hsubp, List.take_length] at hd
    rw [hus, hte] at hw
    refine ⟨n, ready, hw, hname, hid, hd, ?_⟩
    intro hlast
    have hearly := (holds_start epoch).rounds earlier (by
      rw [roundCalls_append, List.length_append] at hn
      simp
      omega)
    simp only [List.nil_append, List.length_nil, hstart] at hearly
    have hcw := hearly.1.cursor (by
      rw [roundCalls_append, List.length_append] at hn
      simp
      omega)
    rw [hearly.2, ← hlast, historyFrom_length] at hcw
    have hcursor : sub.cursor = lastEventId := by
      rw [subscribe_some hsub]
      simp [hcw.ne_nil]
    rw [hcursor] at hw
    exact (hw.unique hcw).2

/-- A card is changed before the checkpoint and another after it; the second is replayed. -/
theorem subscription_complete_replay :
    let first : Change := ⟨[], [], (ascii "card", ascii "c1", ascii "p1"), by decide⟩
    let second : Change := ⟨[], [], (ascii "card", ascii "c2", ascii "p1"), by decide⟩
    let earlier := [Observation.succeeded [first] []]
    let later := [Observation.succeeded [second] []]
    let lastEventId := ((Service.start nilEpoch).rounds earlier).changes.cursor
    ∃ sub t u, ((Service.start nilEpoch).rounds (earlier ++ later)).subscribe (ascii "p1") []
        lastEventId = some sub ∧
      Machine.run Session.step ⟨(Service.start nilEpoch).rounds (earlier ++ later), sub, [], false⟩
        [] = some t ∧
      t.step .call = some u ∧
      ((∀ e ∈ u.delivered, e.name ≠ resyncName) → ∃ ready, u.delivered = ready ::
        ((historyOf nilEpoch ((Service.start nilEpoch).roundCalls (earlier ++ later) ++ [])).drop
          1).filter (passes (ascii "p1"))) := by
  intro first second earlier later lastEventId
  obtain ⟨sub, hsub⟩ : ∃ sub, ((Service.start nilEpoch).rounds (earlier ++ later)).subscribe
      (ascii "p1") [] lastEventId = some sub := Option.isSome_iff_exists.mp (by decide)
  obtain ⟨t, u, hrun, _, _, hcall, hall⟩ := subscription_complete nilEpoch earlier later
    (ascii "p1") [] lastEventId sub [] hsub (by decide)
  refine ⟨sub, t, u, hsub, hrun, hcall, fun hno => ?_⟩
  obtain ⟨n, ready, _, _, _, hd, hn⟩ := hall hno
  rw [hn rfl] at hd
  exact ⟨ready, hd⟩

end EventService

end HolderDaemon
