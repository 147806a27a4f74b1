import HolderDaemon.RunEventStore

/-!
Which runs `append_run_event` (`api/support/RunEventStore.cpp`) retains, what their journals
hold, and how a cursor of a journal that is gone is answered.
-/

set_option autoImplicit false

open Bytes

namespace HolderDaemon

/-! A journal without a bound on its calls -/

namespace EventJournal

/-- The deque is the tail of the log that the limits allow. -/
structure Trimmed (j : EventJournal) (log : List StreamEvent) : Prop where
  kept : Window.Longest frameSize j.capacity j.byteLimit j.events log
  sizes : j.sizes = j.events.map frameSize
  bytes : j.bytes = Window.total frameSize j.events

theorem Trimmed.call {j : EventJournal} {log : List StreamEvent} (h : j.Trimmed log)
    (c : AppendCall) : (j.call c).Trimmed (log ++ j.accepted [c]) := by
  cases hc : c.data.encodable with
  | false =>
    obtain ⟨e, happend⟩ := append_of_not_encodable j c hc
    simp only [accepted, accepts_eq, hc, Bool.false_eq_true, if_false, List.append_nil]
    unfold EventJournal.call
    rw [happend]
    exact ⟨h.kept, h.sizes, h.bytes⟩
  | true =>
    simp only [accepted, accepts_eq, hc, if_true]
    unfold EventJournal.call
    rw [append_trim h.sizes h.bytes c hc]
    exact ⟨h.kept.concat (j.nextEvent c), rfl, rfl⟩

theorem Trimmed.appendAll {j : EventJournal} {log : List StreamEvent} (h : j.Trimmed log)
    (calls : List AppendCall) : (j.appendAll calls).Trimmed (log ++ j.accepted calls) := by
  induction calls generalizing j log with
  | nil => simpa [EventJournal.appendAll, accepted] using h
  | cons c calls ih =>
    have hone := accepted_append j [c] calls
    rw [List.singleton_append] at hone
    rw [hone, ← List.append_assoc]
    exact ih (h.call c)

/-- The events are those of the calls that can be encoded, in their order. -/
theorem accepted_calls (j : EventJournal) (calls : List AppendCall) :
    (j.accepted calls).map (fun e => (e.name, e.data)) =
      (calls.filter fun c => c.data.encodable).map fun c => (c.name, c.data) := by
  induction calls generalizing j with
  | nil => rfl
  | cons c calls ih =>
    rw [accepted, accepts_eq, List.filter_cons]
    split
    · rw [List.map_cons, List.map_cons, ih, nextEvent]
    · exact ih _

/-- A cursor of another epoch. -/
theorem read_other_epoch {j : EventJournal} {epoch : Epoch} (h : j.epoch ≠ epoch) {after : Bytes}
    {n : Nat} (hafter : WellFormedCursor epoch after n) :
    ∃ batch, j.read after = some batch ∧ batch.resyncRequired = true ∧ batch.events = [] := by
  refine ⟨_, read_resync ?_, rfl, rfl⟩
  rintro ⟨m, ⟨hnil, -⟩ | ⟨hw, -⟩⟩
  · exact hafter.ne_nil hnil
  · exact h (hafter.unique hw).1.symm

end EventJournal

namespace RunEvents

/-! The calls that have led to a state -/

/-- The state that successive calls of `append_run_event` lead to. -/
inductive Reached : List RunAppend → RunStore → Prop where
  | start : Reached [] {}
  | append {calls : List RunAppend} {s t : RunStore} {a : RunAppend} (h : Reached calls s)
      (happend : s.append a = some t) : Reached (calls ++ [a]) t

theorem Reached.nil {s : RunStore} (h : Reached [] s) : s = {} := by
  generalize hcalls : ([] : List RunAppend) = calls at h
  cases h with
  | start => rfl
  | append h happend => exact absurd hcalls (by simp)

theorem Reached.concat {calls : List RunAppend} {a : RunAppend} {t : RunStore}
    (h : Reached (calls ++ [a]) t) : ∃ s, Reached calls s ∧ s.append a = some t := by
  generalize hcalls : calls ++ [a] = all at h
  cases h with
  | start => exact absurd hcalls (by simp)
  | append h happend =>
    obtain ⟨rfl, hlast⟩ := List.append_inj' hcalls rfl
    cases hlast
    exact ⟨_, h, happend⟩

theorem Reached.unique {calls : List RunAppend} {s t : RunStore} (hs : Reached calls s)
    (ht : Reached calls t) : s = t := by
  induction hs generalizing t with
  | start => exact ht.nil.symm
  | append _ happend ih =>
    obtain ⟨u, hu, hau⟩ := ht.concat
    rw [ih hu, hau] at happend
    exact (Option.some.inj happend).symm

/-! The retained runs -/

/-- Every key once, at most 128 of them, and every journal of an epoch of its own. -/
structure Bounded (s : RunStore) : Prop where
  nodup : (s.runs.map Prod.fst).Nodup
  bound : s.runs.length ≤ kMaxRetainedRuns
  epochs : ∀ runId run, s.runs.lookup runId = some run → run.journal.epoch.text ∈ s.epochs
  apart : ∀ runId other run run', s.runs.lookup runId = some run →
    s.runs.lookup other = some run' → run.journal.epoch = run'.journal.epoch → runId = other

theorem makeRoom_bounds {s : RunStore} {a : RunAppend} {runs : List (Bytes × StoredRun)}
    (hnodup : (s.runs.map Prod.fst).Nodup) (hbound : s.runs.length ≤ kMaxRetainedRuns)
    (h : s.makeRoom a = some runs) :
    (runs.map Prod.fst).Nodup ∧ runs.length ≤ kMaxRetainedRuns ∧
      (runs.lookup a.runId = none → runs.length < kMaxRetainedRuns) := by
  unfold RunStore.makeRoom at h
  split at h
  · split at h <;> cases h
    rename_i hold
    have hsome : (s.runs.lookup a.oldest).isSome = true := by
      unfold isOldest at hold
      split at hold
      · cases hold
      · rename_i hrun
        rw [hrun]
        rfl
    have hlt := Assoc.length_erase_lt hsome
    exact ⟨Assoc.nodup_erase hnodup, by omega, fun _ => by omega⟩
  · rename_i hroom
    cases h
    refine ⟨hnodup, hbound, fun hnone => ?_⟩
    by_contra hfull
    exact hroom ⟨by rw [hnone]; rfl, by omega⟩

theorem length_set (k : Bytes) (run : StoredRun) (runs : List (Bytes × StoredRun)) :
    (Assoc.set k run runs).length =
      if (runs.lookup k).isSome then runs.length else runs.length + 1 := by
  have hlen := congrArg List.length (Assoc.keys_set (k := k) run (l := runs))
  rw [List.length_map] at hlen
  rw [hlen]
  split
  · exact List.length_map _
  · rw [List.length_append, List.length_map, List.length_singleton]

/-- The append writes its run where there is room. -/
theorem append_runs {s t : RunStore} {a : RunAppend} (h : s.append a = some t) :
    ∃ runs run, s.makeRoom a = some runs ∧ t.runs = Assoc.set a.runId run runs := by
  obtain ⟨m, hm, rfl⟩ := Option.map_eq_some_iff.mp h
  obtain ⟨runs, hroom, hm⟩ := Option.bind_eq_some_iff.mp hm
  have hnew : s.appendNew a runs = some m → ∃ run, m.runs = Assoc.set a.runId run runs := by
    intro hm
    unfold RunStore.appendNew at hm
    split at hm <;> cases hm
    exact ⟨_, rfl⟩
  refine ⟨runs, ?_⟩
  split at hm
  · obtain ⟨run, hrun⟩ := hnew hm
    exact ⟨run, hroom, hrun⟩
  · split at hm
    · obtain ⟨run, hrun⟩ := hnew hm
      exact ⟨run, hroom, hrun⟩
    · cases hm
      exact ⟨_, hroom, rfl⟩

theorem append_retains {s t : RunStore} {a : RunAppend} (h : s.append a = some t) :
    (t.runs.lookup a.runId).isSome = true := by
  obtain ⟨runs, run, -, hruns⟩ := append_runs h
  rw [hruns, Assoc.lookup_set_self]
  rfl

/-- An append to a retained run leaves the others. -/
theorem append_others {s t : RunStore} {a : RunAppend} (h : s.append a = some t)
    (hretained : (s.runs.lookup a.runId).isSome = true) {other : Bytes} (hne : other ≠ a.runId) :
    t.runs.lookup other = s.runs.lookup other := by
  obtain ⟨runs, run, hroom, hruns⟩ := append_runs h
  have hsame : runs = s.runs := by
    unfold RunStore.makeRoom at hroom
    rw [if_neg (by
      rintro ⟨hnone, -⟩
      rw [Option.isNone_iff_eq_none] at hnone
      rw [hnone] at hretained
      cases hretained)] at hroom
    exact (Option.some.inj hroom).symm
  rw [hruns, Assoc.lookup_set_ne (Ne.symm hne), hsame]

theorem Bounded.append {s t : RunStore} {a : RunAppend} (h : Bounded s)
    (happend : s.append a = some t) : Bounded t := by
  obtain ⟨runs, run, hroom, hruns⟩ := append_runs happend
  obtain ⟨hnodup, hbound, hspace⟩ := makeRoom_bounds h.nodup h.bound hroom
  obtain ⟨-, -, hepochs, hothers, hown⟩ := append_cases happend
  -- the epoch of the run's own journal is a new one, or that of its old journal
  have hownEpoch : ∀ run, t.runs.lookup a.runId = some run →
      run.journal.epoch.text ∉ s.epochs ∧ run.journal.epoch.text ∈ t.epochs ∨
        ∃ old, s.runs.lookup a.runId = some old ∧ run.journal.epoch = old.journal.epoch := by
    intro run hrun
    rcases hown with ⟨hfresh, hepoch, -, hnew⟩ | ⟨-, old, hold, hnew⟩
    · rw [hnew, Option.some.injEq] at hrun
      subst hrun
      rw [((runJournal a.epoch).call_fixed a.call).1]
      exact .inl ⟨hfresh, hepoch⟩
    · rw [hnew, Option.some.injEq] at hrun
      subst hrun
      exact .inr ⟨old, hold, (old.journal.call_fixed a.call).1⟩
  refine ⟨?_, ?_, fun runId run hrun => ?_, fun runId other run run' hrun hrun' heq => ?_⟩
  · rw [hruns]
    exact Assoc.nodup_set run hnodup
  · rw [hruns, length_set]
    split
    · exact hbound
    · rename_i hnone
      exact hspace (Option.not_isSome_iff_eq_none.mp hnone)
  · by_cases hid : runId = a.runId
    · subst hid
      rcases hownEpoch run hrun with ⟨-, hnew⟩ | ⟨old, hold, heq⟩
      · exact hnew
      · rw [heq]
        exact hepochs _ (h.epochs a.runId old hold)
    · exact hepochs _ (h.epochs runId run (hothers runId run hid hrun))
  · by_cases hid : runId = a.runId
    · by_cases hid' : other = a.runId
      · rw [hid, hid']
      · subst hid
        have hrun' := hothers other run' hid' hrun'
        rcases hownEpoch run hrun with ⟨hfresh, -⟩ | ⟨old, hold, hsame⟩
        · rw [heq] at hfresh
          exact absurd (h.epochs other run' hrun') hfresh
        · exact h.apart _ _ old run' hold hrun' (hsame ▸ heq)
    · have hrun := hothers runId run hid hrun
      by_cases hid' : other = a.runId
      · subst hid'
        rcases hownEpoch run' hrun' with ⟨hfresh, -⟩ | ⟨old, hold, hsame⟩
        · rw [← heq] at hfresh
          exact absurd (h.epochs runId run hrun) hfresh
        · exact h.apart _ _ run old hrun hold (hsame ▸ heq)
      · exact h.apart runId other run run' hrun (hothers other run' hid' hrun') heq

theorem Reached.bounded {calls : List RunAppend} {s : RunStore} (h : Reached calls s) :
    Bounded s := by
  induction h with
  | start => exact ⟨List.nodup_nil, Nat.zero_le _, nofun, nofun⟩
  | append _ happend ih => exact ih.append happend

/-- Some run is the oldest one, so an append with a new epoch goes on. -/
theorem Bounded.append_goes_on {s : RunStore} (h : Bounded s) (a : RunAppend)
    (hepoch : a.epoch.text ∉ s.epochs) :
    ∃ oldest t, s.append { a with oldest } = some t := by
  have hroom : ∃ oldest runs, s.makeRoom { a with oldest } = some runs := by
    by_cases hfull : (s.runs.lookup a.runId).isNone ∧ kMaxRetainedRuns ≤ s.runs.length
    · have hne : s.runs ≠ [] := by
        rintro hnil
        rw [hnil] at hfull
        exact absurd hfull.2 (by decide)
      cases hmin : s.runs.argmin fun e => e.2.updatedAt with
      | none => exact absurd (List.argmin_eq_none.mp hmin) hne
      | some e =>
        have hmem : e ∈ s.runs := List.argmin_mem hmin
        have hold : isOldest s.runs e.1 = true := by
          rw [isOldest, Assoc.lookup_of_mem h.nodup hmem]
          exact List.all_eq_true.mpr fun f hf =>
            decide_eq_true
              (List.le_of_mem_argmin (f := fun e : Bytes × StoredRun => e.2.updatedAt) hf hmin)
        refine ⟨e.1, Assoc.erase e.1 s.runs, ?_⟩
        rw [RunStore.makeRoom, if_pos hfull]
        exact if_pos hold
    · exact ⟨[], s.runs, if_neg hfull⟩
  obtain ⟨oldest, runs, hroom⟩ := hroom
  have hnew : ∃ t, s.appendNew { a with oldest } runs = some t := ⟨_, if_neg hepoch⟩
  have hstored : ∃ t, s.appendStored { a with oldest } = some t := by
    rw [RunStore.appendStored, hroom, Option.bind_some]
    split
    · exact hnew
    · split
      · exact hnew
      · exact ⟨_, rfl⟩
  obtain ⟨t, ht⟩ := hstored
  exact ⟨oldest, _, by rw [RunStore.append, ht, Option.map_some]⟩

/-! What a journal holds -/

/-- The journal was made by `a`, by its name or because the run was not retained; the run has
been retained since, and its journal has had the calls of the run from `a` on. -/
structure Incarnation (calls : List RunAppend) (runId : Bytes) (run : StoredRun)
    (before : List RunAppend) (a : RunAppend) (after : List RunAppend) : Prop where
  split : calls = before ++ a :: after
  own : a.runId = runId
  created : a.name = runStarted ∨ ∀ s, Reached before s → s.runs.lookup runId = none
  latest : ∀ b ∈ after, b.runId = runId → b.name ≠ runStarted
  retained : ∀ mid, mid <+: after → ∀ s, Reached (before ++ a :: mid) s →
    (s.runs.lookup runId).isSome = true
  calls : run.calls = ((a :: after).filter fun b => b.runId = runId).map RunAppend.call
  journal : run.journal = (runJournal a.epoch).appendAll run.calls

/-- A call more, that keeps the run. -/
theorem Incarnation.concat {calls : List RunAppend} {runId : Bytes} {run run' : StoredRun}
    {before after : List RunAppend} {a b : RunAppend} {t : RunStore}
    (h : Incarnation calls runId run before a after) (ht : Reached (calls ++ [b]) t)
    (hrun : (t.runs.lookup runId).isSome = true)
    (hlatest : b.runId = runId → b.name ≠ runStarted)
    (hcalls : run'.calls = run.calls ++ ([b].filter fun b => b.runId = runId).map RunAppend.call)
    (hjournal : run'.journal = run.journal.appendAll
      (([b].filter fun b => b.runId = runId).map RunAppend.call)) :
    Incarnation (calls ++ [b]) runId run' before a (after ++ [b]) where
  split := by rw [h.split, List.append_assoc, List.cons_append]
  own := h.own
  created := h.created
  latest := by
    intro c hc
    rcases List.mem_append.mp hc with hc | hc
    · exact h.latest c hc
    · rw [List.mem_singleton.mp hc]
      exact hlatest
  retained := by
    intro mid hmid s hs
    rcases List.prefix_concat_iff.mp hmid with rfl | hmid
    · rw [h.split, List.append_assoc, List.cons_append] at ht
      rw [hs.unique ht]
      exact hrun
    · exact h.retained mid hmid s hs
  calls := by rw [hcalls, h.calls, ← List.map_append, ← List.filter_append, List.cons_append]
  journal := by rw [hjournal, hcalls, EventJournal.appendAll_append, ← h.journal]

theorem Reached.incarnation {calls : List RunAppend} {s : RunStore} (h : Reached calls s)
    {runId : Bytes} {run : StoredRun} (hrun : s.runs.lookup runId = some run) :
    ∃ before a after, Incarnation calls runId run before a after := by
  induction h generalizing runId run with
  | start => cases hrun
  | @append calls s t b h happend ih =>
    have ht : Reached (calls ++ [b]) t := h.append happend
    have hsome : (t.runs.lookup runId).isSome = true := by rw [hrun]; rfl
    obtain ⟨-, -, -, hothers, hown⟩ := append_cases happend
    by_cases hid : runId = b.runId
    · subst hid
      rcases hown with ⟨-, -, hwhy, hnew⟩ | ⟨hname, old, hold, hnew⟩
      · rw [hnew, Option.some.injEq] at hrun
        subst hrun
        refine ⟨calls, b, [], rfl, rfl, hwhy.imp_right fun hnone s' hs' => ?_, nofun,
          fun mid hmid s' hs' => ?_, by simp, rfl⟩
        · rw [hs'.unique h]
          exact hnone
        · rw [List.prefix_nil.mp hmid] at hs'
          rw [hs'.unique ht]
          exact hsome
      · rw [hnew, Option.some.injEq] at hrun
        subst hrun
        obtain ⟨before, a, after, hold⟩ := ih hold
        exact ⟨before, a, after ++ [b], hold.concat ht hsome (fun _ => hname) (by simp) (by
          simp [EventJournal.appendAll])⟩
    · obtain ⟨before, a, after, hold⟩ := ih (hothers runId run hid hrun)
      exact ⟨before, a, after ++ [b], hold.concat ht hsome (fun heq => absurd heq.symm hid)
        (by simp [Ne.symm hid]) (by simp [Ne.symm hid, EventJournal.appendAll])⟩

theorem trimmed_runJournal (epoch : Epoch) : (runJournal epoch).Trimmed [] :=
  ⟨Window.longest_nil, rfl, rfl⟩

/-! Journals that are gone -/

/-- A journal of the epoch has been made, and is stored no more. -/
def Gone (s : RunStore) (epoch : Epoch) : Prop :=
  epoch.text ∈ s.epochs ∧
    ∀ runId run, s.runs.lookup runId = some run → run.journal.epoch ≠ epoch

theorem Gone.append {s t : RunStore} {a : RunAppend} {epoch : Epoch} (h : Gone s epoch)
    (happend : s.append a = some t) : Gone t epoch := by
  obtain ⟨-, -, hepochs, hothers, hown⟩ := append_cases happend
  refine ⟨hepochs _ h.1, fun runId run hrun => ?_⟩
  by_cases hid : runId = a.runId
  · subst hid
    rcases hown with ⟨hfresh, -, -, hnew⟩ | ⟨-, old, hold, hnew⟩
    · rw [hnew, Option.some.injEq] at hrun
      subst hrun
      rw [((runJournal a.epoch).call_fixed a.call).1]
      rintro rfl
      exact hfresh h.1
    · rw [hnew, Option.some.injEq] at hrun
      subst hrun
      rw [(old.journal.call_fixed a.call).1]
      exact h.2 a.runId old hold
  · exact h.2 runId run (hothers runId run hid hrun)

theorem Gone.reached {calls more : List RunAppend} {s t : RunStore} {epoch : Epoch}
    (h : Gone s epoch) (hs : Reached calls s) (ht : Reached (calls ++ more) t) : Gone t epoch := by
  induction more using List.reverseRecOn generalizing t with
  | nil =>
    rw [List.append_nil] at ht
    exact ht.unique hs ▸ h
  | append_singleton more a ih =>
    rw [← List.append_assoc] at ht
    obtain ⟨u, hu, happend⟩ := ht.concat
    exact (ih hu).append happend

/-- The append evicts the run, or replaces its journal. -/
def Drops (a : RunAppend) (t : RunStore) (runId : Bytes) : Prop :=
  t.runs.lookup runId = none ∨ a.runId = runId ∧ a.name = runStarted

theorem gone_of_drops {s t : RunStore} {a : RunAppend} (h : Bounded s)
    (happend : s.append a = some t) {runId : Bytes} {old : StoredRun}
    (hold : s.runs.lookup runId = some old) (hdrops : Drops a t runId) :
    Gone t old.journal.epoch := by
  obtain ⟨-, -, hepochs, hothers, hown⟩ := append_cases happend
  refine ⟨hepochs _ (h.epochs runId old hold), fun other run hrun heq => ?_⟩
  by_cases hid : other = a.runId
  · subst hid
    rcases hown with ⟨hfresh, -, -, hnew⟩ | ⟨hname, kept, hkept, hnew⟩
    · rw [hnew, Option.some.injEq] at hrun
      subst hrun
      rw [((runJournal a.epoch).call_fixed a.call).1] at heq
      have hsame : a.epoch = old.journal.epoch := heq
      rw [hsame] at hfresh
      exact hfresh (h.epochs runId old hold)
    · rw [hnew, Option.some.injEq] at hrun
      subst hrun
      rw [(kept.journal.call_fixed a.call).1] at heq
      have hsame := h.apart _ _ kept old hkept hold heq
      subst hsame
      rcases hdrops with hnone | ⟨-, hstarted⟩
      · rw [hnew] at hnone
        cases hnone
      · exact hname hstarted
  · have hsame := h.apart _ _ run old (hothers other run hid hrun) hold heq
    subst hsame
    rcases hdrops with hnone | ⟨hown', -⟩
    · rw [hrun] at hnone
      cases hnone
    · exact hid hown'.symm

/-- After any calls: at most 128 runs are retained; the next call keeps its run, and evicts none
where it was retained; a retained run's journal holds the run's events since its latest
`run_started` or re-creation, as far as its limits allow; and a cursor of a journal that has been
evicted or replaced is answered with a resync. -/
theorem runs_retained {calls : List RunAppend} {s : RunStore} (h : Reached calls s) :
    ((s.runs.map Prod.fst).Nodup ∧ s.runs.length ≤ 128) ∧
      (∀ a : RunAppend, a.epoch.text ∉ s.epochs →
        ∃ oldest t, s.append { a with oldest } = some t) ∧
      (∀ a t, s.append a = some t → (t.runs.lookup a.runId).isSome = true ∧
        ((s.runs.lookup a.runId).isSome = true →
          ∀ other, other ≠ a.runId → t.runs.lookup other = s.runs.lookup other)) ∧
      (∀ runId run, s.runs.lookup runId = some run →
        ∃ before a after, Incarnation calls runId run before a after ∧
          Window.Longest frameSize 512 (1024 * 1024) run.journal.events
            ((runJournal a.epoch).accepted run.calls) ∧
          ((runJournal a.epoch).accepted run.calls).map (fun e => (e.name, e.data)) =
            (run.calls.filter fun c => c.data.encodable).map fun c => (c.name, c.data)) ∧
      ∀ before a after s₀ s₁ runId old run cursor n,
        calls = before ++ a :: after → Reached before s₀ → s₀.append a = some s₁ →
        s₀.runs.lookup runId = some old → Drops a s₁ runId →
        s.runs.lookup runId = some run → WellFormedCursor old.journal.epoch cursor n →
        ∃ batch, s.read runId cursor = some (some batch) ∧ batch.resyncRequired = true ∧
          batch.events = [] := by
  refine ⟨⟨h.bounded.nodup, h.bounded.bound⟩, h.bounded.append_goes_on, fun a t happend =>
    ⟨append_retains happend, fun hretained other hne => append_others happend hretained hne⟩,
    fun runId run hrun => ?_, ?_⟩
  · obtain ⟨before, a, after, hinc⟩ := h.incarnation hrun
    refine ⟨before, a, after, hinc, ?_, EventJournal.accepted_calls _ _⟩
    have htrimmed := (trimmed_runJournal a.epoch).appendAll run.calls
    rw [← hinc.journal, List.nil_append] at htrimmed
    have hkept := htrimmed.kept
    rw [hinc.journal, ((runJournal a.epoch).appendAll_fixed run.calls).2.1,
      ((runJournal a.epoch).appendAll_fixed run.calls).2.2, ← hinc.journal] at hkept
    exact hkept
  · rintro before a after s₀ s₁ runId old run cursor n rfl hs₀ happend hold hdrops hrun hcursor
    have hgone := gone_of_drops hs₀.bounded happend hold hdrops
    have hs : Reached ((before ++ [a]) ++ after) s := by simpa using h
    have hlater := hgone.reached (hs₀.append happend) hs
    obtain ⟨batch, hread, hresync, hnone⟩ :=
      EventJournal.read_other_epoch (hlater.2 runId run hrun) hcursor
    exact ⟨batch, by rw [RunStore.read, hrun, Option.map_some, hread], hresync, hnone⟩

/-- A run that is started again. -/
def restarts : List RunAppend :=
  [⟨runId 0, runStarted, [], false, 4, epochOf 0, []⟩,
    ⟨runId 0, ascii "chunk", [], false, 4, epochOf 1, []⟩,
    ⟨runId 0, runStarted, [], false, 3, epochOf 1, []⟩]

theorem reached_of_run {calls done : List RunAppend} {s t : RunStore} (h : Reached done s)
    (hrun : Machine.run RunStore.append s calls = some t) : Reached (done ++ calls) t := by
  induction calls generalizing done s with
  | nil =>
    cases hrun
    rwa [List.append_nil]
  | cons a calls ih =>
    obtain ⟨u, hu, hrun⟩ := Machine.run_cons_some RunStore.append hrun
    have hmore := ih (h.append hu) hrun
    rwa [List.append_assoc] at hmore

/-- A cursor of the first journal, read in the second one. -/
theorem runs_retained_restart :
    ∃ s, Machine.run RunStore.append {} restarts = some s ∧ s.runs.length ≤ 128 ∧
      ∃ batch, s.read (runId 0) (cursorText (epochOf 0) 1) = some (some batch) ∧
        batch.resyncRequired = true ∧ batch.events = [] := by
  obtain ⟨s, hrun, htest⟩ := Machine.run_of_any RunStore.append {} restarts
    (fun s => (s.runs.lookup (runId 0)).isSome) (by decide +kernel)
  obtain ⟨s₀, hrun₀, htest₀⟩ := Machine.run_of_any RunStore.append {} (restarts.take 2)
    (fun s => (s.runs.lookup (runId 0)).any fun run : StoredRun =>
      decide (run.journal.epoch.text = (epochOf 0).text)) (by decide +kernel)
  obtain ⟨old, hold, hepoch⟩ := (Option.any_eq_true _ _).mp htest₀
  obtain ⟨run, hlookup⟩ := Option.isSome_iff_exists.mp htest
  have hreached : Reached restarts s := reached_of_run .start hrun
  have hreached₀ : Reached (restarts.take 2) s₀ := reached_of_run .start hrun₀
  have hconcat : Reached (restarts.take 2 ++ [⟨runId 0, runStarted, [], false, 3, epochOf 1, []⟩])
    s := hreached
  obtain ⟨s₀', hs₀', hlast⟩ := hconcat.concat
  rw [hs₀'.unique hreached₀] at hlast
  have hcursor : WellFormedCursor old.journal.epoch (cursorText (epochOf 0) 1) 1 := by
    rw [Epoch.ext (of_decide_eq_true hepoch)]
    exact wellFormed_cursorText _ (by decide)
  obtain ⟨⟨-, hbound⟩, -, -, -, hgone⟩ := runs_retained hreached
  exact ⟨s, hrun, hbound, hgone (restarts.take 2) _ [] s₀ s (runId 0) old run _ 1 rfl hreached₀
    hlast hold (.inr ⟨rfl, rfl⟩) hlookup hcursor⟩

end RunEvents

end HolderDaemon
