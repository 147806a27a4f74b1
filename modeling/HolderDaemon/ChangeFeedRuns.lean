import HolderDaemon.ChangeFeed
import HolderDaemon.JournalHistory

/-!
Polls of the change feed against a database that other connections commit to. A poll is one
step for each thing it reads and each event it appends; commits fall anywhere between, and
any step may throw.
-/

set_option autoImplicit false

open Bytes

namespace HolderDaemon

namespace ChangeFeed

structure Feed where
  version : Int
  previous : Snapshot
  revisions : Revisions

/-- How far the constructor or `poll` is. `started` and `seen` count the commits at the read
of the version and at the read of the content. -/
inductive Phase where
  | idle
  | versionRead (version : Int) (started : Nat)
  | snapshotRead (version : Int) (started seen : Nat) (current : Snapshot)
  | revisionsRead (version : Int) (started : Nat) (revisions : Revisions)
  | appending (version : Int) (started seen : Nat) (current : Snapshot) (revisions : Revisions)
      (todo : List Key)

/-- An event that was appended, with the snapshot of its poll. -/
structure Entry where
  poll : Nat
  key : Key
  current : Snapshot
  call : AppendCall

/-- What a construction or a poll that returned left in the feed, and how many events the
journal had been given by then. -/
structure Observation where
  poll : Nat
  started : Nat
  seen : Nat
  ended : Nat
  previous : Snapshot
  revisions : Revisions
  mark : Nat

structure World where
  journal : EventJournal
  commits : Nat := 0
  feed : Option Feed := none
  phase : Phase := .idle
  polls : Nat := 0
  appended : List Entry := []
  observations : List Observation := []

inductive Action where
  | commit
  | readVersion
  | readRevisions (answer : Revisions)
  | readSnapshot
  | append
  | finish
  | throw

def World.observe (w : World) (feed : Feed) (started seen : Nat) : World :=
  { w with
    feed := some feed
    phase := .idle
    observations :=
      ⟨w.polls, started, seen, w.commits, feed.previous, feed.revisions, w.appended.length⟩ ::
        w.observations }

section Runs
variable (sha256 : Bytes → Bytes) (dataVersion : Nat → Int) (db : Nat → Content)

def World.readSnapshot (w : World) (next : Snapshot → Phase) : World :=
  match snapshot sha256 (db w.commits) with
  | .error _ => { w with phase := .idle }
  | .ok current => { w with phase := next current }

/-- `poll` after `read_revisions`. -/
def World.readRevisions (w : World) (feed : Feed) (version : Int) (started : Nat)
    (answer : Revisions) : World :=
  if version = feed.version then
    if answer = feed.revisions then w.observe feed started started
    else
      { w with
        phase := .appending version started started feed.previous answer
          (changed feed.previous feed.previous feed.revisions answer) }
  else { w with phase := .revisionsRead version started answer }

/-- The journal is left as the call leaves it also where the call throws. -/
def World.append (w : World) (key : Key) (current : Snapshot) (revisions : Revisions)
    (next : Phase) : World :=
  let call := changeCall current revisions key
  if w.journal.accepts call then
    { w with
      journal := w.journal.call call
      appended := w.appended ++ [⟨w.polls, key, current, call⟩]
      phase := next }
  else { w with journal := w.journal.call call, phase := .idle }

def World.step (w : World) : Action → Option World
  | .commit => some { w with commits := w.commits + 1 }
  | .readVersion =>
    match w.phase with
    | .idle =>
      some { w with
        phase := .versionRead (dataVersion w.commits) w.commits
        polls := w.polls + 1 }
    | _ => none
  | .readSnapshot =>
    match w.feed, w.phase with
    | none, .versionRead version started =>
      some (w.readSnapshot sha256 db (.snapshotRead version started w.commits))
    | some feed, .revisionsRead version started revisions =>
      some (w.readSnapshot sha256 db fun current =>
        .appending version started w.commits current revisions
          (changed feed.previous current feed.revisions revisions))
    | _, _ => none
  | .readRevisions answer =>
    match w.feed, w.phase with
    | none, .snapshotRead version started seen current =>
      some (w.observe ⟨version, current, answer⟩ started seen)
    | some feed, .versionRead version started =>
      some (w.readRevisions feed version started answer)
    | _, _ => none
  | .append =>
    match w.phase with
    | .appending version started seen current revisions (key :: todo) =>
      some (w.append key current revisions
        (.appending version started seen current revisions todo))
    | _ => none
  | .finish =>
    match w.phase with
    | .appending version started seen current revisions [] =>
      some (w.observe ⟨version, current, revisions⟩ started seen)
    | _ => none
  | .throw =>
    match w.phase with
    | .idle => none
    | _ => some { w with phase := .idle }

/-- The bytes fingerprinted for a key, where the content has rows for it. -/
def rowBytes (content : Content) (key : Key) : Option Bytes :=
  ((digests content).toOption.getD []).lookup key

/-- Every difference between two snapshots, and every head that the later revisions list
and the earlier do not, has its event in `events`. -/
structure Reported (previous current : Snapshot) (revisions currentRevisions : Revisions)
    (events : List Entry) : Prop where
  content : ∀ key, previous.lookup key ≠ current.lookup key → ∃ e ∈ events, e.key = key
  heads : ∀ project revision, currentRevisions.lookup project = some revision →
    revisions.lookup project ≠ some revision → ∃ e ∈ events, e.key = projectKey project

theorem reported_of_changed {previous current : Snapshot} {revisions currentRevisions : Revisions}
    {events : List Entry} (h : ∀ key ∈ changed previous current revisions currentRevisions,
      ∃ e ∈ events, e.key = key) :
    Reported previous current revisions currentRevisions events :=
  ⟨fun key hne => h key (changed_of_differs hne _ _),
    fun _ _ hc hne => h _ (changed_of_revision hc hne _ _)⟩

theorem reported_refl (previous : Snapshot) (revisions : Revisions) (events : List Entry) :
    Reported previous previous revisions revisions events :=
  ⟨fun _ hne => absurd rfl hne, fun _ _ hc hne => absurd hc hne⟩

theorem Reported.mono {previous current : Snapshot} {revisions currentRevisions : Revisions}
    {events more : List Entry} (h : Reported previous current revisions currentRevisions events)
    (hm : ∀ e ∈ events, e ∈ more) : Reported previous current revisions currentRevisions more := by
  refine ⟨fun key hne => ?_, fun project revision hc hne => ?_⟩
  · obtain ⟨e, he, hk⟩ := h.content key hne
    exact ⟨e, hm e he, hk⟩
  · obtain ⟨e, he, hk⟩ := h.heads project revision hc hne
    exact ⟨e, hm e he, hk⟩

theorem Reported.trans {a b c : Snapshot} {ra rb rc : Revisions} {events : List Entry}
    (hab : Reported a b ra rb events) (hbc : Reported b c rb rc events) :
    Reported a c ra rc events := by
  refine ⟨fun key hne => ?_, fun project revision hc hne => ?_⟩
  · by_cases h : a.lookup key = b.lookup key
    · exact hbc.content key (by rwa [← h])
    · exact hab.content key h
  · by_cases h : rb.lookup project = some revision
    · exact hab.heads project revision h hne
    · exact hbc.heads project revision hc h

/-- The events between two observations report their differences. -/
def Covers (appended : List Entry) (older newer : Observation) : Prop :=
  older.mark ≤ newer.mark ∧ Reported older.previous newer.previous older.revisions
    newer.revisions ((appended.take newer.mark).drop older.mark)

theorem mem_window {α : Type} {l : List α} {a b c d : Nat} {x : α} (hab : a ≤ b) (hcd : c ≤ d)
    (h : x ∈ (l.take c).drop b) : x ∈ (l.take d).drop a := by
  have hp : l.take c <+: l.take d := List.take_prefix_take_left hcd
  obtain ⟨s, hs⟩ := hp
  rw [← hs, List.drop_append]
  exact List.mem_append_left _ ((List.drop_suffix_drop_left (l.take c) hab).subset h)

theorem Covers.trans {appended : List Entry} {a b c : Observation} (hab : Covers appended a b)
    (hbc : Covers appended b c) : Covers appended a c := by
  refine ⟨hab.1.trans hbc.1, Reported.trans (hab.2.mono ?_) (hbc.2.mono ?_)⟩
  · exact fun e he => mem_window (Nat.le_refl _) hbc.1 he
  · exact fun e he => mem_window hab.1 (Nat.le_refl _) he

/-- What holds of the history at every moment. -/
structure Recorded (feed : Option Feed) (commits polls : Nat) (appended : List Entry)
    (observations : List Observation) : Prop where
  latest : ∀ f, feed = some f → ∃ o rest, observations = o :: rest ∧ o.previous = f.previous ∧
    o.revisions = f.revisions ∧ ∃ v, f.version = dataVersion v ∧ v ≤ o.seen
  unopened : feed = none → observations = []
  observed : ∀ o ∈ observations, snapshot sha256 (db o.seen) = .ok o.previous ∧
    o.started ≤ o.seen ∧ o.seen ≤ o.ended ∧ o.ended ≤ commits ∧ o.mark ≤ appended.length ∧
    o.poll ≤ polls ∧ ∀ e ∈ appended, e.poll = o.poll → e.current = o.previous
  covers : observations.Pairwise fun newer older => Covers appended older newer
  entries : ∀ e ∈ appended, e.poll ≤ polls ∧
    ∃ revisions, e.call = changeCall e.current revisions e.key
  once : ∀ p, ((appended.filter fun e => e.poll = p).map Entry.key).Nodup

/-- The number of events given to the journal by the last observation. -/
def markOf : List Observation → Nat
  | [] => 0
  | o :: _ => o.mark

/-- No event and no observation of the poll that is running. -/
def Fresh (polls : Nat) (appended : List Entry) (observations : List Observation) : Prop :=
  (∀ e ∈ appended, e.poll < polls) ∧ ∀ o ∈ observations, o.poll < polls

/-- What holds at each point of a poll. -/
def PhaseOk (feed : Option Feed) (commits polls : Nat) (appended : List Entry)
    (observations : List Observation) : Phase → Prop
  | .idle => True
  | .versionRead version started =>
    version = dataVersion started ∧ started ≤ commits ∧ Fresh polls appended observations ∧
      ∀ o ∈ observations, o.seen ≤ started
  | .snapshotRead version started seen current =>
    version = dataVersion started ∧ started ≤ seen ∧ seen ≤ commits ∧
      snapshot sha256 (db seen) = .ok current ∧ feed = none ∧ Fresh polls appended observations
  | .revisionsRead version started _ =>
    version = dataVersion started ∧ started ≤ commits ∧ Fresh polls appended observations
  | .appending version started seen current revisions todo =>
    version = dataVersion started ∧ started ≤ seen ∧ seen ≤ commits ∧
      snapshot sha256 (db seen) = .ok current ∧ (∀ o ∈ observations, o.poll < polls) ∧
      todo.Nodup ∧
      (∀ e ∈ appended, e.poll = polls → e.current = current ∧ e.key ∉ todo) ∧
      ∃ f, feed = some f ∧ ∀ key ∈ changed f.previous current f.revisions revisions,
        key ∈ todo ∨ ∃ e ∈ appended.drop (markOf observations), e.key = key

def Inv (w : World) : Prop :=
  Recorded sha256 dataVersion db w.feed w.commits w.polls w.appended w.observations ∧
    PhaseOk sha256 dataVersion db w.feed w.commits w.polls w.appended w.observations w.phase

variable {sha256 dataVersion db}

theorem Covers.grow {appended : List Entry} {older newer : Observation}
    (h : Covers appended older newer) (hn : newer.mark ≤ appended.length) (e : Entry) :
    Covers (appended ++ [e]) older newer := by
  have ht : (appended ++ [e]).take newer.mark = appended.take newer.mark :=
    List.take_append_of_le_length hn
  unfold Covers
  rw [ht]
  exact h

theorem inv_start (journal : EventJournal) :
    Inv sha256 dataVersion db ⟨journal, 0, none, .idle, 0, [], []⟩ :=
  ⟨⟨by simp, by simp, by simp, by simp, by simp, by simp⟩, trivial⟩

theorem Recorded.commit {feed : Option Feed} {commits polls : Nat} {appended : List Entry}
    {observations : List Observation}
    (h : Recorded sha256 dataVersion db feed commits polls appended observations) :
    Recorded sha256 dataVersion db feed (commits + 1) polls appended observations := by
  refine ⟨h.latest, h.unopened, ?_, h.covers, h.entries, h.once⟩
  intro o ho
  obtain ⟨hs, h1, h2, h3, h4⟩ := h.observed o ho
  exact ⟨hs, h1, h2, by omega, h4⟩

theorem Recorded.poll {feed : Option Feed} {commits polls : Nat} {appended : List Entry}
    {observations : List Observation}
    (h : Recorded sha256 dataVersion db feed commits polls appended observations) :
    Recorded sha256 dataVersion db feed commits (polls + 1) appended observations ∧
      Fresh (polls + 1) appended observations := by
  refine ⟨⟨h.latest, h.unopened, ?_, h.covers, ?_, h.once⟩, ?_, ?_⟩
  · intro o ho
    obtain ⟨hs, h1, h2, h3, h4, h5, h6⟩ := h.observed o ho
    exact ⟨hs, h1, h2, h3, h4, by omega, h6⟩
  · intro e he
    obtain ⟨hp, hc⟩ := h.entries e he
    exact ⟨by omega, hc⟩
  · intro e he
    exact Nat.lt_succ_of_le (h.entries e he).1
  · intro o ho
    exact Nat.lt_succ_of_le (h.observed o ho).2.2.2.2.2.1

theorem Recorded.append {feed : Option Feed} {commits polls : Nat} {appended : List Entry}
    {observations : List Observation}
    (h : Recorded sha256 dataVersion db feed commits polls appended observations)
    (hfresh : ∀ o ∈ observations, o.poll < polls) {key : Key} {current : Snapshot}
    {revisions : Revisions} (hkey : ∀ e ∈ appended, e.poll = polls → e.key ≠ key) :
    Recorded sha256 dataVersion db feed commits polls
      (appended ++ [⟨polls, key, current, changeCall current revisions key⟩]) observations := by
  refine ⟨h.latest, h.unopened, ?_, ?_, ?_, ?_⟩
  · intro o ho
    obtain ⟨hs, h1, h2, h3, h4, h5, h6⟩ := h.observed o ho
    refine ⟨hs, h1, h2, h3, by simp; omega, h5, ?_⟩
    intro e he hp
    rcases List.mem_append.mp he with he | he
    · exact h6 e he hp
    · rw [List.mem_singleton.mp he] at hp
      have hlt := hfresh o ho
      simp only at hp
      omega
  · refine h.covers.imp_of_mem ?_
    intro newer older hnewer _ hc
    exact hc.grow (h.observed newer hnewer).2.2.2.2.1 _
  · intro e he
    rcases List.mem_append.mp he with he | he
    · exact h.entries e he
    · rw [List.mem_singleton.mp he]
      exact ⟨Nat.le_refl _, revisions, rfl⟩
  · intro p
    rw [List.filter_append, List.map_append, List.nodup_append]
    refine ⟨h.once p, ?_, ?_⟩
    · by_cases hp : polls = p <;> simp [hp]
    · intro k hk k' hk'
      by_cases hp : polls = p
      · subst hp
        simp only [List.filter_cons, decide_true, if_true, List.filter_nil, List.map_cons,
          List.map_nil, List.mem_singleton] at hk'
        obtain ⟨e, he, rfl⟩ := List.mem_map.mp hk
        obtain ⟨he, hpoll⟩ := List.mem_filter.mp he
        rw [hk']
        exact hkey e he (of_decide_eq_true hpoll)
      · simp [hp] at hk'

/-- A poll that returns, with an event since the last observation for all that changed. -/
theorem Recorded.observe {feed : Option Feed} {commits polls : Nat} {appended : List Entry}
    {observations : List Observation}
    (h : Recorded sha256 dataVersion db feed commits polls appended observations)
    {f : Feed} {started seen : Nat} (hv : f.version = dataVersion started) (hs : started ≤ seen)
    (hc : seen ≤ commits) (hsnap : snapshot sha256 (db seen) = .ok f.previous)
    (hcurrent : ∀ e ∈ appended, e.poll = polls → e.current = f.previous)
    (hall : ∀ old, feed = some old → Reported old.previous f.previous old.revisions f.revisions
      (appended.drop (markOf observations))) :
    Recorded sha256 dataVersion db (some f) commits polls appended
      (⟨polls, started, seen, commits, f.previous, f.revisions, appended.length⟩ ::
        observations) := by
  refine ⟨?_, by simp, ?_, ?_, h.entries, h.once⟩
  · intro g hg
    cases hg
    exact ⟨_, _, rfl, rfl, rfl, started, hv, hs⟩
  · intro o ho
    rcases List.mem_cons.mp ho with rfl | ho
    · exact ⟨hsnap, hs, hc, Nat.le_refl _, Nat.le_refl _, Nat.le_refl _, hcurrent⟩
    · exact h.observed o ho
  · rw [List.pairwise_cons]
    refine ⟨?_, h.covers⟩
    cases feed with
    | none => simp [h.unopened rfl]
    | some old =>
      obtain ⟨o, rest, hobs, hprev, hrev, _⟩ := h.latest old rfl
      subst hobs
      have hmark := (h.observed o List.mem_cons_self).2.2.2.2.1
      have hlast : Covers appended o
          ⟨polls, started, seen, commits, f.previous, f.revisions, appended.length⟩ := by
        have hr := hall old rfl
        rw [← hprev, ← hrev] at hr
        refine ⟨hmark, ?_⟩
        rw [List.take_length]
        exact hr
      intro older holder
      rcases List.mem_cons.mp holder with rfl | holder
      · exact hlast
      · exact (List.rel_of_pairwise_cons h.covers holder).trans hlast

/-! One step -/

theorem Inv.idle {w : World} (h : Inv sha256 dataVersion db w) (journal : EventJournal) :
    Inv sha256 dataVersion db { w with journal, phase := .idle } := ⟨h.1, trivial⟩

theorem inv_commit {w : World} (h : Inv sha256 dataVersion db w) :
    Inv sha256 dataVersion db { w with commits := w.commits + 1 } := by
  refine ⟨h.1.commit, ?_⟩
  have hp := h.2
  revert hp
  cases hphase : w.phase <;> simp only [PhaseOk]
  case idle => simp
  case versionRead version started => exact fun hp => ⟨hp.1, by omega, hp.2.2⟩
  case snapshotRead version started seen current =>
    exact fun hp => ⟨hp.1, hp.2.1, by omega, hp.2.2.2⟩
  case revisionsRead version started revisions => exact fun hp => ⟨hp.1, by omega, hp.2.2⟩
  case appending version started seen current revisions todo =>
    exact fun hp => ⟨hp.1, hp.2.1, by omega, hp.2.2.2⟩

theorem inv_readSnapshot {w : World} (h : Inv sha256 dataVersion db w) (next : Snapshot → Phase)
    (hnext : ∀ current, snapshot sha256 (db w.commits) = .ok current →
      PhaseOk sha256 dataVersion db w.feed w.commits w.polls w.appended w.observations
        (next current)) :
    Inv sha256 dataVersion db (w.readSnapshot sha256 db next) := by
  unfold World.readSnapshot
  cases hs : snapshot sha256 (db w.commits) with
  | error e => exact h.idle w.journal
  | ok current => exact ⟨h.1, hnext current hs⟩

/-- What `appending` starts with. -/
theorem phaseOk_appending {w : World} {feed : Feed} {version : Int} {started seen : Nat}
    {current : Snapshot} {revisions : Revisions} (hfeed : w.feed = some feed)
    (hv : version = dataVersion started) (hs : started ≤ seen) (hc : seen ≤ w.commits)
    (hsnap : snapshot sha256 (db seen) = .ok current)
    (hfresh : Fresh w.polls w.appended w.observations) :
    PhaseOk sha256 dataVersion db w.feed w.commits w.polls w.appended w.observations
      (.appending version started seen current revisions
        (changed feed.previous current feed.revisions revisions)) := by
  refine ⟨hv, hs, hc, hsnap, hfresh.2, nodup_changed _ _ _ _, ?_, feed, hfeed, ?_⟩
  · intro e he hp
    have hlt := hfresh.1 e he
    omega
  · exact fun key hk => .inl hk

/-- Where the version is the feed's, nothing was committed since the feed's content was read. -/
theorem unchanged_content {w : World} (h : Inv sha256 dataVersion db w)
    (hinj : Function.Injective dataVersion) {feed : Feed} (hfeed : w.feed = some feed)
    {started : Nat} (hv : dataVersion started = feed.version)
    (hlast : ∀ o ∈ w.observations, o.seen ≤ started) :
    snapshot sha256 (db started) = .ok feed.previous := by
  obtain ⟨o, rest, hobs, hprev, _, v, hfv, hle⟩ := h.1.latest feed hfeed
  have ho : o ∈ w.observations := by simp [hobs]
  have hstart : started = v := hinj (hv.trans hfv)
  have hseen : o.seen = started := by
    have := hlast o ho
    omega
  rw [← hseen, (h.1.observed o ho).1, hprev]

theorem inv_readRevisions {w : World} (h : Inv sha256 dataVersion db w)
    (hinj : Function.Injective dataVersion) {feed : Feed} (hfeed : w.feed = some feed)
    {version : Int} {started : Nat} (hphase : w.phase = .versionRead version started)
    (answer : Revisions) :
    Inv sha256 dataVersion db (w.readRevisions feed version started answer) := by
  have hp := h.2
  rw [hphase] at hp
  obtain ⟨hv, hs, hfresh, hlast⟩ := hp
  unfold World.readRevisions
  split
  · rename_i heq
    have hsnap := unchanged_content h hinj hfeed (hv ▸ heq) hlast
    split
    · refine ⟨?_, trivial⟩
      refine h.1.observe (hv ▸ heq.symm) (Nat.le_refl _) hs hsnap ?_ ?_
      · intro e he hp
        have hlt := hfresh.1 e he
        omega
      · intro old hold
        rw [hfeed] at hold
        cases hold
        exact reported_refl _ _ _
    · exact ⟨h.1, phaseOk_appending hfeed hv (Nat.le_refl _) hs hsnap hfresh⟩
  · exact ⟨h.1, hv, hs, hfresh⟩

theorem inv_append {w : World} (h : Inv sha256 dataVersion db w) {version : Int}
    {started seen : Nat} {current : Snapshot} {revisions : Revisions} {key : Key}
    {todo : List Key}
    (hphase : w.phase = .appending version started seen current revisions (key :: todo)) :
    Inv sha256 dataVersion db (w.append key current revisions
      (.appending version started seen current revisions todo)) := by
  have hp := h.2
  rw [hphase] at hp
  obtain ⟨hv, hs, hc, hsnap, hfresh, hnodup, hdone, feed, hfeed, hall⟩ := hp
  obtain ⟨hnot, hnodup⟩ := List.nodup_cons.mp hnodup
  simp only [World.append]
  split
  · refine ⟨h.1.append hfresh ?_, hv, hs, hc, hsnap, hfresh, hnodup, ?_, feed, hfeed, ?_⟩
    · intro e he hp hk
      exact (hdone e he hp).2 (hk ▸ List.mem_cons_self)
    · intro e he hp
      rcases List.mem_append.mp he with he | he
      · obtain ⟨hcur, hk⟩ := hdone e he hp
        exact ⟨hcur, fun hm => hk (List.mem_cons_of_mem key hm)⟩
      · rw [List.mem_singleton.mp he]
        exact ⟨rfl, hnot⟩
    · have hmark : markOf w.observations ≤ w.appended.length := by
        cases hobs : w.observations with
        | nil => exact Nat.zero_le _
        | cons o rest => exact (h.1.observed o (by simp [hobs])).2.2.2.2.1
      rw [List.drop_append_of_le_length hmark]
      intro k hk
      rcases hall k hk with hk | ⟨e, he, rfl⟩
      · rcases List.mem_cons.mp hk with rfl | hk
        · exact .inr ⟨_, List.mem_append_right _ (List.mem_singleton_self _), rfl⟩
        · exact .inl hk
      · exact .inr ⟨e, List.mem_append_left _ he, rfl⟩
  · exact h.idle _

theorem inv_finish {w : World} (h : Inv sha256 dataVersion db w) {version : Int}
    {started seen : Nat} {current : Snapshot} {revisions : Revisions}
    (hphase : w.phase = .appending version started seen current revisions []) :
    Inv sha256 dataVersion db (w.observe ⟨version, current, revisions⟩ started seen) := by
  have hp := h.2
  rw [hphase] at hp
  obtain ⟨hv, hs, hc, hsnap, _, _, hdone, feed, hfeed, hall⟩ := hp
  refine ⟨h.1.observe hv hs hc hsnap (fun e he hp => (hdone e he hp).1) ?_, trivial⟩
  intro old hold
  rw [hfeed] at hold
  cases hold
  refine reported_of_changed fun key hk => ?_
  rcases hall key hk with hnil | hdone
  · cases hnil
  · exact hdone

theorem inv_step (hinj : Function.Injective dataVersion) (w : World) (a : Action) (t : World)
    (h : Inv sha256 dataVersion db w) (hstep : w.step sha256 dataVersion db a = some t) :
    Inv sha256 dataVersion db t := by
  cases a with
  | commit =>
    cases hstep
    exact inv_commit h
  | readVersion =>
    simp only [World.step] at hstep
    split at hstep
    · cases hstep
      obtain ⟨hr, hfresh⟩ := h.1.poll
      refine ⟨hr, rfl, Nat.le_refl _, hfresh, fun o ho => ?_⟩
      obtain ⟨_, _, h2, h3, _⟩ := h.1.observed o ho
      exact h2.trans h3
    · cases hstep
  | readSnapshot =>
    simp only [World.step] at hstep
    split at hstep
    · rename_i version started hfeed hphase
      cases hstep
      have hp := h.2
      rw [hphase] at hp
      obtain ⟨hv, hs, hfresh, _⟩ := hp
      exact inv_readSnapshot h _ fun current hsnap =>
        ⟨hv, hs, Nat.le_refl _, hsnap, hfeed, hfresh⟩
    · rename_i feed version started revisions hfeed hphase
      cases hstep
      have hp := h.2
      rw [hphase] at hp
      obtain ⟨hv, hs, hfresh⟩ := hp
      exact inv_readSnapshot h _ fun current hsnap =>
        phaseOk_appending hfeed hv hs (Nat.le_refl _) hsnap hfresh
    · cases hstep
  | readRevisions answer =>
    simp only [World.step] at hstep
    split at hstep
    · rename_i version started seen current hfeed hphase
      cases hstep
      have hp := h.2
      rw [hphase] at hp
      obtain ⟨hv, hs, hc, hsnap, _, hfresh⟩ := hp
      refine ⟨h.1.observe hv hs hc hsnap ?_ ?_, trivial⟩
      · intro e he hp
        have hlt := hfresh.1 e he
        omega
      · intro old hold
        rw [hfeed] at hold
        cases hold
    · rename_i feed version started hfeed hphase
      cases hstep
      exact inv_readRevisions h hinj hfeed hphase answer
    · cases hstep
  | append =>
    simp only [World.step] at hstep
    split at hstep
    · rename_i hphase
      cases hstep
      exact inv_append h hphase
    · cases hstep
  | finish =>
    simp only [World.step] at hstep
    split at hstep
    · rename_i hphase
      cases hstep
      exact inv_finish h hphase
    · cases hstep
  | throw =>
    simp only [World.step] at hstep
    split at hstep
    · cases hstep
    · cases hstep
      exact h.idle w.journal

/-! Runs -/

theorem lookup_snapshot {content : Content} {current : Snapshot}
    (h : snapshot sha256 content = .ok current) (key : Key) :
    current.lookup key = (rowBytes content key).map sha256 := by
  unfold rowBytes
  cases hd : digests content with
  | error e => simp [snapshot, hd, bind, Except.bind] at h
  | ok all =>
    simp only [snapshot, hd, bind, Except.bind, Except.ok.injEq] at h
    rw [← h]
    exact Assoc.lookup_map sha256 key all

/-- The journal has had the calls of the entries, and calls that threw. -/
def Journaled (journal : EventJournal) (w : World) : Prop :=
  ∃ calls, w.journal = journal.appendAll calls ∧
    calls.filter (fun c => c.data.encodable) = w.appended.map Entry.call

theorem journaled_append {journal : EventJournal} {w : World} (h : Journaled journal w)
    (key : Key) (current : Snapshot) (revisions : Revisions) (next : Phase) :
    Journaled journal (w.append key current revisions next) := by
  obtain ⟨calls, hj, hc⟩ := h
  refine ⟨calls ++ [changeCall current revisions key], ?_, ?_⟩
  · rw [EventJournal.appendAll_append, ← hj]
    simp only [World.append]
    split <;> rfl
  · rw [List.filter_append, hc]
    simp only [World.append, EventJournal.accepts_eq]
    split <;> simp_all

theorem readSnapshot_frame (w : World) (next : Snapshot → Phase) :
    (w.readSnapshot sha256 db next).journal = w.journal ∧
      (w.readSnapshot sha256 db next).appended = w.appended := by
  unfold World.readSnapshot
  split <;> exact ⟨rfl, rfl⟩

theorem readRevisions_frame (w : World) (feed : Feed) (version : Int) (started : Nat)
    (answer : Revisions) : (w.readRevisions feed version started answer).journal = w.journal ∧
      (w.readRevisions feed version started answer).appended = w.appended := by
  unfold World.readRevisions
  split
  · split <;> exact ⟨rfl, rfl⟩
  · exact ⟨rfl, rfl⟩

/-- Only `append` touches the journal. -/
theorem step_frame {w : World} {a : Action} {t : World}
    (hstep : w.step sha256 dataVersion db a = some t) (ha : a ≠ .append) :
    t.journal = w.journal ∧ t.appended = w.appended := by
  cases a with
  | commit =>
    cases hstep
    exact ⟨rfl, rfl⟩
  | append => exact absurd rfl ha
  | readSnapshot =>
    simp only [World.step] at hstep
    split at hstep <;> cases hstep
    · exact readSnapshot_frame w _
    · exact readSnapshot_frame w _
  | readRevisions answer =>
    simp only [World.step] at hstep
    split at hstep <;> cases hstep
    · exact ⟨rfl, rfl⟩
    · exact readRevisions_frame w _ _ _ _
  | _ =>
    simp only [World.step] at hstep
    split at hstep <;> cases hstep
    exact ⟨rfl, rfl⟩

theorem journaled_step (journal : EventJournal) (w : World) (a : Action) (t : World)
    (h : Journaled journal w) (hstep : w.step sha256 dataVersion db a = some t) :
    Journaled journal t := by
  by_cases ha : a = .append
  · subst ha
    simp only [World.step] at hstep
    split at hstep <;> cases hstep
    exact journaled_append h _ _ _ _
  · obtain ⟨hj, happ⟩ := step_frame hstep ha
    unfold Journaled
    rw [hj, happ]
    exact h

/-- Every difference between two observations was given to the journal between them. -/
theorem poll_loses_nothing (hsha : Function.Injective sha256)
    (hversion : Function.Injective dataVersion) (journal : EventJournal) (actions : List Action)
    (w : World)
    (hrun : Machine.run (World.step sha256 dataVersion db) { journal } actions = some w) :
    (w.observations.Pairwise fun newer older =>
      (∀ key, rowBytes (db older.seen) key ≠ rowBytes (db newer.seen) key →
        ∃ e ∈ (w.appended.take newer.mark).drop older.mark, e.key = key) ∧
      ∀ project revision, newer.revisions.lookup project = some revision →
        older.revisions.lookup project ≠ some revision →
        ∃ e ∈ (w.appended.take newer.mark).drop older.mark, e.key = projectKey project) ∧
    (∀ o ∈ w.observations, o.started ≤ o.seen ∧ o.seen ≤ o.ended ∧ o.ended ≤ w.commits ∧
      snapshot sha256 (db o.seen) = .ok o.previous ∧
      ∀ e ∈ w.appended, e.poll = o.poll → e.current = o.previous) ∧
    (∀ poll, ((w.appended.filter fun e => e.poll = poll).map Entry.key).Nodup) ∧
    (∀ e ∈ w.appended, e.call.name = e.key.1 ++ ascii ".changed" ∧
      e.call.data.field? (ascii "entity_id") = some (.str e.key.2.1) ∧
      (e.call.data.field? (ascii "deleted") = some (.bool true) ↔ e.current.lookup e.key = none)) ∧
    Journaled journal w := by
  obtain ⟨hr, _⟩ := Machine.run_invariant _ (inv_step hversion) (inv_start journal) hrun
  have hjournal := Machine.run_invariant _ (journaled_step journal) ⟨[], rfl, rfl⟩ hrun
  refine ⟨hr.covers.imp_of_mem ?_, ?_, hr.once, ?_, hjournal⟩
  · intro newer older hnewer holder hc
    refine ⟨fun key hne => hc.2.content key ?_, hc.2.heads⟩
    rw [lookup_snapshot (hr.observed older holder).1, lookup_snapshot (hr.observed newer hnewer).1]
    exact fun he => hne (Option.map_injective hsha he)
  · intro o ho
    obtain ⟨hsnap, h1, h2, h3, _, _, hcur⟩ := hr.observed o ho
    exact ⟨h1, h2, h3, hsnap, hcur⟩
  · intro e he
    obtain ⟨_, revisions, hcall⟩ := hr.entries e he
    rw [hcall]
    refine ⟨rfl, by rw [changeCall_fields]; rfl, ?_⟩
    have hdeleted : (changeCall e.current revisions e.key).data.field? (ascii "deleted") =
        some (.bool (e.current.lookup e.key).isNone) := by
      rw [changeCall_fields]
      rfl
    rw [hdeleted]
    simp only [Option.some.injEq, Json.bool.injEq, Option.isNone_iff_eq_none]

end Runs

/-- The rows of a database with this one project row, or with no project. -/
def projectContent (name : Option String) : Content where
  hasTable := fun _ => true
  rows := fun sql =>
    if sql = ascii "SELECT project_id, project_id, * FROM projects ORDER BY project_id" then
      name.toList.map fun n => ⟨.str (ascii "p1"), .str (ascii "p1"), [.str (ascii n)]⟩
    else []

/-- The project is renamed, its head moves, and it is deleted after the poll has read the
heads: that poll reports the deletion, and the head it recorded is gone by the next one. -/
theorem removed_head_unreported :
    let db : Nat → Content := fun n =>
      projectContent (if n = 0 then some "old" else if n = 1 then some "new" else none)
    ∃ (w : World) (newer older : Observation) (rest : List Observation),
      Machine.run (World.step id Int.ofNat db) { journal := changesJournal nilEpoch }
        [.readVersion, .readSnapshot, .readRevisions [(ascii "p1", some (ascii "a1"))],
         .commit, .readVersion, .readRevisions [(ascii "p1", some (ascii "b2"))],
         .commit, .readSnapshot, .append, .finish,
         .readVersion, .readRevisions [], .readSnapshot, .finish] = some w ∧
      w.observations = newer :: older :: rest ∧
      older.revisions.lookup (ascii "p1") ≠ newer.revisions.lookup (ascii "p1") ∧
      w.appended.drop older.mark = [] := by
  intro db
  obtain ⟨w, hw, h⟩ := Machine.run_of_any (World.step id Int.ofNat db)
    { journal := changesJournal nilEpoch }
    [.readVersion, .readSnapshot, .readRevisions [(ascii "p1", some (ascii "a1"))],
     .commit, .readVersion, .readRevisions [(ascii "p1", some (ascii "b2"))],
     .commit, .readSnapshot, .append, .finish,
     .readVersion, .readRevisions [], .readSnapshot, .finish]
    (fun w => decide (w.observations.map Observation.revisions =
        [[], [(ascii "p1", some (ascii "b2"))], [(ascii "p1", some (ascii "a1"))]]) &&
      decide (w.observations.map Observation.mark = [1, 1, 0]) && decide (w.appended.length = 1))
    (by decide +kernel)
  simp only [Bool.and_eq_true, decide_eq_true_eq] at h
  obtain ⟨⟨hrevisions, hmarks⟩, hlength⟩ := h
  obtain ⟨newer, rest, hobs, hnewer, hrest⟩ := List.map_eq_cons_iff.mp hrevisions
  obtain ⟨older, rest, rfl, holder, _⟩ := List.map_eq_cons_iff.mp hrest
  rw [hobs] at hmarks
  simp only [List.map_cons, List.cons.injEq] at hmarks
  refine ⟨w, newer, older, rest, hw, hobs, ?_, ?_⟩
  · rw [hnewer, holder]
    decide
  · rw [hmarks.2.1]
    exact List.drop_eq_nil_of_le (by omega)

theorem poll_loses_nothing_renamed :
    let db : Nat → Content := fun n => projectContent (if n = 0 then some "old" else some "new")
    ∃ w : World, Machine.run (World.step id Int.ofNat db) { journal := changesJournal nilEpoch }
        [.readVersion, .readSnapshot, .readRevisions [(ascii "p1", none)],
         .commit, .readVersion, .readRevisions [(ascii "p1", none)], .readSnapshot, .append,
         .finish] = some w ∧
      (w.observations.Pairwise fun newer older =>
        ∀ key, rowBytes (db older.seen) key ≠ rowBytes (db newer.seen) key →
          ∃ e ∈ (w.appended.take newer.mark).drop older.mark, e.key = key) := by
  intro db
  obtain ⟨w, hw, _⟩ := Machine.run_of_any (World.step id Int.ofNat db)
    { journal := changesJournal nilEpoch }
    [.readVersion, .readSnapshot, .readRevisions [(ascii "p1", none)],
     .commit, .readVersion, .readRevisions [(ascii "p1", none)], .readSnapshot, .append, .finish]
    (fun _ => true) (by decide +kernel)
  obtain ⟨hcovers, _⟩ := poll_loses_nothing Function.injective_id
    (fun _ _ h => Int.ofNat.inj h : Function.Injective Int.ofNat) (changesJournal nilEpoch) _ w hw
  exact ⟨w, hw, hcovers.imp fun h => h.1⟩

end ChangeFeed

end HolderDaemon
