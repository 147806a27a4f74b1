import HolderDaemon.EventJournal

/-!
What a journal remembers of the calls made on it. `Represents` relates the four counters
and the two deques to the log of the calls that succeeded; a call whose data is not
encodable advances the sequence and is counted apart.
-/

set_option autoImplicit false

open Bytes

namespace HolderDaemon

/-- The bytes of the event's frame. -/
def frameSize (event : StreamEvent) : Nat :=
  match encodeSse event with
  | .ok frame => frame.length
  | .error _ => 0

namespace EventJournal

def call (j : EventJournal) (c : AppendCall) : EventJournal :=
  (j.append c.name c.data c.finished).2

def appendAll (j : EventJournal) (calls : List AppendCall) : EventJournal := calls.foldl call j

/-- The event the next call builds. -/
def nextEvent (j : EventJournal) (c : AppendCall) : StreamEvent :=
  ⟨cursorText j.epoch (j.sequence + 1).toNat, c.name, c.data⟩

/-- Whether the call answers an event. -/
def accepts (j : EventJournal) (c : AppendCall) : Bool :=
  (j.append c.name c.data c.finished).1.isOk

structure Represents (j : EventJournal) (log : List StreamEvent) (failures : Nat) : Prop where
  kept : Window.Longest frameSize j.capacity j.byteLimit j.events log
  sizes : j.sizes = j.events.map frameSize
  bytes : j.bytes = Window.total frameSize j.events
  sequence : j.sequence.toNat = log.length + failures
  evicted : (j.oldestSequence - 1).toNat + j.events.length = log.length

end EventJournal

/-! One call -/

theorem encodeSse_isOk (event : StreamEvent) : (encodeSse event).isOk = event.data.encodable := by
  unfold encodeSse
  rw [Json.isOk_bind _ _ true (fun _ _ => rfl), Json.dump_isOk]
  simp

theorem encodeSse_of_encodable (event : StreamEvent) (h : event.data.encodable = true) :
    ∃ frame, encodeSse event = .ok frame ∧ frameSize event = frame.length := by
  rw [← encodeSse_isOk] at h
  cases he : encodeSse event with
  | error e => simp [he, Except.isOk, Except.toBool] at h
  | ok frame => exact ⟨frame, rfl, by simp [frameSize, he]⟩

theorem encodeSse_of_not_encodable (event : StreamEvent)
    (h : event.data.encodable = false) :
    ∃ e, encodeSse event = .error e := by
  rw [← encodeSse_isOk] at h
  cases he : encodeSse event with
  | error e => exact ⟨e, rfl⟩
  | ok frame => simp [he, Except.isOk, Except.toBool] at h

namespace EventJournal

/-- The loop trims the deque, keeps the two deques in step, and counts what it drops. -/
theorem evict_eq (capacity byteLimit : Nat) (events : List StreamEvent) (oldest : UInt64) :
    evict capacity byteLimit events (events.map frameSize) (Window.total frameSize events) oldest =
      (Window.trim frameSize capacity byteLimit events,
        (Window.trim frameSize capacity byteLimit events).map frameSize,
        Window.total frameSize (Window.trim frameSize capacity byteLimit events),
        oldest + UInt64.ofNat
          (events.length - (Window.trim frameSize capacity byteLimit events).length)) := by
  induction events generalizing oldest with
  | nil => simp [evict, Window.trim]
  | cons e events ih =>
    by_cases hf : Window.Fits frameSize capacity byteLimit (e :: events)
    · have hgo : ¬ (events.length + 1 > capacity ∨
          Window.total frameSize (e :: events) > byteLimit) := by
        simp only [Window.Fits, List.length_cons] at hf
        omega
      rw [List.map_cons, evict, if_neg hgo, Window.trim, if_pos hf]
      simp
    · have hgo : events.length + 1 > capacity ∨
          Window.total frameSize (e :: events) > byteLimit := by
        simp only [Window.Fits, List.length_cons] at hf
        omega
      have hlen := (Window.trim_suffix frameSize capacity byteLimit events).length_le
      have hcount : (e :: events).length - (Window.trim frameSize capacity byteLimit events).length =
          1 + (events.length - (Window.trim frameSize capacity byteLimit events).length) := by
        simp only [List.length_cons]
        omega
      rw [List.map_cons, evict, if_pos hgo, Window.trim, if_neg hf, Window.total_cons,
        Nat.add_sub_cancel_left, ih, hcount, UInt64.ofNat_add, ← UInt64.add_assoc]
      rfl

theorem append_of_encodable (j : EventJournal) (c : AppendCall) (h : c.data.encodable = true) :
    ∃ frame, frameSize (j.nextEvent c) = frame ∧
      j.append c.name c.data c.finished = (.ok (j.nextEvent c),
        let kept := evict j.capacity j.byteLimit (j.events ++ [j.nextEvent c])
          (j.sizes ++ [frame]) (j.bytes + frame) j.oldestSequence
        { j with
          sequence := j.sequence + 1
          finished := j.finished || c.finished
          events := kept.1
          sizes := kept.2.1
          bytes := kept.2.2.1
          oldestSequence := kept.2.2.2 }) := by
  obtain ⟨frame, he, hs⟩ := encodeSse_of_encodable (j.nextEvent c) h
  refine ⟨frame.length, hs, ?_⟩
  unfold nextEvent at he ⊢
  simp only [append, he]

theorem append_of_not_encodable (j : EventJournal) (c : AppendCall)
    (h : c.data.encodable = false) :
    ∃ e, j.append c.name c.data c.finished = (.error e, { j with sequence := j.sequence + 1 }) := by
  obtain ⟨e, he⟩ := encodeSse_of_not_encodable (j.nextEvent c) h
  unfold nextEvent at he
  exact ⟨e, by simp only [append, he]⟩

theorem sequence_succ {j : EventJournal} {n : Nat} (hs : j.sequence.toNat = n)
    (hn : n + 1 < 2 ^ 64) : (j.sequence + 1).toNat = n + 1 := by
  rw [UInt64.toNat_add, hs]
  exact Nat.mod_eq_of_lt hn

/-- With both deques and the count in step, an append is a trim. -/
theorem append_trim {j : EventJournal} (hsizes : j.sizes = j.events.map frameSize)
    (hbytes : j.bytes = Window.total frameSize j.events) (c : AppendCall)
    (hc : c.data.encodable = true) :
    j.append c.name c.data c.finished = (.ok (j.nextEvent c),
      let events := Window.trim frameSize j.capacity j.byteLimit (j.events ++ [j.nextEvent c])
      { j with
        sequence := j.sequence + 1
        finished := j.finished || c.finished
        events := events
        sizes := events.map frameSize
        bytes := Window.total frameSize events
        oldestSequence := j.oldestSequence +
          UInt64.ofNat ((j.events ++ [j.nextEvent c]).length - events.length) }) := by
  obtain ⟨frame, hsize, happend⟩ := append_of_encodable j c hc
  have hmap : j.sizes ++ [frame] = (j.events ++ [j.nextEvent c]).map frameSize := by
    simp [hsizes, hsize]
  have htotal : j.bytes + frame = Window.total frameSize (j.events ++ [j.nextEvent c]) := by
    simp [hbytes, hsize]
  rw [hmap, htotal, evict_eq] at happend
  exact happend

theorem represents_call {j : EventJournal} {log : List StreamEvent} {failures : Nat}
    (h : Represents j log failures) (c : AppendCall) (hc : c.data.encodable = true)
    (hn : log.length + failures + 1 < 2 ^ 64) :
    Represents (j.call c) (log ++ [j.nextEvent c]) failures := by
  have hkept := h.kept.concat (j.nextEvent c)
  have hle := (Window.trim_suffix frameSize j.capacity j.byteLimit
    (j.events ++ [j.nextEvent c])).length_le
  have hseq := sequence_succ h.sequence hn
  have hold := h.evicted
  have hsub : ∀ d : UInt64, j.oldestSequence + d - 1 = (j.oldestSequence - 1) + d := by
    intro d
    grind
  have hlog := h.kept.suffix.length_le
  simp only [List.length_append, List.length_singleton] at hle
  unfold call
  rw [append_trim h.sizes h.bytes c hc]
  refine ⟨hkept, rfl, rfl, ?_, ?_⟩
  · simp only [hseq, List.length_append, List.length_singleton]
    omega
  · simp only [hsub, List.length_append, List.length_singleton, UInt64.toNat_add,
      UInt64.toNat_ofNat']
    omega

theorem represents_failed {j : EventJournal} {log : List StreamEvent} {failures : Nat}
    (h : Represents j log failures) (c : AppendCall) (hc : c.data.encodable = false)
    (hn : log.length + failures + 1 < 2 ^ 64) :
    Represents (j.call c) log (failures + 1) := by
  obtain ⟨e, happend⟩ := append_of_not_encodable j c hc
  unfold call
  rw [happend]
  refine ⟨h.kept, h.sizes, h.bytes, ?_, h.evicted⟩
  rw [sequence_succ h.sequence hn]
  omega

theorem call_fixed (j : EventJournal) (c : AppendCall) :
    (j.call c).epoch = j.epoch ∧ (j.call c).capacity = j.capacity ∧
      (j.call c).byteLimit = j.byteLimit ∧ (j.call c).sequence = j.sequence + 1 := by
  unfold call
  cases hc : c.data.encodable with
  | true =>
    obtain ⟨frame, _, happend⟩ := append_of_encodable j c hc
    rw [happend]
    exact ⟨rfl, rfl, rfl, rfl⟩
  | false =>
    obtain ⟨e, happend⟩ := append_of_not_encodable j c hc
    rw [happend]
    exact ⟨rfl, rfl, rfl, rfl⟩

theorem accepts_eq (j : EventJournal) (c : AppendCall) : j.accepts c = c.data.encodable := by
  unfold accepts
  cases hc : c.data.encodable with
  | true =>
    obtain ⟨frame, _, happend⟩ := append_of_encodable j c hc
    rw [happend]
    rfl
  | false =>
    obtain ⟨e, happend⟩ := append_of_not_encodable j c hc
    rw [happend]
    rfl

/-! Reading -/

/-- `after` asks for the events from number `n + 1` on, and they are all there. -/
def StartsAfter (j : EventJournal) (after : Bytes) (n : Nat) : Prop :=
  (after = [] ∧ n = (j.oldestSequence - 1).toNat) ∨
    (WellFormedCursor j.epoch after n ∧ (j.oldestSequence - 1).toNat ≤ n ∧ n ≤ j.sequence.toNat)

theorem readFrom_startsAfter {j : EventJournal} {after : Bytes} {n : Nat}
    (h : j.StartsAfter after n) : j.readFrom after = some (UInt64.ofNat n) := by
  rcases h with ⟨rfl, rfl⟩ | ⟨hw, hlo, hhi⟩
  · simp [readFrom]
  · have hne := hw.ne_nil
    have hp := parseCursor_wellFormed hw
    obtain ⟨_, _, _, _, _, hn⟩ := hw
    have hnot : ¬ (j.epoch.text ≠ j.epoch.text ∨ UInt64.ofNat n > j.sequence ∨
        UInt64.ofNat n < j.oldestSequence - 1) := by
      simp only [gt_iff_lt, UInt64.lt_iff_toNat_lt, UInt64.toNat_ofNat_of_lt' hn]
      simp
      omega
    simp only [readFrom, if_neg hne, hp, if_neg hnot]

theorem startsAfter_readFrom {j : EventJournal} {after : Bytes} {s : UInt64}
    (h : j.readFrom after = some s) : j.StartsAfter after s.toNat := by
  unfold readFrom at h
  split at h
  · rename_i hnil
    cases h
    exact .inl ⟨hnil, rfl⟩
  · split at h
    · cases h
    · rename_i e n hp
      split at h
      · cases h
      · rename_i hin
        cases h
        obtain ⟨epoch, rfl, hw⟩ := parseCursor_sound hp
        simp only [ne_eq, gt_iff_lt, UInt64.lt_iff_toNat_lt, not_or, not_not, Nat.not_lt] at hin
        have hepoch : epoch = j.epoch := Epoch.ext hin.1
        exact .inr ⟨hepoch ▸ hw, hin.2.2, hin.2.1⟩

theorem readFrom_eq_none {j : EventJournal} {after : Bytes} :
    j.readFrom after = none ↔ ¬ ∃ n, j.StartsAfter after n := by
  constructor
  · rintro h ⟨n, hn⟩
    rw [readFrom_startsAfter hn] at h
    cases h
  · intro h
    cases hr : j.readFrom after with
    | none => rfl
    | some s => exact absurd ⟨_, startsAfter_readFrom hr⟩ h

theorem StartsAfter.lt {j : EventJournal} {after : Bytes} {n : Nat}
    (h : j.StartsAfter after n) : n < 2 ^ 64 := by
  rcases h with ⟨_, rfl⟩ | ⟨_, _, hhi⟩
  · exact UInt64.toNat_lt _
  · exact Nat.lt_of_le_of_lt hhi (UInt64.toNat_lt _)

theorem StartsAfter.evicted_le {j : EventJournal} {after : Bytes} {n : Nat}
    (h : j.StartsAfter after n) : (j.oldestSequence - 1).toNat ≤ n := by
  rcases h with ⟨_, rfl⟩ | ⟨_, hlo, _⟩
  · exact Nat.le_refl _
  · exact hlo

theorem Represents.events_eq {j : EventJournal} {log : List StreamEvent} {failures : Nat}
    (h : Represents j log failures) : j.events = log.drop (j.oldestSequence - 1).toNat := by
  have hd := List.suffix_iff_eq_drop.mp h.kept.suffix
  have he := h.evicted
  rw [show (j.oldestSequence - 1).toNat = log.length - j.events.length by omega]
  exact hd

/-- A cursor the journal covers is answered with the events after it, unless it lies past
the end of the deque. -/
theorem read_startsAfter {j : EventJournal} {log : List StreamEvent} {failures n : Nat}
    {after : Bytes} (h : Represents j log failures) (hs : j.StartsAfter after n) :
    j.read after =
      if n ≤ log.length then
        some { events := log.drop n, cursor := j.cursor, finished := j.finished,
               truncated := decide (j.oldestSequence > 1) }
      else none := by
  have hlo := hs.evicted_le
  have he := h.evicted
  have hoffset : (UInt64.ofNat n - (j.oldestSequence - 1)).toNat =
      n - (j.oldestSequence - 1).toNat := by
    rw [UInt64.toNat_sub_of_le, UInt64.toNat_ofNat_of_lt' hs.lt]
    rwa [UInt64.le_iff_toNat_le, UInt64.toNat_ofNat_of_lt' hs.lt]
  simp only [read, readFrom_startsAfter hs, hoffset]
  by_cases hn : n ≤ log.length
  · rw [if_pos hn, if_pos (by omega), h.events_eq, List.drop_drop]
    congr 3
    omega
  · rw [if_neg hn, if_neg (by omega)]

theorem read_resync {j : EventJournal} {after : Bytes} (h : ¬ ∃ n, j.StartsAfter after n) :
    j.read after = some { cursor := j.cursor, resyncRequired := true, finished := j.finished,
                          truncated := decide (j.oldestSequence > 1) } := by
  simp only [read, readFrom_eq_none.mpr h]

/-! Runs of calls -/

theorem create?_eq_some {epoch : Epoch} {capacity byteLimit : Nat} {j : EventJournal}
    (h : create? epoch capacity byteLimit = some j) :
    j.epoch = epoch ∧ j.capacity = capacity ∧ j.byteLimit = byteLimit ∧ Represents j [] 0 := by
  unfold create? at h
  split at h
  · cases h
    exact ⟨rfl, rfl, rfl, Window.longest_nil, rfl, rfl, rfl, by simp⟩
  · cases h

theorem create?_isSome (epoch : Epoch) {capacity byteLimit : Nat} (hc : 1 ≤ capacity)
    (hb : 1 ≤ byteLimit) : ∃ j, create? epoch capacity byteLimit = some j := by
  unfold create?
  rw [dif_pos ⟨hc, hb⟩]
  exact ⟨_, rfl⟩

theorem appendAll_fixed (j : EventJournal) (calls : List AppendCall) :
    (j.appendAll calls).epoch = j.epoch ∧ (j.appendAll calls).capacity = j.capacity ∧
      (j.appendAll calls).byteLimit = j.byteLimit := by
  induction calls generalizing j with
  | nil => exact ⟨rfl, rfl, rfl⟩
  | cons c calls ih =>
    obtain ⟨he, hc, hb⟩ := ih (j.call c)
    obtain ⟨he', hc', hb', _⟩ := j.call_fixed c
    exact ⟨he.trans he', hc.trans hc', hb.trans hb'⟩

@[simp] theorem appendAll_cons (j : EventJournal) (c : AppendCall) (calls : List AppendCall) :
    j.appendAll (c :: calls) = (j.call c).appendAll calls := rfl

theorem appendAll_append (j : EventJournal) (calls more : List AppendCall) :
    j.appendAll (calls ++ more) = (j.appendAll calls).appendAll more :=
  List.foldl_append

end EventJournal

/-- The events of successive calls, the first numbered `n + 1`. -/
def historyFrom (epoch : Epoch) : Nat → List AppendCall → List StreamEvent
  | _, [] => []
  | n, c :: calls => ⟨cursorText epoch (n + 1), c.name, c.data⟩ :: historyFrom epoch (n + 1) calls

def historyOf (epoch : Epoch) (calls : List AppendCall) : List StreamEvent :=
  historyFrom epoch 0 calls

@[simp] theorem historyFrom_length (epoch : Epoch) (n : Nat) (calls : List AppendCall) :
    (historyFrom epoch n calls).length = calls.length := by
  induction calls generalizing n with
  | nil => rfl
  | cons c calls ih => simp [historyFrom, ih]

theorem historyFrom_append (epoch : Epoch) (n : Nat) (calls more : List AppendCall) :
    historyFrom epoch n (calls ++ more) =
      historyFrom epoch n calls ++ historyFrom epoch (n + calls.length) more := by
  induction calls generalizing n with
  | nil => rfl
  | cons c calls ih =>
    simp only [List.cons_append, historyFrom, ih, List.length_cons]
    rw [show n + 1 + calls.length = n + (calls.length + 1) by omega]

theorem historyFrom_ids (epoch : Epoch) (n : Nat) (calls : List AppendCall) :
    (historyFrom epoch n calls).map StreamEvent.id =
      (List.range' (n + 1) calls.length).map (cursorText epoch) := by
  induction calls generalizing n with
  | nil => rfl
  | cons c calls ih => simp [historyFrom, ih, List.range'_succ]

namespace EventJournal

/-- The events that successive calls answer. -/
def accepted : EventJournal → List AppendCall → List StreamEvent
  | _, [] => []
  | j, c :: calls =>
    if j.accepts c then j.nextEvent c :: accepted (j.call c) calls else accepted (j.call c) calls

def failures (calls : List AppendCall) : Nat := calls.countP fun c => !c.data.encodable

theorem failures_eq_zero {calls : List AppendCall} :
    failures calls = 0 ↔ ∀ c ∈ calls, c.data.encodable = true := by
  simp [failures, List.countP_eq_zero]

theorem accepted_append (j : EventJournal) (calls more : List AppendCall) :
    j.accepted (calls ++ more) = j.accepted calls ++ (j.appendAll calls).accepted more := by
  induction calls generalizing j with
  | nil => rfl
  | cons c calls ih =>
    simp only [List.cons_append, accepted, ih (j.call c)]
    split <;> rfl

theorem represents_mixed {j : EventJournal} {log : List StreamEvent} {k : Nat}
    (h : Represents j log k) (calls : List AppendCall)
    (hn : log.length + k + calls.length < 2 ^ 64) :
    Represents (j.appendAll calls) (log ++ j.accepted calls) (k + failures calls) := by
  induction calls generalizing j log k with
  | nil => simpa [appendAll, accepted, failures] using h
  | cons c calls ih =>
    simp only [List.length_cons] at hn
    cases hc : c.data.encodable with
    | true =>
      have hrest := ih (represents_call h c hc (by omega)) (by simp; omega)
      simpa [accepted, accepts_eq, hc, failures] using hrest
    | false =>
      have hrest := ih (represents_failed h c hc (by omega)) (by omega)
      simpa [accepted, accepts_eq, hc, failures, Nat.add_assoc, Nat.add_comm] using hrest

theorem accepted_eq_history {j : EventJournal} {n : Nat} (hs : j.sequence.toNat = n)
    (calls : List AppendCall) (henc : ∀ c ∈ calls, c.data.encodable = true)
    (hn : n + calls.length < 2 ^ 64) : j.accepted calls = historyFrom j.epoch n calls := by
  induction calls generalizing j n with
  | nil => rfl
  | cons c calls ih =>
    simp only [List.length_cons] at hn
    obtain ⟨he, _, _, hseq⟩ := j.call_fixed c
    have hsucc := sequence_succ hs (by omega)
    have hrest := ih (hseq ▸ hsucc) (fun d hd => henc d (List.mem_cons_of_mem c hd)) (by omega)
    have hc := henc c List.mem_cons_self
    simp only [accepted, accepts_eq, hc, if_true, hrest, he, historyFrom, nextEvent, hsucc]

theorem represents_appendAll {j : EventJournal} {log : List StreamEvent} (h : Represents j log 0)
    (calls : List AppendCall) (henc : ∀ c ∈ calls, c.data.encodable = true)
    (hn : log.length + calls.length < 2 ^ 64) :
    Represents (j.appendAll calls) (log ++ historyFrom j.epoch log.length calls) 0 := by
  have hrep := represents_mixed h calls hn
  rwa [failures_eq_zero.mpr henc, accepted_eq_history h.sequence calls henc hn] at hrep

end EventJournal

/-! A reader -/

/-- A reader that passes the cursor of the batch before, until a batch asks for a resync. -/
structure Tail where
  journal : EventJournal
  cursor : Bytes
  delivered : List StreamEvent := []
  resync : Bool := false

inductive TailStep where
  | append (c : AppendCall)
  | poll

def Tail.took (t : Tail) (batch : EventBatch) : Tail :=
  { t with
    cursor := batch.cursor
    delivered := t.delivered ++ batch.events
    resync := batch.resyncRequired }

/-- Stuck only where `read` runs past the end of the deque. -/
def Tail.step (t : Tail) : TailStep → Option Tail
  | .append c => some { t with journal := t.journal.call c }
  | .poll =>
    if t.resync then some t else (t.journal.read t.cursor).map t.took

theorem Tail.step_poll {t : Tail} {batch : EventBatch} (hr : t.resync = false)
    (hread : t.journal.read t.cursor = some batch) : t.step .poll = some (t.took batch) := by
  simp [Tail.step, hr, hread]

def appendsOf : List TailStep → List AppendCall
  | [] => []
  | .append c :: steps => c :: appendsOf steps
  | .poll :: steps => appendsOf steps

/-- The reader started at number `n` and has had everything up to its cursor. -/
structure Tail.Follows (t : Tail) (log : List StreamEvent) (n : Nat) : Prop where
  journal : t.journal.Represents log 0
  start : n ≤ log.length
  delivered : t.delivered <+: log.drop n
  cursor : t.resync = false → ∃ m, WellFormedCursor t.journal.epoch t.cursor m ∧ n ≤ m ∧
    m ≤ log.length ∧ t.delivered = (log.drop n).take (m - n)

theorem take_drop_append {α : Type} (l : List α) {n m : Nat} (h : n ≤ m) :
    (l.drop n).take (m - n) ++ l.drop m = l.drop n := by
  have ht := List.take_append_drop (m - n) (l.drop n)
  rwa [List.drop_drop, show n + (m - n) = m by omega] at ht

theorem Tail.Follows.append {t : Tail} {log : List StreamEvent} {n : Nat} (h : t.Follows log n)
    (c : AppendCall) (hc : c.data.encodable = true) (hn : log.length + 1 < 2 ^ 64) :
    Tail.Follows { t with journal := t.journal.call c } (log ++ [t.journal.nextEvent c]) n := by
  have hj := EventJournal.represents_call h.journal c hc hn
  have hdrop : (log ++ [t.journal.nextEvent c]).drop n =
      log.drop n ++ [t.journal.nextEvent c] := List.drop_append_of_le_length h.start
  refine ⟨hj, ?_, ?_, ?_⟩
  · have hs := h.start
    simp only [List.length_append]
    omega
  · rw [hdrop]
    exact h.delivered.trans (List.prefix_append _ _)
  · intro hr
    obtain ⟨m, hw, hnm, hm, hd⟩ := h.cursor hr
    refine ⟨m, ?_, hnm, ?_, ?_⟩
    · rw [(t.journal.call_fixed c).1]
      exact hw
    · simp only [List.length_append]
      omega
    · rw [hdrop, List.take_append_of_le_length (by simp; omega)]
      exact hd

theorem EventJournal.StartsAfter.eq_of_wellFormed {j : EventJournal} {after : Bytes} {m n : Nat}
    (hs : j.StartsAfter after n) (hw : WellFormedCursor j.epoch after m) : n = m := by
  rcases hs with ⟨hnil, _⟩ | ⟨hn, _⟩
  · exact absurd hnil hw.ne_nil
  · exact (hn.unique hw).2

theorem EventJournal.StartsAfter.le_length {j : EventJournal} {log : List StreamEvent}
    {after : Bytes} {n : Nat} (hs : j.StartsAfter after n) (h : j.Represents log 0) :
    n ≤ log.length := by
  have hseq := h.sequence
  have hev := h.evicted
  rcases hs with ⟨_, rfl⟩ | ⟨_, _, hhi⟩ <;> omega

/-- A poll that starts after number `k` where `k` is what the reader has. -/
theorem Tail.poll_follows {t : Tail} {log : List StreamEvent} {n k : Nat}
    (hj : t.journal.Represents log 0) (hnk : n ≤ k) (hn : log.length < 2 ^ 64)
    (hr : t.resync = false) (hs : t.journal.StartsAfter t.cursor k)
    (hall : t.delivered ++ log.drop k = log.drop n) :
    ∃ u, t.step .poll = some u ∧ u.journal = t.journal ∧ u.Follows log n ∧ u.resync = false ∧
      u.delivered = log.drop n := by
  have hk := hs.le_length hj
  have hstart := Nat.le_trans hnk hk
  have hread := EventJournal.read_startsAfter hj hs
  rw [if_pos hk] at hread
  refine ⟨_, Tail.step_poll hr hread, rfl, ?_, rfl, hall⟩
  refine ⟨hj, hstart, ?_, ?_⟩
  · have hp : t.delivered ++ log.drop k <+: log.drop n := by simp [hall]
    exact hp
  · intro _
    refine ⟨log.length, ?_, hstart, Nat.le_refl _, ?_⟩
    · have hseq := hj.sequence
      simp only [Tail.took, EventJournal.cursor, hseq]
      exact wellFormed_cursorText _ hn
    · rw [List.take_of_length_le (by simp)]
      exact hall

/-- A poll is never stuck, and where it asks for no resync the reader is up to date. -/
theorem Tail.Follows.poll {t : Tail} {log : List StreamEvent} {n : Nat} (h : t.Follows log n)
    (hn : log.length < 2 ^ 64) :
    ∃ u, t.step .poll = some u ∧ u.journal = t.journal ∧ u.Follows log n ∧
      (u.resync = false → u.delivered = log.drop n) := by
  cases hr : t.resync with
  | true => exact ⟨t, by simp [Tail.step, hr], rfl, h, by simp [hr]⟩
  | false =>
    obtain ⟨m, hw, hnm, hm, hd⟩ := h.cursor hr
    by_cases hs : ∃ k, t.journal.StartsAfter t.cursor k
    · obtain ⟨k, hk⟩ := hs
      have hkm := hk.eq_of_wellFormed hw
      subst hkm
      have hall : t.delivered ++ log.drop k = log.drop n := by
        rw [hd, take_drop_append log hnm]
      obtain ⟨u, hstep, hj, hf, _, hu⟩ := Tail.poll_follows h.journal hnm hn hr hk hall
      exact ⟨u, hstep, hj, hf, fun _ => hu⟩
    · have hread := EventJournal.read_resync hs
      refine ⟨_, Tail.step_poll hr hread, rfl, ?_, fun hf => Bool.noConfusion hf⟩
      refine ⟨h.journal, h.start, ?_, fun hf => Bool.noConfusion hf⟩
      simpa [Tail.took] using h.delivered

theorem Tail.Follows.run {t : Tail} {log : List StreamEvent} {n : Nat} (h : t.Follows log n)
    (steps : List TailStep) (henc : ∀ c ∈ appendsOf steps, c.data.encodable = true)
    (hn : log.length + (appendsOf steps).length < 2 ^ 64) :
    ∃ u, Machine.run Tail.step t steps = some u ∧
      u.journal = t.journal.appendAll (appendsOf steps) ∧
      u.Follows (log ++ historyFrom t.journal.epoch log.length (appendsOf steps)) n := by
  induction steps generalizing t log with
  | nil => exact ⟨t, rfl, rfl, by simpa [appendsOf, historyFrom] using h⟩
  | cons step steps ih =>
    cases step with
    | append c =>
      simp only [appendsOf, List.length_cons] at hn henc
      have hnext := h.append c (henc c List.mem_cons_self) (by omega)
      obtain ⟨u, hrun, hj, hu⟩ := ih hnext
        (fun d hd => henc d (List.mem_cons_of_mem c hd)) (by simp; omega)
      have hevent : t.journal.nextEvent c =
          ⟨cursorText t.journal.epoch (log.length + 1), c.name, c.data⟩ := by
        rw [EventJournal.nextEvent, EventJournal.sequence_succ h.journal.sequence (by omega)]
      rw [(t.journal.call_fixed c).1, hevent, List.length_append, List.length_singleton,
        List.append_assoc] at hu
      exact ⟨u, hrun, hj, hu⟩
    | poll =>
      obtain ⟨m, hm, hjm, hfm, _⟩ := h.poll (by omega)
      obtain ⟨u, hrun, hj, hu⟩ := ih hfm henc hn
      rw [hjm] at hj hu
      exact ⟨u, by rw [Machine.run_cons, hm]; exact hrun, hj, hu⟩

/-- The first batch is read at number `n`; later ones follow it. -/
theorem Tail.run_started {j : EventJournal} {log : List StreamEvent} {after : Bytes} {n : Nat}
    (h : j.Represents log 0) (hs : j.StartsAfter after n) (steps : List TailStep)
    (henc : ∀ c ∈ appendsOf steps, c.data.encodable = true)
    (hn : log.length + (appendsOf steps).length < 2 ^ 64) :
    ∃ u, Machine.run Tail.step ⟨j, after, [], false⟩ (.poll :: steps) = some u ∧
      u.journal = j.appendAll (appendsOf steps) ∧
      u.Follows (log ++ historyFrom j.epoch log.length (appendsOf steps)) n := by
  obtain ⟨t, ht, hj, hf, _⟩ := Tail.poll_follows (t := ⟨j, after, [], false⟩) h (Nat.le_refl n)
    (by omega) rfl hs rfl
  obtain ⟨u, hu, huj, huf⟩ := hf.run steps henc hn
  rw [hj] at huj huf
  exact ⟨u, by rw [Machine.run_cons, ht]; exact hu, huj, huf⟩

namespace EventJournal

theorem Represents.ids {j : EventJournal} {calls : List AppendCall}
    (h : j.Represents (historyOf j.epoch calls) 0) :
    j.events.map StreamEvent.id =
      (List.range' j.oldestSequence.toNat j.events.length).map (cursorText j.epoch) := by
  cases he : j.events with
  | nil => rfl
  | cons e events =>
    have hev := h.evicted
    have hmap := congrArg (List.map StreamEvent.id) h.events_eq
    simp only [historyOf, List.map_drop, historyFrom_ids, historyFrom_length] at hmap hev
    have holdest : j.oldestSequence.toNat = (j.oldestSequence - 1).toNat + 1 := by
      have hlt := UInt64.toNat_lt j.sequence
      have hseq := h.sequence
      have hs : (j.oldestSequence - 1 + 1).toNat = _ := UInt64.toNat_add _ _
      rw [UInt64.sub_add_cancel] at hs
      simp [he, historyOf] at hev hseq hs
      omega
    rw [← he, hmap, ← List.map_drop, List.drop_range', holdest]
    congr 2 <;> omega

theorem Represents.read {j : EventJournal} {log : List StreamEvent} (h : j.Represents log 0)
    (after : Bytes) : ∃ batch, j.read after = some batch ∧
      (batch.resyncRequired = true ↔ after ≠ [] ∧ ¬ ∃ n, WellFormedCursor j.epoch after n ∧
        (j.oldestSequence - 1).toNat ≤ n ∧ n ≤ j.sequence.toNat) ∧
      (after = [] → batch.events = j.events) ∧
      ∀ n, WellFormedCursor j.epoch after n → batch.resyncRequired = false →
        batch.events = log.drop n := by
  by_cases hs : ∃ n, j.StartsAfter after n
  · obtain ⟨n, hs⟩ := hs
    have hread := read_startsAfter h hs
    rw [if_pos (hs.le_length h)] at hread
    refine ⟨_, hread, ?_, ?_, ?_⟩
    · rcases hs with ⟨hnil, _⟩ | hin
      · simp [hnil]
      · simp only [Bool.false_eq_true, false_iff, not_and, not_not]
        exact fun _ => ⟨n, hin⟩
    · intro hnil
      rcases hs with ⟨_, rfl⟩ | ⟨hw, _⟩
      · exact h.events_eq.symm
      · exact absurd hnil hw.ne_nil
    · intro m hm _
      rw [hs.eq_of_wellFormed hm]
  · refine ⟨_, read_resync hs, ?_, ?_, fun n _ hf => Bool.noConfusion hf⟩
    · simp only [true_iff]
      exact ⟨fun hnil => hs ⟨_, .inl ⟨hnil, rfl⟩⟩, fun ⟨n, hn⟩ => hs ⟨n, .inr hn⟩⟩
    · exact fun hnil => absurd ⟨_, .inl ⟨hnil, rfl⟩⟩ hs

/-- The journal is the tail of its history that its two bounds allow, and a reader that
follows it from any cursor it covers misses and repeats nothing. -/
theorem journal_exact (epoch : Epoch) {capacity byteLimit : Nat} (hc : 1 ≤ capacity)
    (hb : 1 ≤ byteLimit) (calls : List AppendCall)
    (henc : ∀ c ∈ calls, c.data.encodable = true) (hn : calls.length < 2 ^ 64) :
    ∃ fresh j, create? epoch capacity byteLimit = some fresh ∧ j = fresh.appendAll calls ∧
      Window.Longest frameSize capacity byteLimit j.events (historyOf epoch calls) ∧
      (j.oldestSequence - 1).toNat + j.events.length = j.sequence.toNat ∧
      j.events.map StreamEvent.id =
        (List.range' j.oldestSequence.toNat j.events.length).map (cursorText epoch) ∧
      j.sizes = j.events.map frameSize ∧
      j.bytes = j.sizes.sum ∧
      (∀ after, ∃ batch, j.read after = some batch ∧
        (batch.resyncRequired = true ↔ after ≠ [] ∧ ¬ ∃ n, WellFormedCursor epoch after n ∧
          (j.oldestSequence - 1).toNat ≤ n ∧ n ≤ j.sequence.toNat) ∧
        (after = [] → batch.events = j.events) ∧
        ∀ n, WellFormedCursor epoch after n → batch.resyncRequired = false →
          batch.events = (historyOf epoch calls).drop n) ∧
      ∀ after n steps, j.StartsAfter after n →
        (∀ c ∈ appendsOf steps, c.data.encodable = true) →
        calls.length + (appendsOf steps).length < 2 ^ 64 →
        ∃ reader, Machine.run Tail.step ⟨j, after, [], false⟩ (.poll :: steps) = some reader ∧
          reader.delivered <+: (historyOf epoch (calls ++ appendsOf steps)).drop n ∧
          ∃ polled, reader.step .poll = some polled ∧ (polled.resync = false →
            polled.delivered = (historyOf epoch (calls ++ appendsOf steps)).drop n) := by
  obtain ⟨fresh, hfresh⟩ := create?_isSome epoch hc hb
  obtain ⟨rfl, rfl, rfl, hr⟩ := create?_eq_some hfresh
  have hrep := represents_appendAll hr calls henc (by simpa using hn)
  simp only [List.nil_append, List.length_nil] at hrep
  obtain ⟨hepoch, hcap, hlim⟩ := fresh.appendAll_fixed calls
  have hseq := hrep.sequence
  have hev := hrep.evicted
  refine ⟨fresh, _, hfresh, rfl, ?_⟩
  rw [← hepoch] at hrep ⊢
  refine ⟨?_, by omega, hrep.ids, hrep.sizes, ?_, ?_, ?_⟩
  · rw [← hcap, ← hlim]
    exact hrep.kept
  · rw [hrep.sizes]
    exact hrep.bytes
  · intro after
    exact hrep.read after
  · intro after n steps hs hsteps hlen
    obtain ⟨reader, hrun, hj, hf⟩ := Tail.run_started hrep hs steps hsteps (by simpa [historyOf])
    simp only [historyOf, historyFrom_append, historyFrom_length] at hf ⊢
    have hlen' : (historyFrom (fresh.appendAll calls).epoch 0 calls ++ historyFrom
        (fresh.appendAll calls).epoch calls.length (appendsOf steps)).length < 2 ^ 64 := by
      simpa using hlen
    obtain ⟨polled, hpoll, _, _, hup⟩ := hf.poll hlen'
    simp only [Nat.zero_add]
    exact ⟨reader, hrun, hf.delivered, polled, hpoll, hup⟩

/-- Two changes in a journal of one entry, and a third while a reader follows. -/
theorem journal_exact_changes :
    let calls : List AppendCall :=
      [⟨ascii "card.changed", .null, false⟩, ⟨ascii "project.changed", .bool true, false⟩]
    let more : AppendCall := ⟨ascii "card.changed", .str (ascii "card-1"), false⟩
    ∃ fresh j, create? nilEpoch 1 4096 = some fresh ∧ j = fresh.appendAll calls ∧
      Window.Longest frameSize 1 4096 j.events (historyOf nilEpoch calls) ∧
      ∃ reader, Machine.run Tail.step ⟨j, [], [], false⟩ [.poll, .append more] = some reader ∧
        ∃ polled, reader.step .poll = some polled ∧ (polled.resync = false →
          polled.delivered =
            (historyOf nilEpoch (calls ++ [more])).drop (j.oldestSequence - 1).toNat) := by
  intro calls more
  obtain ⟨fresh, j, hfresh, hj, hkept, _, _, _, _, _, hreader⟩ :=
    journal_exact nilEpoch (by decide : 1 ≤ 1) (by decide : 1 ≤ 4096) calls (by decide) (by decide)
  obtain ⟨reader, hrun, _, polled, hpoll, hup⟩ :=
    hreader [] _ [.append more] (.inl ⟨rfl, rfl⟩) (by decide) (by decide)
  exact ⟨fresh, j, hfresh, hj, hkept, reader, hrun, polled, hpoll, hup⟩

end EventJournal

/-! Failed calls -/

namespace EventJournal

/-- Where the call throws, the journal is as before. -/
def Atomic (j : EventJournal) (c : AppendCall) : Prop :=
  j.accepts c = false → j.call c = j

/-- Every cursor handed out during the calls is later read without running past the deque,
and gives what was accepted after it or asks for a resync. -/
def ReadsExactly (j : EventJournal) (calls : List AppendCall) : Prop :=
  ∀ before after, calls = before ++ after →
    ∃ batch, (j.appendAll calls).read (j.appendAll before).cursor = some batch ∧
      (batch.resyncRequired = false → batch.events = (j.appendAll before).accepted after)

theorem atomic_iff (j : EventJournal) (c : AppendCall) :
    j.Atomic c ↔ c.data.encodable = true := by
  unfold Atomic
  rw [accepts_eq]
  cases hc : c.data.encodable with
  | true => simp
  | false =>
    have hne : j.call c ≠ j := by
      intro he
      have hseq := (j.call_fixed c).2.2.2
      rw [he] at hseq
      grind
    simp [hne]

theorem readsExactly_iff {fresh : EventJournal} (h : Represents fresh [] 0)
    (calls : List AppendCall) (hn : calls.length < 2 ^ 64) :
    fresh.ReadsExactly calls ↔ ∀ c ∈ calls, c.data.encodable = true := by
  have hrep := represents_mixed h calls (by simpa using hn)
  simp only [List.nil_append, Nat.zero_add] at hrep
  have hseq := hrep.sequence
  have hev := hrep.evicted
  rw [← failures_eq_zero]
  constructor
  · intro hreads
    obtain ⟨batch, hbatch, _⟩ := hreads calls [] (by simp)
    have hw := wellFormed_cursorText (fresh.appendAll calls).epoch
      (UInt64.toNat_lt (fresh.appendAll calls).sequence)
    have hs : (fresh.appendAll calls).StartsAfter (fresh.appendAll calls).cursor _ :=
      .inr ⟨hw, by omega, Nat.le_refl _⟩
    rw [read_startsAfter hrep hs] at hbatch
    split at hbatch
    · omega
    · cases hbatch
  · rintro hzero before after rfl
    have hbefore := represents_mixed h before (by simp at hn ⊢; omega)
    have hzeros : failures before = 0 := by
      simp only [failures, List.countP_append] at hzero ⊢
      omega
    rw [hzero] at hrep
    rw [hzeros] at hbefore
    obtain ⟨batch, hread, _, _, hevents⟩ := hrep.read (fresh.appendAll before).cursor
    refine ⟨batch, hread, fun hr => ?_⟩
    have hepoch : (fresh.appendAll (before ++ after)).epoch = (fresh.appendAll before).epoch :=
      (fresh.appendAll_fixed _).1.trans (fresh.appendAll_fixed _).1.symm
    have hw := wellFormed_cursorText (fresh.appendAll (before ++ after)).epoch
      (UInt64.toNat_lt (fresh.appendAll before).sequence)
    rw [hepoch] at hw hevents
    rw [hevents _ hw hr, hbefore.sequence, accepted_append]
    simp

/-- A call is atomic exactly where its data can be encoded, and every read after a run of
calls is right exactly where every call of the run could be encoded. -/
theorem appends_atomic_iff {epoch : Epoch} {capacity byteLimit : Nat} {fresh : EventJournal}
    (hfresh : create? epoch capacity byteLimit = some fresh) (calls : List AppendCall)
    (hn : calls.length < 2 ^ 64) (j : EventJournal) (c : AppendCall) :
    (j.Atomic c ↔ c.data.encodable = true) ∧
      (fresh.ReadsExactly calls ↔ ∀ d ∈ calls, d.data.encodable = true) := by
  obtain ⟨_, _, _, hr⟩ := create?_eq_some hfresh
  exact ⟨atomic_iff j c, readsExactly_iff hr calls hn⟩

/-- A provider's text cut inside a character, as the data of a run event. -/
theorem append_not_atomic :
    ∃ fresh, create? nilEpoch 512 1048576 = some fresh ∧
      let c : AppendCall :=
        ⟨ascii "failed", .obj [(ascii "error", .str (ascii "caf" ++ [0xC3]))], true⟩
      fresh.accepts c = false ∧ fresh.sequence = 0 ∧ (fresh.call c).sequence = 1 ∧
        ¬ fresh.Atomic c ∧ (fresh.call c).read (fresh.call c).cursor = none := by
  refine ⟨_, rfl, ?_⟩
  intro c
  refine ⟨by decide, rfl, by decide, ?_, by decide⟩
  intro h
  have hseq := congrArg EventJournal.sequence (h (by decide))
  exact absurd hseq (by decide)

/-- A run that meets the condition, and the exact reads it gives. -/
theorem appends_atomic_iff_sample :
    let calls : List AppendCall :=
      [⟨ascii "started", .null, false⟩, ⟨ascii "done", .bool true, true⟩]
    ∃ fresh, create? nilEpoch 2 4096 = some fresh ∧ fresh.ReadsExactly calls := by
  intro calls
  obtain ⟨fresh, hfresh⟩ := create?_isSome nilEpoch (by decide : 1 ≤ 2) (by decide : 1 ≤ 4096)
  obtain ⟨_, hreads⟩ := appends_atomic_iff hfresh calls (by decide) fresh
    ⟨ascii "done", .bool true, true⟩
  exact ⟨fresh, hfresh, hreads.mpr (by decide)⟩

end EventJournal

end HolderDaemon
