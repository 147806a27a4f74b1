import HolderDaemon.Json
import HolderDaemon.Window
import HolderDaemon.Machine

/-!
The process-local event journal (`api/support/EventJournal.cpp`): absolute cursors over a
deque bounded by a count and by encoded bytes.
-/

set_option autoImplicit false

open Bytes

namespace HolderDaemon

structure StreamEvent where
  id : Bytes
  name : Bytes
  data : Json
  deriving Repr

/-- The arguments of `append`. -/
structure AppendCall where
  name : Bytes
  data : Json
  finished : Bool := false

structure EventBatch where
  events : List StreamEvent := []
  cursor : Bytes
  resyncRequired : Bool := false
  finished : Bool := false
  truncated : Bool := false
  deriving Repr

/-- One position of an epoch: hyphens at 8, 13, 18 and 23, lowercase hexadecimal elsewhere. -/
def epochChar (ch : UInt8) (i : Nat) : Bool :=
  if i = 8 ∨ i = 13 ∨ i = 18 ∨ i = 23 then ch == 45
  else isDigit ch || (97 ≤ ch.toNat && ch.toNat ≤ 102)

def epochText (s : Bytes) : Bool := s.zipIdx.all fun p => epochChar p.1 p.2

/-- What `boost::uuids::to_string` gives. -/
@[ext] structure Epoch where
  text : Bytes
  size : text.length = 36
  wellFormed : epochText text = true

def nilEpoch : Epoch :=
  ⟨ascii "00000000-0000-0000-0000-000000000000", by decide, by decide⟩

/-- `find(':')` answers the length where the code has `npos`; the second test of the
first line then fails as well. -/
def parseCursor (cursor : Bytes) : Option (Bytes × UInt64) :=
  let separator := cursor.idxOf 58
  if separator ≠ 36 ∨ cursor.length ≤ separator + 1 then none
  else
    let epoch := cursor.take separator
    if epochText epoch then
      (fromChars (2 ^ 64) (cursor.drop (separator + 1))).map fun n => (epoch, UInt64.ofNat n)
    else none

def cursorText (epoch : Epoch) (sequence : Nat) : Bytes :=
  epoch.text ++ ascii ":" ++ decimal sequence

def encodeSse (event : StreamEvent) : Except Json.Error Bytes := do
  let data ← event.data.dump
  .ok (ascii "id: " ++ event.id ++ ascii "\nevent: " ++ event.name ++ ascii "\ndata: " ++
    data ++ ascii "\n\n")

/-- `bytes` sums the lengths of frames whose events are all in memory, so it is a `Nat`;
the two counters are the 64-bit words of the code. -/
structure EventJournal where
  epoch : Epoch
  sequence : UInt64 := 0
  oldestSequence : UInt64 := 1
  events : List StreamEvent := []
  sizes : List Nat := []
  bytes : Nat := 0
  capacity : Nat
  byteLimit : Nat
  finished : Bool := false
  capacity_pos : 0 < capacity
  byteLimit_pos : 0 < byteLimit

/-- The journal `changes` of the event service, new. -/
def changesJournal (epoch : Epoch) : EventJournal :=
  { epoch, capacity := 4096, byteLimit := 1048576, capacity_pos := by decide,
    byteLimit_pos := by decide }

namespace EventJournal

/-- The constructor throws on an empty capacity. -/
def create? (epoch : Epoch) (capacity byteLimit : Nat) : Option EventJournal :=
  if h : 0 < capacity ∧ 0 < byteLimit then
    some { epoch, capacity, byteLimit, capacity_pos := h.1, byteLimit_pos := h.2 }
  else none

/-- The eviction loop of `append`. Neither deque is empty where the loop goes on. -/
def evict (capacity byteLimit : Nat) :
    List StreamEvent → List Nat → Nat → UInt64 → List StreamEvent × List Nat × Nat × UInt64
  | e :: events, size :: sizes, bytes, oldest =>
    if events.length + 1 > capacity ∨ bytes > byteLimit then
      evict capacity byteLimit events sizes (bytes - size) (oldest + 1)
    else (e :: events, size :: sizes, bytes, oldest)
  | events, sizes, bytes, oldest => (events, sizes, bytes, oldest)

/-- The journal left behind is part of the answer also where the encoder throws. -/
def append (j : EventJournal) (name : Bytes) (data : Json) (finished : Bool) :
    Except Json.Error StreamEvent × EventJournal :=
  let sequence := j.sequence + 1
  let event : StreamEvent := ⟨cursorText j.epoch sequence.toNat, name, data⟩
  match encodeSse event with
  | .error e => (.error e, { j with sequence := sequence })
  | .ok frame =>
    let kept := evict j.capacity j.byteLimit (j.events ++ [event]) (j.sizes ++ [frame.length])
      (j.bytes + frame.length) j.oldestSequence
    (.ok event,
      { j with
        sequence := sequence
        finished := j.finished || finished
        events := kept.1
        sizes := kept.2.1
        bytes := kept.2.2.1
        oldestSequence := kept.2.2.2 })

def cursor (j : EventJournal) : Bytes := cursorText j.epoch j.sequence.toNat

/-- The sequence `read` starts after, or none where it asks for a resync. -/
def readFrom (j : EventJournal) (after : Bytes) : Option UInt64 :=
  if after = [] then some (j.oldestSequence - 1)
  else
    match parseCursor after with
    | none => none
    | some (epoch, sequence) =>
      if epoch ≠ j.epoch.text ∨ sequence > j.sequence ∨ sequence < j.oldestSequence - 1 then none
      else some sequence

/-- `none` is an iterator past the end of the deque. -/
def read (j : EventJournal) (after : Bytes) : Option EventBatch :=
  let batch : EventBatch :=
    { cursor := j.cursor, finished := j.finished, truncated := decide (j.oldestSequence > 1) }
  match j.readFrom after with
  | none => some { batch with resyncRequired := true }
  | some sequence =>
    let offset := (sequence - (j.oldestSequence - 1)).toNat
    if offset ≤ j.events.length then some { batch with events := j.events.drop offset } else none

def validCursor (cursor : Bytes) : Bool := (parseCursor cursor).isSome

end EventJournal

/-! Cursors -/

/-- An epoch's text, a colon and a numeral of this value. -/
def WellFormedCursor (epoch : Epoch) (s : Bytes) (n : Nat) : Prop :=
  ∃ digits, s = epoch.text ++ ascii ":" ++ digits ∧ digits ≠ [] ∧ digits.all isDigit = true ∧
    decimalValue digits = n ∧ n < 2 ^ 64

theorem colon_not_epochChar (i : Nat) : epochChar 58 i = false := by
  unfold epochChar
  split <;> decide

theorem colon_not_mem_epochText {s : Bytes} (h : epochText s = true) : (58 : UInt8) ∉ s := by
  intro hm
  obtain ⟨i, hi, he⟩ := List.getElem_of_mem hm
  have hp := List.all_eq_true.mp h (s[i], i) (by simp [List.mk_mem_zipIdx_iff_getElem?, hi])
  rw [he, colon_not_epochChar] at hp
  exact Bool.false_ne_true hp

theorem idxOf_append_colon {s t : Bytes} (h : (58 : UInt8) ∉ s) :
    (s ++ 58 :: t).idxOf 58 = s.length := by
  rw [List.idxOf_append_of_notMem h]
  simp

theorem parseCursor_wellFormed {epoch : Epoch} {s : Bytes} {n : Nat}
    (h : WellFormedCursor epoch s n) : parseCursor s = some (epoch.text, UInt64.ofNat n) := by
  obtain ⟨digits, rfl, hne, hall, hv, hlt⟩ := h
  have hcolon : ascii ":" = [58] := by decide
  have hi := idxOf_append_colon (t := digits) (colon_not_mem_epochText epoch.wellFormed)
  have hpos := List.length_pos_iff.mpr hne
  have hdrop : (epoch.text ++ 58 :: digits).drop 37 = digits := by
    rw [List.drop_append, epoch.size]
    simp [epoch.size]
  have htake : (epoch.text ++ 58 :: digits).take 36 = epoch.text := by
    rw [← epoch.size]
    simp
  rw [epoch.size] at hi
  simp only [parseCursor, hcolon, List.append_assoc, List.cons_append, List.nil_append, hi, hdrop,
    htake, epoch.wellFormed, List.length_append, List.length_cons, epoch.size]
  simp [fromChars, hne, hall, hv]
  omega

theorem parseCursor_sound {s e : Bytes} {n : UInt64} (h : parseCursor s = some (e, n)) :
    ∃ epoch : Epoch, e = epoch.text ∧ WellFormedCursor epoch s n.toNat := by
  simp only [parseCursor] at h
  split at h
  · cases h
  · rename_i hsep
    split at h
    · rename_i hepoch
      obtain ⟨k, hk, he⟩ := Option.map_eq_some_iff.mp h
      obtain ⟨rfl, rfl⟩ := Prod.mk.inj he
      have hi : s.idxOf 58 = 36 := by omega
      have hlen : 37 < s.length := by omega
      rw [hi] at hepoch hk ⊢
      have hsize : (s.take 36).length = 36 := by simp; omega
      refine ⟨⟨s.take 36, hsize, hepoch⟩, rfl, s.drop 37, ?_, ?_⟩
      · have hcolon : s[36] = 58 := by
          have hlt : s.idxOf 58 < s.length := by omega
          simpa [hi] using List.getElem_idxOf hlt
        have hs := List.take_append_drop 36 s
        rw [List.drop_eq_getElem_cons (by omega), hcolon] at hs
        simpa [show ascii ":" = [58] by decide] using hs.symm
      · unfold fromChars at hk
        split at hk
        · rename_i hd
          cases hk
          refine ⟨hd.1, hd.2.1, ?_, ?_⟩
          · rw [UInt64.toNat_ofNat_of_lt' hd.2.2]
          · exact UInt64.toNat_lt _
        · cases hk
    · cases h

theorem wellFormed_cursorText (epoch : Epoch) {n : Nat} (h : n < 2 ^ 64) :
    WellFormedCursor epoch (cursorText epoch n) n :=
  ⟨decimal n, rfl, decimal_ne_nil n, all_isDigit_decimal n, decimalValue_decimal n, h⟩

theorem WellFormedCursor.ne_nil {epoch : Epoch} {s : Bytes} {n : Nat}
    (h : WellFormedCursor epoch s n) : s ≠ [] := by
  obtain ⟨digits, rfl, _⟩ := h
  simp [show ascii ":" = [58] by decide]

theorem WellFormedCursor.unique {epoch epoch' : Epoch} {s : Bytes} {m n : Nat}
    (hm : WellFormedCursor epoch s m) (hn : WellFormedCursor epoch' s n) :
    epoch = epoch' ∧ m = n := by
  have hp := (parseCursor_wellFormed hm).symm.trans (parseCursor_wellFormed hn)
  obtain ⟨_, _, _, _, _, hmlt⟩ := hm
  obtain ⟨_, _, _, _, _, hnlt⟩ := hn
  simp only [Option.some.injEq, Prod.mk.injEq] at hp
  have hv := congrArg UInt64.toNat hp.2
  rw [UInt64.toNat_ofNat_of_lt' hmlt, UInt64.toNat_ofNat_of_lt' hnlt] at hv
  exact ⟨Epoch.ext hp.1, hv⟩

end HolderDaemon
