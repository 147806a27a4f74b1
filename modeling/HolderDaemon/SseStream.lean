import HolderDaemon.Bytes
import HolderDaemon.Machine

/-!
Server-sent event streams (`api/support/SseStream.cpp`): calls of `enqueue`, `finish` and
`cancel` from any thread, and the strand, which runs one handler at a time in the order of the
posts. The heartbeat and the polls are callers like any other. Completions of the write, of the
read and of the timers come in any order.
-/

set_option autoImplicit false

open Bytes

namespace HolderDaemon

namespace SseStream

def kMaxPendingBytes : Nat := 2 * 1024 * 1024

inductive Handler where
  | start
  | push (frame : Bytes)
  | finish
  | close
  deriving DecidableEq

/-- Why a stream is no longer open. -/
inductive Ended where
  | itself
  | cancelled
  | writeError
  | timeout
  | disconnected
  | peerData
  deriving DecidableEq

/-- `checked`, `accepted` and `rejected` hold the frames of the calls of `enqueue` that have read
`open_`, and whose addition fitted or did not; `posted`, `socket`, `completed`, `dropped`,
`beforeFinish`, `ended` and `failed` (a write ended with an error) record what has happened. -/
structure Stream where
  header : Bytes
  isOpen : Bool := true
  pendingBytes : Nat := 0
  headerDone : Bool := false
  writing : Bool := false
  finished : Bool := false
  queue : List Bytes := []
  strand : List Handler := []
  atWriteNext : Bool := false
  headerInFlight : Bool := false
  activated : Bool := false
  checked : List Bytes := []
  accepted : List Bytes := []
  rejected : List Bytes := []
  toCancel : Nat := 0
  toClose : Nat := 0
  posted : List Bytes := []
  socket : List Bytes := []
  completed : List Bytes := []
  dropped : List Bytes := []
  beforeFinish : Option Nat := none
  ended : Option Ended := none
  failed : Bool := false
  deriving DecidableEq

inductive Step where
  | activate
  | enqueue (frame : Bytes)
  | add (frame : Bytes)
  | post (frame : Bytes)
  | undo (frame : Bytes)
  | cancelRejected
  | finish
  | cancel
  | postClose
  | runHandler
  | writeNext
  | headerWritten (error : Bool)
  | frameWritten (error : Bool)
  | timeout
  | readSome (disconnected : Bool)

namespace Stream

/-- `open_.store(false)`. -/
def shut (s : Stream) (reason : Ended) : Stream :=
  { s with isOpen := false, ended := s.ended.or (some reason) }

/-- `write_next` on an open stream. -/
def writeOpen (s : Stream) : Stream :=
  if !s.headerDone ∨ s.writing then s
  else
    match s.queue with
    | [] => if s.finished then s.shut .itself else s
    | frame :: _ => { s with writing := true, socket := s.socket ++ [frame] }

def runHandler (s : Stream) (rest : List Handler) : Handler → Stream
  | .start =>
    if s.isOpen then
      { s with strand := rest, headerInFlight := true, socket := s.socket ++ [s.header] }
    else { s with strand := rest }
  | .push frame =>
    if s.isOpen then { s with strand := rest, queue := s.queue ++ [frame], atWriteNext := true }
    else
      { s with
        strand := rest
        pendingBytes := s.pendingBytes - frame.length
        dropped := s.dropped ++ [frame] }
  | .finish => { s with strand := rest, finished := true, atWriteNext := true }
  | .close => { s.shut .cancelled with strand := rest }

/-- A handler in progress goes on to `write_next`; no other runs before it has. -/
def step (s : Stream) : Step → Option Stream
  | .activate =>
    if s.activated then none
    else some { s with activated := true, strand := s.strand ++ [.start] }
  | .enqueue frame =>
    if s.isOpen then some { s with checked := frame :: s.checked } else some s
  | .add frame =>
    if frame ∉ s.checked then none
    else if kMaxPendingBytes < s.pendingBytes + frame.length then
      some { s with
        checked := s.checked.erase frame
        pendingBytes := s.pendingBytes + frame.length
        rejected := frame :: s.rejected }
    else
      some { s with
        checked := s.checked.erase frame
        pendingBytes := s.pendingBytes + frame.length
        accepted := frame :: s.accepted }
  | .post frame =>
    if frame ∉ s.accepted then none
    else
      some { s with
        accepted := s.accepted.erase frame
        strand := s.strand ++ [.push frame]
        posted := s.posted ++ [frame] }
  | .undo frame =>
    if frame ∉ s.rejected then none
    else
      some { s with
        rejected := s.rejected.erase frame
        pendingBytes := s.pendingBytes - frame.length
        toCancel := s.toCancel + 1 }
  | .cancelRejected =>
    if s.toCancel = 0 then none
    else some { s.shut .cancelled with toCancel := s.toCancel - 1, toClose := s.toClose + 1 }
  | .finish =>
    some { s with
      strand := s.strand ++ [.finish]
      beforeFinish := s.beforeFinish.or (some s.posted.length) }
  | .cancel => some { s.shut .cancelled with toClose := s.toClose + 1 }
  | .postClose =>
    if s.toClose = 0 then none
    else some { s with toClose := s.toClose - 1, strand := s.strand ++ [.close] }
  | .runHandler =>
    match s.atWriteNext, s.strand with
    | false, handler :: rest => some (s.runHandler rest handler)
    | _, _ => none
  | .writeNext =>
    if !s.atWriteNext then none
    else if s.isOpen then some { s.writeOpen with atWriteNext := false }
    else some { s with atWriteNext := false }
  | .headerWritten error =>
    if !s.headerInFlight ∨ s.atWriteNext then none
    else if error then
      some { s.shut .writeError with headerInFlight := false, failed := true }
    else if s.isOpen then
      some { s with headerInFlight := false, headerDone := true, atWriteNext := true }
    else some { s with headerInFlight := false }
  | .frameWritten error =>
    if !s.writing ∨ s.atWriteNext then none
    else
      match s.queue with
      | [] => none
      | frame :: rest =>
        let t := { s with
          writing := false
          pendingBytes := s.pendingBytes - frame.length
          queue := rest
          completed := s.completed ++ [frame] }
        some (if error then { t.shut .writeError with failed := true }
          else { t with atWriteNext := true })
  | .timeout => if s.socket = [] ∨ s.atWriteNext then none else some (s.shut .timeout)
  | .readSome disconnected =>
    if s.socket = [] ∨ s.atWriteNext then none
    else some (s.shut (if disconnected then .disconnected else .peerData))

end Stream

/-! The discipline of the queue -/

def size (frames : List Bytes) : Nat := (frames.map List.length).sum

@[simp] theorem size_nil : size [] = 0 := rfl

@[simp] theorem size_cons (frame : Bytes) (frames : List Bytes) :
    size (frame :: frames) = frame.length + size frames := by
  simp [size]

@[simp] theorem size_append (xs ys : List Bytes) : size (xs ++ ys) = size xs + size ys := by
  simp [size]

theorem size_erase {frame : Bytes} {frames : List Bytes} (h : frame ∈ frames) :
    frame.length + size (frames.erase frame) = size frames := by
  rw [← size_cons]
  exact ((List.perm_cons_erase h).map List.length).sum_eq.symm

/-- The frames whose handlers are on the strand, in order. -/
def pushes (strand : List Handler) : List Bytes :=
  strand.filterMap fun
    | .push frame => some frame
    | _ => none

@[simp] theorem pushes_nil : pushes [] = [] := rfl

@[simp] theorem pushes_append (hs ks : List Handler) : pushes (hs ++ ks) = pushes hs ++ pushes ks :=
  List.filterMap_append

@[simp] theorem pushes_push (frame : Bytes) (hs : List Handler) :
    pushes (.push frame :: hs) = frame :: pushes hs := rfl

@[simp] theorem pushes_start (hs : List Handler) : pushes (.start :: hs) = pushes hs := rfl

@[simp] theorem pushes_finish (hs : List Handler) : pushes (.finish :: hs) = pushes hs := rfl

@[simp] theorem pushes_close (hs : List Handler) : pushes (.close :: hs) = pushes hs := rfl

namespace Stream

/-- The accepted frames whose write has not completed. -/
def outstanding (s : Stream) : Nat := size s.accepted + size (pushes s.strand) + size s.queue

/-- The frame in flight. -/
def frameInFlight (s : Stream) : List Bytes := if s.writing then s.queue.take 1 else []

def writesInFlight (s : Stream) : Nat :=
  (if s.headerInFlight then 1 else 0) + (if s.writing then 1 else 0)

/-- The frames that have left the strand. -/
def handled (s : Stream) : Nat := s.completed.length + s.queue.length + s.dropped.length

end Stream

/-- The frames posted before the first `finish` have left the strand when its handler has run,
and are ahead of that handler until then. -/
def FinishPlaced (beforeFinish : Option Nat) (finished : Bool) (strand : List Handler)
    (handled : Nat) : Prop :=
  match beforeFinish, finished with
  | none, finished => .finish ∉ strand ∧ finished = false
  | some n, true => n ≤ handled
  | some n, false => ∃ pre post, strand = pre ++ .finish :: post ∧ .finish ∉ pre ∧
      n ≤ handled + (pushes pre).length

section FinishPlaced
variable {beforeFinish : Option Nat} {finished : Bool} {handled : Nat}

theorem FinishPlaced.append {strand : List Handler} {handler : Handler}
    (h : FinishPlaced beforeFinish finished strand handled) (hne : handler ≠ .finish) :
    FinishPlaced beforeFinish finished (strand ++ [handler]) handled := by
  match beforeFinish, finished, h with
  | none, _, h => exact ⟨by simpa [hne.symm] using h.1, h.2⟩
  | some _, true, h => exact h
  | some _, false, ⟨pre, post, hstrand, hpre, hle⟩ =>
    exact ⟨pre, post ++ [handler], by simp [hstrand], hpre, hle⟩

theorem FinishPlaced.finish {strand : List Handler} {posted : Nat}
    (h : FinishPlaced beforeFinish finished strand handled)
    (hposted : posted ≤ handled + (pushes strand).length) :
    FinishPlaced (beforeFinish.or (some posted)) finished (strand ++ [.finish]) handled := by
  match beforeFinish, finished, h with
  | none, false, h => exact ⟨strand, [], rfl, h.1, hposted⟩
  | some _, true, h => exact h
  | some _, false, ⟨pre, post, hstrand, hpre, hle⟩ =>
    exact ⟨pre, post ++ [.finish], by simp [hstrand], hpre, hle⟩

/-- A handler other than `finish` leaves the strand. -/
theorem FinishPlaced.pop {handler : Handler} {rest : List Handler} {handled' : Nat}
    (h : FinishPlaced beforeFinish finished (handler :: rest) handled) (hne : handler ≠ .finish)
    (hhandled : handled + (pushes [handler]).length ≤ handled') :
    FinishPlaced beforeFinish finished rest handled' := by
  match beforeFinish, finished, h with
  | none, _, h => exact ⟨fun hmem => h.1 (List.mem_cons_of_mem _ hmem), h.2⟩
  | some _, true, h => exact le_trans h (le_trans (Nat.le_add_right _ _) hhandled)
  | some _, false, ⟨[], post, hstrand, hpre, hle⟩ =>
    cases hstrand
    exact absurd rfl hne
  | some _, false, ⟨first :: pre, post, hstrand, hpre, hle⟩ =>
    cases hstrand
    refine ⟨pre, post, rfl, fun hmem => hpre (List.mem_cons_of_mem _ hmem), le_trans hle ?_⟩
    have hsplit : (pushes (handler :: pre)).length =
        (pushes [handler]).length + (pushes pre).length := by
      rw [← List.singleton_append, pushes_append, List.length_append]
    omega

theorem FinishPlaced.popFinish {rest : List Handler}
    (h : FinishPlaced beforeFinish finished (.finish :: rest) handled) :
    FinishPlaced beforeFinish true rest handled := by
  match beforeFinish, finished, h with
  | none, _, h => exact absurd List.mem_cons_self h.1
  | some _, true, h => exact h
  | some n, false, ⟨[], post, hstrand, hpre, hle⟩ =>
    show n ≤ handled
    simpa using hle
  | some _, false, ⟨first :: pre, post, hstrand, hpre, hle⟩ =>
    cases hstrand
    exact absurd List.mem_cons_self hpre

theorem FinishPlaced.mono {strand : List Handler} {handled' : Nat}
    (h : FinishPlaced beforeFinish finished strand handled) (hhandled : handled ≤ handled') :
    FinishPlaced beforeFinish finished strand handled' := by
  match beforeFinish, finished, h with
  | none, _, h => exact h
  | some _, true, h => exact le_trans h hhandled
  | some _, false, ⟨pre, post, hstrand, hpre, hle⟩ =>
    exact ⟨pre, post, hstrand, hpre, le_trans hle (Nat.add_le_add_right hhandled _)⟩

end FinishPlaced

structure Disciplined (s : Stream) : Prop where
  order : s.posted = s.completed ++ s.queue ++ s.dropped ++ pushes s.strand
  kept : s.isOpen = true → s.dropped = []
  onSocket : (s.socket = [] ∧ s.completed = [] ∧ s.headerInFlight = false ∧ s.headerDone = false) ∨
    (s.socket = s.header :: (s.completed ++ s.frameInFlight) ∧ .start ∉ s.strand)
  starts : s.strand.count .start ≤ 1
  activated : s.activated = false → .start ∉ s.strand ∧ s.socket = []
  writing : s.writing = true → s.headerDone = true ∧ s.queue ≠ []
  headerFirst : s.headerInFlight = true → s.headerDone = false
  accounting : s.pendingBytes = s.outstanding + size s.rejected
  bounded : s.outstanding ≤ kMaxPendingBytes
  reason : s.isOpen = true ↔ s.ended = none
  finishing : FinishPlaced s.beforeFinish s.finished s.strand s.handled
  itself : s.ended = some .itself → s.queue = [] ∧ s.headerDone = true ∧
    ∃ n, s.beforeFinish = some n ∧ n ≤ s.completed.length
  failed : s.failed = true → s.isOpen = false ∧ s.ended ≠ some .itself

namespace Disciplined

/-- A stream as it is constructed. -/
theorem start (header : Bytes) : Disciplined { header } where
  order := rfl
  kept := fun _ => rfl
  onSocket := .inl ⟨rfl, rfl, rfl, rfl⟩
  starts := Nat.zero_le _
  activated := fun _ => ⟨by simp, rfl⟩
  writing := fun h => by cases h
  headerFirst := fun h => by cases h
  accounting := rfl
  bounded := Nat.zero_le _
  reason := by simp
  finishing := ⟨by simp, rfl⟩
  itself := fun h => by cases h
  failed := fun h => by cases h

theorem ended_shut {s : Stream} {reason : Ended} (hr : reason ≠ .itself)
    (h : s.ended ≠ some .itself) : (s.shut reason).ended ≠ some .itself := by
  cases hs : s.ended with
  | none => simpa [Stream.shut, hs] using hr
  | some other =>
    rw [hs] at h
    simpa [Stream.shut, hs] using h

/-- The stream is closed, for another reason than its own. -/
theorem shut {s : Stream} (h : Disciplined s) {reason : Ended} (hr : reason ≠ .itself) :
    Disciplined (s.shut reason) :=
  { h with
    kept := fun ho => by cases ho
    reason := by cases he : s.ended <;> simp [Stream.shut, he]
    itself := fun he => h.itself (by
      cases hs : s.ended with
      | none =>
        simp only [Stream.shut, hs, Option.none_or, Option.some.injEq] at he
        exact absurd he hr
      | some other => simpa [Stream.shut, hs] using he)
    failed := fun hf => by
      exact ⟨rfl, ended_shut hr (h.failed hf).2⟩ }

/-- A write has ended with an error. -/
theorem fail {s : Stream} (h : Disciplined s) (hclosed : s.isOpen = false)
    (hnot : s.ended ≠ some .itself) : Disciplined { s with failed := true } :=
  { h with failed := fun _ => ⟨hclosed, hnot⟩ }

theorem posted_length {s : Stream} (h : Disciplined s) :
    s.posted.length = s.handled + (pushes s.strand).length := by
  simp only [h.order, Stream.handled, List.length_append]

/-- A handler without a frame goes to the end of the strand. -/
theorem append {s : Stream} (h : Disciplined s) {handler : Handler} (hstart : handler ≠ .start)
    (hfinish : handler ≠ .finish) (hpush : pushes [handler] = []) :
    Disciplined { s with strand := s.strand ++ [handler] } :=
  { h with
    order := by simp [hpush, h.order]
    onSocket := by simpa [hstart.symm, Stream.frameInFlight] using h.onSocket
    starts := by simpa [List.count_singleton, hstart] using h.starts
    activated := by simpa [hstart.symm] using h.activated
    accounting := by simpa [Stream.outstanding, hpush] using h.accounting
    bounded := by simpa [Stream.outstanding, hpush] using h.bounded
    finishing := h.finishing.append hfinish }

theorem activate {s : Stream} (h : Disciplined s) (hact : s.activated = false) :
    Disciplined { s with activated := true, strand := s.strand ++ [.start] } := by
  obtain ⟨hfresh, hsocket⟩ := h.activated hact
  exact { h with
    order := by simp [h.order]
    onSocket := by
      rcases h.onSocket with hnone | ⟨hsome, _⟩
      · exact .inl hnone
      · rw [hsocket] at hsome
        cases hsome
    starts := by simp [List.count_eq_zero_of_not_mem hfresh]
    activated := fun hf => by cases hf
    accounting := by simpa [Stream.outstanding] using h.accounting
    bounded := by simpa [Stream.outstanding] using h.bounded
    finishing := h.finishing.append (by simp) }

theorem finish {s : Stream} (h : Disciplined s) :
    Disciplined { s with
      strand := s.strand ++ [.finish]
      beforeFinish := s.beforeFinish.or (some s.posted.length) } :=
  { h with
    order := by simp [h.order]
    onSocket := by simpa [Stream.frameInFlight] using h.onSocket
    starts := by simpa [List.count_singleton] using h.starts
    activated := by simpa using h.activated
    accounting := by simpa [Stream.outstanding] using h.accounting
    bounded := by simpa [Stream.outstanding] using h.bounded
    finishing := h.finishing.finish h.posted_length.le
    itself := fun he => by
      obtain ⟨hqueue, hdone, n, hn, hle⟩ := h.itself he
      exact ⟨hqueue, hdone, n, by simp [hn], hle⟩ }

theorem post {s : Stream} (h : Disciplined s) {frame : Bytes} (hmem : frame ∈ s.accepted) :
    Disciplined { s with
      accepted := s.accepted.erase frame
      strand := s.strand ++ [.push frame]
      posted := s.posted ++ [frame] } := by
  have hsize := size_erase hmem
  exact { h with
    order := by simp [h.order]
    onSocket := by simpa [Stream.frameInFlight] using h.onSocket
    starts := by simpa [List.count_singleton] using h.starts
    activated := by simpa using h.activated
    accounting := by
      have hacc := h.accounting
      simp only [Stream.outstanding, pushes_append, size_append, pushes_push, pushes_nil,
        size_cons, size_nil] at hacc ⊢
      omega
    bounded := by
      have hle := h.bounded
      simp only [Stream.outstanding, pushes_append, size_append, pushes_push, pushes_nil,
        size_cons, size_nil] at hle ⊢
      omega
    finishing := h.finishing.append (by simp) }

theorem add {s : Stream} (h : Disciplined s) {frame : Bytes} {checked : List Bytes}
    (hfits : s.pendingBytes + frame.length ≤ kMaxPendingBytes) :
    Disciplined { s with
      checked
      pendingBytes := s.pendingBytes + frame.length
      accepted := frame :: s.accepted } := by
  have hacc := h.accounting
  exact { h with
    accounting := by
      simp only [Stream.outstanding, size_cons] at hacc ⊢
      omega
    bounded := by
      simp only [Stream.outstanding, size_cons] at hacc ⊢
      omega }

theorem reject {s : Stream} (h : Disciplined s) {frame : Bytes} {checked : List Bytes} :
    Disciplined { s with
      checked
      pendingBytes := s.pendingBytes + frame.length
      rejected := frame :: s.rejected } :=
  { h with
    accounting := by
      have hacc := h.accounting
      simp only [Stream.outstanding, size_cons] at hacc ⊢
      omega }

theorem undo {s : Stream} (h : Disciplined s) {frame : Bytes} {toCancel : Nat}
    (hmem : frame ∈ s.rejected) :
    Disciplined { s with
      rejected := s.rejected.erase frame
      pendingBytes := s.pendingBytes - frame.length
      toCancel } :=
  { h with
    accounting := by
      have hacc := h.accounting
      have hsize := size_erase hmem
      simp only [Stream.outstanding] at hacc ⊢
      omega }

/-! What is left on the strand when its first handler runs -/

theorem starts_rest {s : Stream} (h : Disciplined s) {handler : Handler} {rest : List Handler}
    (hstrand : s.strand = handler :: rest) : rest.count .start ≤ 1 := by
  have hle := h.starts
  rw [hstrand] at hle
  exact le_trans (List.count_le_count_cons ..) hle

theorem onSocket_rest {s : Stream} (h : Disciplined s) {handler : Handler} {rest : List Handler}
    (hstrand : s.strand = handler :: rest) :
    (s.socket = [] ∧ s.completed = [] ∧ s.headerInFlight = false ∧ s.headerDone = false) ∨
      (s.socket = s.header :: (s.completed ++ s.frameInFlight) ∧ .start ∉ rest) := by
  refine h.onSocket.imp_right fun hs => ⟨hs.1, fun hm => hs.2 ?_⟩
  rw [hstrand]
  exact List.mem_cons_of_mem _ hm

theorem activated_rest {s : Stream} (h : Disciplined s) {handler : Handler} {rest : List Handler}
    (hstrand : s.strand = handler :: rest) (hf : s.activated = false) :
    .start ∉ rest ∧ s.socket = [] := by
  refine ⟨fun hm => (h.activated hf).1 ?_, (h.activated hf).2⟩
  rw [hstrand]
  exact List.mem_cons_of_mem _ hm

theorem finishing_cons {s : Stream} (h : Disciplined s) {handler : Handler} {rest : List Handler}
    (hstrand : s.strand = handler :: rest) :
    FinishPlaced s.beforeFinish s.finished (handler :: rest) s.handled := by
  rw [← hstrand]
  exact h.finishing

/-- A handler without a frame leaves the strand. -/
theorem pop {s : Stream} (h : Disciplined s) {handler : Handler} {rest : List Handler}
    (hstrand : s.strand = handler :: rest) (hpush : pushes [handler] = [])
    (hfinish : handler ≠ .finish) : Disciplined { s with strand := rest } := by
  have hall : pushes s.strand = pushes rest := by
    rw [hstrand, ← List.singleton_append, pushes_append, hpush, List.nil_append]
  exact { h with
    order := by rw [h.order, hall]
    onSocket := h.onSocket_rest hstrand
    starts := h.starts_rest hstrand
    activated := h.activated_rest hstrand
    accounting := by simpa [Stream.outstanding, hall] using h.accounting
    bounded := by simpa [Stream.outstanding, hall] using h.bounded
    finishing := (h.finishing_cons hstrand).pop hfinish (by simp [hpush, Stream.handled]) }

theorem runStart {s : Stream} (h : Disciplined s) {rest : List Handler}
    (hstrand : s.strand = .start :: rest) :
    Disciplined { s with
      strand := rest, headerInFlight := true, socket := s.socket ++ [s.header] } := by
  have hpop := h.pop hstrand rfl (by simp)
  have hmem : Handler.start ∈ s.strand := by
    rw [hstrand]
    exact List.mem_cons_self
  have hact : s.activated = true := by
    by_contra hf
    rw [Bool.not_eq_true] at hf
    exact (h.activated hf).1 hmem
  have honce := h.starts
  rw [hstrand, List.count_cons_self] at honce
  have hnone : Handler.start ∉ rest := List.count_eq_zero.mp (by omega)
  rcases h.onSocket with ⟨hsocket, hcompleted, -, hdone⟩ | ⟨-, hnot⟩
  · have hwriting : s.writing = false := by
      by_contra hw
      rw [Bool.not_eq_false] at hw
      rw [(h.writing hw).1] at hdone
      cases hdone
    exact { hpop with
      onSocket := by
        refine .inr ⟨?_, hnone⟩
        simp [hsocket, hcompleted, Stream.frameInFlight, hwriting]
      activated := fun hf => by
        rw [hact] at hf
        cases hf
      headerFirst := fun _ => hdone }
  · exact absurd hmem hnot

theorem runPush {s : Stream} (h : Disciplined s) {frame : Bytes} {rest : List Handler}
    {atWriteNext : Bool} (hstrand : s.strand = .push frame :: rest) (hopen : s.isOpen = true) :
    Disciplined { s with strand := rest, queue := s.queue ++ [frame], atWriteNext } := by
  have hdropped := h.kept hopen
  have horder := h.order
  have haccounting := h.accounting
  have hbounded := h.bounded
  simp only [Stream.outstanding] at haccounting hbounded
  rw [hstrand] at horder haccounting hbounded
  rw [pushes_push, size_cons] at haccounting hbounded
  exact { h with
    order := by simpa [hdropped] using horder
    onSocket := by
      refine (h.onSocket_rest hstrand).imp_right fun hs => ⟨?_, hs.2⟩
      rw [hs.1]
      unfold Stream.frameInFlight
      dsimp only
      split
      · rename_i hw
        rw [List.take_append_of_le_length]
        exact List.length_pos_iff.mpr (h.writing hw).2
      · rfl
    starts := h.starts_rest hstrand
    activated := h.activated_rest hstrand
    writing := fun hw => ⟨(h.writing hw).1, by simp⟩
    accounting := by
      simp only [Stream.outstanding, size_append, size_cons, size_nil]
      omega
    bounded := by
      simp only [Stream.outstanding, size_append, size_cons, size_nil]
      omega
    finishing := by
      refine (h.finishing_cons hstrand).pop (by simp) ?_
      simp only [Stream.handled, pushes_push, pushes_nil, List.length_append, List.length_cons,
        List.length_nil]
      omega
    itself := fun he => by
      rw [h.reason.mp hopen] at he
      cases he }

theorem runDrop {s : Stream} (h : Disciplined s) {frame : Bytes} {rest : List Handler}
    (hstrand : s.strand = .push frame :: rest) (hopen : s.isOpen = false) :
    Disciplined { s with
      strand := rest
      pendingBytes := s.pendingBytes - frame.length
      dropped := s.dropped ++ [frame] } := by
  have horder := h.order
  have haccounting := h.accounting
  have hbounded := h.bounded
  simp only [Stream.outstanding] at haccounting hbounded
  rw [hstrand] at horder haccounting hbounded
  rw [pushes_push, size_cons] at haccounting hbounded
  exact { h with
    order := by simpa using horder
    kept := fun ho => by
      rw [hopen] at ho
      cases ho
    onSocket := h.onSocket_rest hstrand
    starts := h.starts_rest hstrand
    activated := h.activated_rest hstrand
    accounting := by
      simp only [Stream.outstanding]
      omega
    bounded := by
      simp only [Stream.outstanding]
      omega
    finishing := by
      refine (h.finishing_cons hstrand).pop (by simp) ?_
      simp only [Stream.handled, pushes_push, pushes_nil, List.length_append, List.length_cons,
        List.length_nil]
      omega }

theorem runFinish {s : Stream} (h : Disciplined s) {rest : List Handler} {atWriteNext : Bool}
    (hstrand : s.strand = .finish :: rest) :
    Disciplined { s with strand := rest, finished := true, atWriteNext } := by
  have horder := h.order
  have haccounting := h.accounting
  have hbounded := h.bounded
  simp only [Stream.outstanding] at haccounting hbounded
  rw [hstrand] at horder haccounting hbounded
  exact { h with
    order := by simpa using horder
    onSocket := h.onSocket_rest hstrand
    starts := h.starts_rest hstrand
    activated := h.activated_rest hstrand
    accounting := by simpa [Stream.outstanding] using haccounting
    bounded := by simpa [Stream.outstanding] using hbounded
    finishing := (h.finishing_cons hstrand).popFinish }

theorem runHandler {s : Stream} (h : Disciplined s) {handler : Handler} {rest : List Handler}
    (hstrand : s.strand = handler :: rest) : Disciplined (s.runHandler rest handler) := by
  cases handler with
  | start =>
    simp only [Stream.runHandler]
    split
    · exact h.runStart hstrand
    · exact h.pop hstrand rfl (by simp)
  | push frame =>
    simp only [Stream.runHandler]
    split
    · rename_i hopen
      exact h.runPush hstrand hopen
    · rename_i hopen
      exact h.runDrop hstrand (Bool.not_eq_true _ ▸ hopen)
  | finish => exact h.runFinish hstrand
  | close => exact (h.pop hstrand rfl (by simp)).shut (by simp)

/-- Nothing is left on the queue of a finished stream: it closes itself. -/
theorem closeFinished {s : Stream} (h : Disciplined s) (hopen : s.isOpen = true)
    (hdone : s.headerDone = true) (hqueue : s.queue = []) (hfinished : s.finished = true) :
    Disciplined (s.shut .itself) := by
  have hended := h.reason.mp hopen
  have hplaced := h.finishing
  exact { h with
    kept := fun ho => by cases ho
    reason := by simp [Stream.shut, hended]
    itself := fun _ => by
      refine ⟨hqueue, hdone, ?_⟩
      rw [hfinished] at hplaced
      match hbefore : s.beforeFinish, hplaced with
      | none, hplaced => cases hplaced.2
      | some n, hplaced =>
        refine ⟨n, rfl, le_trans hplaced ?_⟩
        simp [Stream.handled, hqueue, h.kept hopen, Stream.shut]
    failed := fun hf => by
      rw [(h.failed hf).1] at hopen
      cases hopen }

theorem writeOpen {s : Stream} (h : Disciplined s) (hopen : s.isOpen = true) :
    Disciplined s.writeOpen := by
  unfold Stream.writeOpen
  split
  · exact h
  · rename_i hidle
    simp only [not_or, Bool.not_eq_true, Bool.not_eq_false'] at hidle
    obtain ⟨hdone, hwriting⟩ := hidle
    split
    · rename_i hqueue
      split
      · rename_i hfinished
        exact h.closeFinished hopen hdone hqueue hfinished
      · exact h
    · rename_i frame rest hqueue
      obtain ⟨hsocket, hstart⟩ := h.onSocket.resolve_left fun hnone => by
        rw [hdone] at hnone
        cases hnone.2.2.2
      exact { h with
        onSocket := by
          refine .inr ⟨?_, hstart⟩
          simp [hsocket, Stream.frameInFlight, hwriting, hqueue]
        activated := fun hf => by
          rw [(h.activated hf).2] at hsocket
          cases hsocket
        writing := fun _ => ⟨hdone, by simp [hqueue]⟩ }

theorem frameWritten {s : Stream} (h : Disciplined s) {frame : Bytes} {rest : List Bytes}
    (hwriting : s.writing = true) (hqueue : s.queue = frame :: rest) :
    Disciplined { s with
      writing := false
      pendingBytes := s.pendingBytes - frame.length
      queue := rest
      completed := s.completed ++ [frame] } := by
  have hacc := h.accounting
  have hle := h.bounded
  simp only [Stream.outstanding, hqueue, size_cons] at hacc hle
  exact { h with
    order := by simp [h.order, hqueue]
    onSocket := by
      rcases h.onSocket with ⟨-, -, -, hnot⟩ | ⟨hsocket, hstart⟩
      · rw [(h.writing hwriting).1] at hnot
        cases hnot
      · refine .inr ⟨?_, hstart⟩
        simp [hsocket, Stream.frameInFlight, hwriting, hqueue]
    writing := fun hw => by cases hw
    accounting := by
      simp only [Stream.outstanding]
      omega
    bounded := by
      simp only [Stream.outstanding]
      omega
    finishing := h.finishing.mono (by
      simp only [Stream.handled, hqueue, List.length_append, List.length_cons, List.length_nil]
      omega)
    itself := fun he => by
      rw [(h.itself he).1] at hqueue
      cases hqueue }

theorem headerDone {s : Stream} (h : Disciplined s) {atWriteNext : Bool}
    (hflight : s.headerInFlight = true) (hopen : s.isOpen = true) :
    Disciplined { s with headerInFlight := false, headerDone := true, atWriteNext } := by
  have hnot := h.headerFirst hflight
  exact { h with
    onSocket := by
      rcases h.onSocket with ⟨-, -, hnone, -⟩ | hsocket
      · rw [hflight] at hnone
        cases hnone
      · exact .inr hsocket
    writing := fun hw => ⟨rfl, (h.writing hw).2⟩
    headerFirst := fun hf => by cases hf
    itself := fun he => by
      rw [h.reason.mp hopen] at he
      cases he }

theorem headerEnded {s : Stream} (h : Disciplined s) :
    Disciplined { s with headerInFlight := false } :=
  { h with
    onSocket := h.onSocket.imp_left fun hs => ⟨hs.1, hs.2.1, rfl, hs.2.2.2⟩
    headerFirst := fun hf => by cases hf }

theorem step {s s' : Stream} {l : Step} (h : Disciplined s) (hstep : s.step l = some s') :
    Disciplined s' := by
  cases l with
  | activate =>
    simp only [Stream.step] at hstep
    split at hstep <;> cases hstep
    rename_i hact
    exact h.activate (Bool.not_eq_true _ ▸ hact)
  | enqueue frame =>
    simp only [Stream.step] at hstep
    split at hstep <;> cases hstep
    · exact { h with }
    · exact h
  | add frame =>
    simp only [Stream.step] at hstep
    split at hstep
    · cases hstep
    · split at hstep <;> cases hstep
      · exact h.reject
      · rename_i hfits
        exact h.add (Nat.not_lt.mp hfits)
  | post frame =>
    simp only [Stream.step] at hstep
    split at hstep <;> cases hstep
    rename_i hmem
    exact h.post (not_not.mp hmem)
  | undo frame =>
    simp only [Stream.step] at hstep
    split at hstep <;> cases hstep
    rename_i hmem
    exact h.undo (not_not.mp hmem)
  | cancelRejected =>
    simp only [Stream.step] at hstep
    split at hstep <;> cases hstep
    have hshut : Disciplined (s.shut .cancelled) := h.shut (by simp)
    exact { hshut with }
  | finish =>
    cases hstep
    exact h.finish
  | cancel =>
    cases hstep
    have hshut : Disciplined (s.shut .cancelled) := h.shut (by simp)
    exact { hshut with }
  | postClose =>
    simp only [Stream.step] at hstep
    split at hstep <;> cases hstep
    have hclose : Disciplined { s with strand := s.strand ++ [.close] } :=
      h.append (by simp) (by simp) rfl
    exact { hclose with }
  | runHandler =>
    simp only [Stream.step] at hstep
    split at hstep <;> cases hstep
    rename_i hstrand
    exact h.runHandler hstrand
  | writeNext =>
    simp only [Stream.step] at hstep
    split at hstep
    · cases hstep
    · split at hstep <;> cases hstep
      · rename_i hopen
        exact { h.writeOpen hopen with }
      · exact { h with }
  | headerWritten error =>
    simp only [Stream.step] at hstep
    split at hstep
    · cases hstep
    · rename_i hidle
      simp only [not_or, Bool.not_eq_true, Bool.not_eq_false'] at hidle
      split at hstep
      · cases hstep
        refine ((h.shut (by simp)).fail rfl (ended_shut (by simp) fun he => ?_)).headerEnded
        have hdone := (h.itself he).2.1
        rw [h.headerFirst hidle.1] at hdone
        cases hdone
      · split at hstep <;> cases hstep
        · rename_i hopen
          exact h.headerDone hidle.1 hopen
        · exact h.headerEnded
  | frameWritten error =>
    simp only [Stream.step] at hstep
    split at hstep
    · cases hstep
    · rename_i hidle
      simp only [not_or, Bool.not_eq_true, Bool.not_eq_false'] at hidle
      split at hstep
      · cases hstep
      · rename_i frame rest hqueue
        have hwritten := h.frameWritten hidle.1 hqueue
        cases hstep
        split
        · refine (hwritten.shut (by simp)).fail rfl (ended_shut (by simp) fun he => ?_)
          rw [(h.itself he).1] at hqueue
          cases hqueue
        · exact { hwritten with }
  | timeout =>
    simp only [Stream.step] at hstep
    split at hstep <;> cases hstep
    exact h.shut (by simp)
  | readSome disconnected =>
    simp only [Stream.step] at hstep
    split at hstep <;> cases hstep
    refine h.shut ?_
    split <;> simp

theorem run {header : Bytes} {ls : List Step} {s : Stream}
    (hrun : Machine.run Stream.step { header } ls = some s) : Disciplined s :=
  Machine.run_invariant Stream.step (fun _ _ _ h hs => h.step hs) (.start header) hrun

end Disciplined

/-- The bytes on the socket are the header and then a prefix of the posted frames, one write is in
flight at most, the bytes are accounted for and bounded, and a stream that closes itself has
written every frame that was posted before the first `finish` was. -/
theorem queue_discipline {header : Bytes} {ls : List Step} {s : Stream}
    (hrun : Machine.run Stream.step { header } ls = some s) :
    (s.socket = [] ∨ ∃ k, s.socket = s.header :: s.posted.take k) ∧
      s.writesInFlight ≤ 1 ∧
      s.pendingBytes = s.outstanding + size s.rejected ∧
      s.outstanding ≤ kMaxPendingBytes ∧
      (s.isOpen = false ↔ s.ended ≠ none) ∧
      (s.ended = some .itself → s.failed = false ∧
        ∃ n, s.beforeFinish = some n ∧ s.posted.take n <+: s.completed) := by
  have h : Disciplined s := .run hrun
  refine ⟨?_, ?_, h.accounting, h.bounded, ?_, fun he => ?_⟩
  · rcases h.onSocket with hnone | ⟨hsocket, -⟩
    · exact .inl hnone.1
    · refine .inr ⟨(s.completed ++ s.frameInFlight).length, ?_⟩
      have hfront : s.completed ++ s.frameInFlight <+: s.posted := by
        rw [h.order, List.append_assoc, List.append_assoc, List.prefix_append_right_inj]
        unfold Stream.frameInFlight
        split
        · exact (List.take_prefix 1 s.queue).trans (List.prefix_append _ _)
        · exact List.nil_prefix
      rw [hsocket, ← List.prefix_iff_eq_take.mp hfront]
  · have hone : s.headerInFlight = true → s.writing = false := by
      intro hflight
      by_contra hw
      rw [Bool.not_eq_false] at hw
      have hdone := (h.writing hw).1
      rw [h.headerFirst hflight] at hdone
      cases hdone
    unfold Stream.writesInFlight
    split
    · rename_i hflight
      simp [hone hflight]
    · split <;> simp
  · rw [← Bool.not_eq_true, h.reason]
  · obtain ⟨-, -, n, hn, hle⟩ := h.itself he
    refine ⟨?_, n, hn, ?_⟩
    · by_contra hf
      rw [Bool.not_eq_false] at hf
      exact (h.failed hf).2 he
    · rw [h.order, List.append_assoc, List.append_assoc, List.take_append_of_le_length hle]
      exact List.take_prefix n s.completed

/-! A frame that was accepted and not yet posted, and a peer that sends a byte -/

def keepalive : Bytes := ascii ": keepalive\n\n"

/-- A frame is accepted, and `finish` is posted before its handler; a frame is posted before
`finish`, and the peer sends a byte. Neither is written. -/
theorem finish_overtakes_frame :
    (∃ s t : Stream,
      Machine.run Stream.step { header := ascii "H" }
        [.activate, .runHandler, .headerWritten false, .writeNext, .enqueue keepalive,
          .add keepalive] = some s ∧
      keepalive ∈ s.accepted ∧ s.beforeFinish = none ∧
      Machine.run Stream.step s [.finish, .post keepalive, .runHandler, .writeNext, .runHandler] =
        some t ∧
      t.ended = some .itself ∧ t.failed = false ∧ t.socket = [ascii "H"]) ∧
    ∃ t : Stream,
      Machine.run Stream.step { header := ascii "H" }
        [.activate, .runHandler, .enqueue keepalive, .add keepalive, .post keepalive, .finish,
          .readSome false, .runHandler, .runHandler, .writeNext] = some t ∧
      t.ended = some .peerData ∧ t.beforeFinish = some 1 ∧ t.socket = [ascii "H"] := by
  refine ⟨⟨_, _, rfl, by decide, rfl, rfl, rfl, rfl, rfl⟩, ⟨_, rfl, rfl, rfl, rfl⟩⟩

/-- Two frames, `finish`, and the stream closes itself. -/
def twoFrames : List Step :=
  [.activate, .enqueue keepalive, .add keepalive, .post keepalive, .runHandler, .runHandler,
    .writeNext, .enqueue (ascii "e"), .add (ascii "e"), .headerWritten false, .writeNext,
    .post (ascii "e"), .finish, .frameWritten false, .writeNext, .runHandler, .writeNext,
    .runHandler, .writeNext, .frameWritten false, .writeNext]

theorem queue_discipline_two :
    ∃ s, Machine.run Stream.step { header := ascii "H" } twoFrames = some s ∧
      s.ended = some .itself ∧ s.socket = [ascii "H", keepalive, ascii "e"] ∧
      ∃ n, s.beforeFinish = some n ∧ s.posted.take n <+: s.completed := by
  obtain ⟨s, hrun, htest⟩ := Machine.run_of_any Stream.step { header := ascii "H" } twoFrames
    (fun s => decide (s.ended = some .itself ∧ s.socket = [ascii "H", keepalive, ascii "e"]))
    (by decide +kernel)
  obtain ⟨hended, hsocket⟩ := of_decide_eq_true htest
  exact ⟨s, hrun, hended, hsocket, ((queue_discipline hrun).2.2.2.2.2 hended).2⟩

end SseStream

end HolderDaemon
