import HolderDaemon.ThreadRequests
import HolderDaemon.Utf8Cuts

/-!
Compaction of a thread's context (`api/support/ThreadCompaction.cpp`, and `compact_context_tail`
of `api/support/CloudClient.cpp`): the rolling summary and the pinned facts of a thread, and the
context of a request that is made out of them within a budget.
-/

set_option autoImplicit false

open Bytes

namespace HolderDaemon

namespace Compaction

open AiDurability (State StateRow ThreadCompactionState)

/-! Cuts -/

section Cuts
variable {α : Type}

def truncateBytesTail (text : List α) (maxBytes : Nat) : List α :=
  if text.length ≤ maxBytes then text else text.drop (text.length - maxBytes)

/-- The context, or its end after the marker line, and whether anything was cut off. -/
def compactContextTail (marker context : List α) (allowed : Int) : List α × Bool :=
  if allowed ≤ 0 then ([], !context.isEmpty)
  else
    let maxBytes := allowed * 4
    if maxBytes ≤ 0 ∨ context.length ≤ maxBytes then (context, false)
    else (marker ++ context.drop (context.length - maxBytes.toNat), true)

/-- What `build_compacted_context` makes of its two blocks, which stand in front, and of the
context. -/
def assemble (marker : List α) (maxBytes : Nat) (front context : List α) : List α × Bool :=
  -- none remain where the blocks take up the budget
  let remaining := maxBytes - front.length
  let (tail, tailCompacted) := compactContextTail marker context (remaining / 4 : Nat)
  let compacted := tailCompacted || !front.isEmpty
  let out := front ++ tail
  if maxBytes < out.length then
    if maxBytes ≤ front.length then (front.take maxBytes, true)
    else
      let keepTail := maxBytes - front.length
      let tail := if keepTail < tail.length then tail.drop (tail.length - keepTail) else tail
      (front ++ tail, true)
  else (out, compacted)

end Cuts

def contextCompacted : Bytes := ascii "[context_compacted]\n"

/-! Pinned facts -/

section Facts
variable (parse : Bytes → Option Json)

def parsePinnedFacts (rawJson : Option Bytes) : List Bytes :=
  match rawJson with
  | none => []
  | some raw =>
    if raw = [] then []
    else
      match parse raw with
      | some (.arr items) =>
        items.filterMap fun item =>
          match item with
          | .str text => if text = [] then none else some text
          | _ => none
      | _ => []

def extractPinnedFactsJsonFromContext (context : Bytes) : Option Bytes :=
  if context = [] then none
  else
    match parse context with
    | some (.obj fields) =>
      match (Json.obj fields).field? (ascii "pinned_facts") with
      | some (.arr items) => (Json.arr items).dump.toOption
      | _ => none
    | _ => none

/-- One call of the lambda `append`: the values that are new, until there are 24. -/
def appendFacts (merged : List Bytes) : List Bytes → List Bytes
  | [] => merged
  | value :: values =>
    if value = [] then appendFacts merged values
    else
      let merged := if value ∈ merged then merged else merged ++ [value]
      if 24 ≤ merged.length then merged else appendFacts merged values

def mergePinnedFactsJson (current incoming : Option Bytes) : Except Json.Error (Option Bytes) :=
  let merged := appendFacts (appendFacts [] (parsePinnedFacts parse current))
    (parsePinnedFacts parse incoming)
  if merged = [] then .ok none else (Json.arr (merged.map .str)).dump.map some

end Facts

/-! The context of a request -/

def summaryHeader : Bytes := ascii "[rolling_summary]\n"

def factsHeader : Bytes := ascii "[pinned_facts]\n"

def factLine (fact : Bytes) : Bytes := ascii "- " ++ fact ++ ascii "\n"

def summaryBlock (summary : Bytes) : Bytes := summaryHeader ++ summary ++ ascii "\n\n"

/-- Of the first twelve facts. -/
def factsBlock (facts : List Bytes) : Bytes :=
  factsHeader ++ (facts.take 12).flatMap factLine ++ ascii "\n"

structure CompactedContext where
  text : Bytes
  compacted : Bool
  usedSummary : Bool
  pinnedFactCount : Nat

def summaryOf (state : Option ThreadCompactionState) : Option Bytes :=
  (state.bind ThreadCompactionState.rollingSummary).filter fun summary => summary ≠ []

def factsOf (parse : Bytes → Option Json) (state : Option ThreadCompactionState) : List Bytes :=
  parsePinnedFacts parse (state.bind ThreadCompactionState.pinnedFactsJson)

def cutSummary (maxBytes : Nat) (summary : Option Bytes) : Bytes :=
  match summary with
  | none => []
  | some text => truncateBytesTail (summaryBlock text) (min maxBytes 2400)

def cutFacts (maxBytes : Nat) (facts : List Bytes) : Bytes :=
  if facts = [] then [] else truncateBytesTail (factsBlock facts) (min maxBytes 1200)

/-- The budget is one of 64 bits whose fourfold does not overflow. -/
def buildCompactedContext (parse : Bytes → Option Json) (context : Bytes) (allowed : Int)
    (state : Option ThreadCompactionState) : CompactedContext :=
  if allowed ≤ 0 then ⟨[], !context.isEmpty, false, 0⟩
  else
    let maxBytes := (allowed * 4).toNat
    let summary := summaryOf state
    let facts := factsOf parse state
    let front := cutSummary maxBytes summary ++ cutFacts maxBytes facts
    let out := assemble contextCompacted maxBytes front context
    ⟨out.1, out.2, summary.isSome, (facts.take 12).length⟩

/-! The state of a thread -/

/-- `rolling += context_tail`, within 6000 bytes. -/
def rollSummary (rolling context : Bytes) : Bytes :=
  let tail := (compactContextTail contextCompacted context 800).1
  if tail = [] then rolling
  else
    let joined := (if rolling = [] then [] else rolling ++ ascii "\n") ++ tail
    if 6000 < joined.length then truncateBytesTail joined 6000 else joined

/-- The state that is stored; an error where the facts cannot be encoded. -/
def rolledState (parse : Bytes → Option Json) (current : ThreadCompactionState) (context : Bytes)
    (updatedAt : Int64) : Except Json.Error ThreadCompactionState := do
  let rolling := rollSummary (current.rollingSummary.getD []) context
  let facts ← mergePinnedFactsJson parse current.pinnedFactsJson
    (extractPinnedFactsJsonFromContext parse context)
  .ok { current with
    rollingSummary := if rolling = [] then current.rollingSummary else some rolling
    pinnedFactsJson := facts
    updatedAt }

/-- `load_thread_compaction_state`, of a row. -/
def loadedState (row : StateRow) : ThreadCompactionState where
  threadId := row.threadId
  rollingSummary := row.rollingSummary.map Text.val
  pinnedFactsJson := row.pinnedFactsJson.map Text.val
  lastCompactedMessageId := row.lastCompactedMessageId.map Text.val
  updatedAt := row.updatedAt

/-- The state that a thread is rolled from. -/
def currentState (t : State) (threadId : Text) : ThreadCompactionState :=
  match Rows.get StateRow.threadId threadId t.states with
  | some row => loadedState row
  | none => ⟨threadId, none, none, none, 0⟩

/-- `roll_thread_compaction_state`; none where it throws. -/
def rollThreadCompactionState (parse : Bytes → Option Json) (t : State) (threadId : Text)
    (context : Bytes) (updatedAt : Int64) : Option State :=
  if threadId.val = [] then some t
  else
    match rolledState parse (currentState t threadId) context updatedAt with
    | .ok next => t.upsertThreadCompactionState next
    | .error _ => none

/-! Lengths -/

section Lengths
variable {α : Type}

@[simp] theorem truncateBytesTail_length (text : List α) (maxBytes : Nat) :
    (truncateBytesTail text maxBytes).length = min text.length maxBytes := by
  unfold truncateBytesTail
  split
  · omega
  · rw [List.length_drop]
    omega

theorem truncateBytesTail_eq_drop (text : List α) (maxBytes : Nat) :
    truncateBytesTail text maxBytes = text.drop (text.length - maxBytes) := by
  unfold truncateBytesTail
  split
  · rw [Nat.sub_eq_zero_of_le ‹_›, List.drop_zero]
  · rfl

/-- Where nothing was cut off, the context is as it was. -/
theorem compactContextTail_unchanged {marker context : List α} {allowed : Int}
    (h : (compactContextTail marker context allowed).2 = false) :
    (compactContextTail marker context allowed).1 = context := by
  unfold compactContextTail at h ⊢
  split
  · rename_i hle
    rw [if_pos hle] at h
    have hempty : context.isEmpty = true := by simpa using h
    exact (List.isEmpty_iff.mp hempty).symm
  · rename_i hle
    rw [if_neg hle] at h
    dsimp only at h ⊢
    split
    · rfl
    · rename_i hcut
      rw [if_neg hcut] at h
      cases h

theorem assemble_length_le (marker : List α) (maxBytes : Nat) (front context : List α) :
    (assemble marker maxBytes front context).1.length ≤ maxBytes := by
  unfold assemble
  dsimp only
  split
  · split
    · exact List.length_take_le _ _
    · rename_i hfront
      rw [List.length_append]
      split
      · rw [List.length_drop]
        omega
      · omega
  · rename_i hfits
    exact Nat.le_of_not_lt hfits

theorem assemble_unchanged {marker : List α} {maxBytes : Nat} {front context : List α}
    (h : (assemble marker maxBytes front context).2 = false) :
    (assemble marker maxBytes front context).1 = context := by
  unfold assemble at h ⊢
  dsimp only at h ⊢
  split
  · rename_i hlong
    rw [if_pos hlong] at h
    split at h <;> cases h
  · rename_i hfits
    rw [if_neg hfits, Bool.or_eq_false_iff, Bool.not_eq_false', List.isEmpty_iff] at h
    obtain ⟨htail, rfl⟩ := h
    exact compactContextTail_unchanged htail

/-- The bytes of the context that fit after the blocks, in fours. -/
def contextRoom (maxBytes frontSize : Nat) : Nat := 4 * ((maxBytes - frontSize) / 4)

theorem compactContextTail_eq (marker context : List α) (n : Nat) :
    compactContextTail marker context (n : Nat) =
      if n = 0 then ([], !context.isEmpty)
      else if context.length ≤ 4 * n then (context, false)
      else (marker ++ context.drop (context.length - 4 * n), true) := by
  unfold compactContextTail
  by_cases hzero : n = 0
  · rw [if_pos hzero, if_pos (by omega)]
  · rw [if_neg hzero, if_neg (by omega)]
    dsimp only
    by_cases hfits : context.length ≤ 4 * n
    · rw [if_pos hfits, if_pos (by omega)]
    · rw [if_neg hfits, if_neg (by omega)]
      have hbytes : ((n : Int) * 4).toNat = 4 * n := by omega
      rw [hbytes]

/-- The two cuts of the context and its marker, as one. -/
theorem assemble_eq (marker : List α) (maxBytes : Nat) (front context : List α) :
    (assemble marker maxBytes front context).1 =
      if maxBytes ≤ front.length then front.take maxBytes
      else
        let room := contextRoom maxBytes front.length
        if room = 0 then front
        else if context.length ≤ room then front ++ context
        else front ++ marker.drop (marker.length + room - (maxBytes - front.length)) ++
          context.drop (context.length - room) := by
  unfold assemble contextRoom
  dsimp only
  rw [compactContextTail_eq]
  by_cases hfront : maxBytes ≤ front.length
  · have hnone : (maxBytes - front.length) / 4 = 0 := by omega
    simp only [if_pos hfront, if_pos hnone, List.append_nil]
    by_cases hlong : maxBytes < front.length
    · rw [if_pos hlong]
    · rw [if_neg hlong, List.take_of_length_le (Nat.le_of_not_lt hlong)]
  · simp only [if_neg hfront]
    by_cases hzero : (maxBytes - front.length) / 4 = 0
    · have hfits : ¬ maxBytes < front.length := by omega
      simp only [hzero, Nat.mul_zero, if_true, List.append_nil, if_neg hfits]
    · have hroom : ¬ 4 * ((maxBytes - front.length) / 4) = 0 := by omega
      simp only [if_neg hzero, if_neg hroom]
      by_cases hfits : context.length ≤ 4 * ((maxBytes - front.length) / 4)
      · have hlength : ¬ maxBytes < (front ++ context).length := by
          rw [List.length_append]
          omega
        simp only [if_pos hfits, if_neg hlength]
      · have htail : (context.drop (context.length - 4 * ((maxBytes - front.length) / 4))).length =
            4 * ((maxBytes - front.length) / 4) := by
          rw [List.length_drop]
          omega
        simp only [if_neg hfits, List.length_append, htail]
        by_cases hlong : maxBytes < front.length +
            (marker.length + 4 * ((maxBytes - front.length) / 4))
        · have hkeep : maxBytes - front.length <
              marker.length + 4 * ((maxBytes - front.length) / 4) := by omega
          rw [if_pos hlong, if_pos hkeep, List.append_assoc,
            List.drop_append_of_le_length (by omega)]
        · have hwhole : marker.length + 4 * ((maxBytes - front.length) / 4) -
              (maxBytes - front.length) = 0 := by omega
          rw [if_neg hlong, hwhole, List.drop_zero, List.append_assoc]

end Lengths

/-- The context that is built is within the budget, and it is the given one where it is not
reported as compacted. -/
theorem compacted_context_within (parse : Bytes → Option Json) (context : Bytes) {allowed : Int}
    (hallowed : 0 < allowed) (state : Option ThreadCompactionState) :
    ((buildCompactedContext parse context allowed state).text.length : Int) ≤ 4 * allowed ∧
      ((buildCompactedContext parse context allowed state).compacted = false →
        (buildCompactedContext parse context allowed state).text = context) := by
  rw [buildCompactedContext, if_neg (Int.not_le.mpr hallowed)]
  refine ⟨?_, assemble_unchanged⟩
  have hlength := assemble_length_le contextCompacted (allowed * 4).toNat
    (cutSummary (allowed * 4).toNat (summaryOf state) ++
      cutFacts (allowed * 4).toNat (factsOf parse state)) context
  dsimp only
  omega

theorem compacted_context_within_five :
    ((buildCompactedContext (fun _ => none) (ascii "a context of 24 bytes..") 5 none).text.length :
      Int) ≤ 4 * 5 ∧
      ((buildCompactedContext (fun _ => none) (ascii "a context of 24 bytes..") 5 none).compacted =
        false → (buildCompactedContext (fun _ => none) (ascii "a context of 24 bytes..") 5 none).text =
          ascii "a context of 24 bytes..") :=
  compacted_context_within _ _ (by decide) _

end Compaction

end HolderDaemon
