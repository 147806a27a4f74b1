import HolderDaemon.CompactionTexts

/-!
What a compacted context says about itself: which bytes of the summary, of the pinned facts, of the
context and of the marker line are in it, next to the flags and the count that are reported.
-/

set_option autoImplicit false

open Bytes

namespace HolderDaemon

namespace Compaction

open AiDurability (ThreadCompactionState)

/-! Bytes with their places -/

/-- Where a byte of a compacted context comes from: the block, the marker line or the context, and
the index there. -/
inductive Place where
  | summary (i : Nat)
  | facts (i : Nat)
  | marker (i : Nat)
  | context (i : Nat)
  deriving DecidableEq

def placed (place : Nat → Place) (text : Bytes) : List (UInt8 × Place) :=
  text.zip ((List.range text.length).map place)

def placedSummary (maxBytes : Nat) (summary : Option Bytes) : List (UInt8 × Place) :=
  match summary with
  | none => []
  | some text => truncateBytesTail (placed .summary (summaryBlock text)) (min maxBytes 2400)

def placedFacts (maxBytes : Nat) (facts : List Bytes) : List (UInt8 × Place) :=
  if facts = [] then []
  else truncateBytesTail (placed .facts (factsBlock facts)) (min maxBytes 1200)

/-- `buildCompactedContext`, of bytes that keep their places. -/
def placedContext (parse : Bytes → Option Json) (context : Bytes) (allowed : Int)
    (state : Option ThreadCompactionState) : List (UInt8 × Place) :=
  if allowed ≤ 0 then []
  else
    let maxBytes := (allowed * 4).toNat
    (assemble (placed .marker contextCompacted) maxBytes
      (placedSummary maxBytes (summaryOf state) ++ placedFacts maxBytes (factsOf parse state))
      (placed .context context)).1

section Map
variable {α β : Type} (f : α → β)

theorem map_truncateBytesTail (text : List α) (maxBytes : Nat) :
    (truncateBytesTail text maxBytes).map f = truncateBytesTail (text.map f) maxBytes := by
  rw [truncateBytesTail_eq_drop, truncateBytesTail_eq_drop, List.map_drop, List.length_map]

/-- The cuts look at no byte. -/
theorem map_assemble (marker : List α) (maxBytes : Nat) (front context : List α) :
    (assemble marker maxBytes front context).1.map f =
      (assemble (marker.map f) maxBytes (front.map f) (context.map f)).1 := by
  rw [assemble_eq, assemble_eq]
  simp only [List.length_map]
  split
  · rw [List.map_take]
  · split
    · rfl
    · split
      · rw [List.map_append]
      · rw [List.map_append, List.map_append, List.map_drop, List.map_drop]

end Map

theorem map_fst_placed (place : Nat → Place) (text : Bytes) :
    (placed place text).map Prod.fst = text :=
  List.map_fst_zip (by simp)

theorem map_snd_placed (place : Nat → Place) (text : Bytes) :
    (placed place text).map Prod.snd = (List.range text.length).map place :=
  List.map_snd_zip (by simp)

theorem map_fst_placedSummary (maxBytes : Nat) (summary : Option Bytes) :
    (placedSummary maxBytes summary).map Prod.fst = cutSummary maxBytes summary := by
  cases summary with
  | none => rfl
  | some text => rw [placedSummary, map_truncateBytesTail, map_fst_placed, cutSummary]

theorem map_fst_placedFacts (maxBytes : Nat) (facts : List Bytes) :
    (placedFacts maxBytes facts).map Prod.fst = cutFacts maxBytes facts := by
  rw [placedFacts, cutFacts]
  split
  · rfl
  · rw [map_truncateBytesTail, map_fst_placed]

/-- Without their places the bytes are the context that is built. -/
theorem map_fst_placedContext (parse : Bytes → Option Json) (context : Bytes) (allowed : Int)
    (state : Option ThreadCompactionState) :
    (placedContext parse context allowed state).map Prod.fst =
      (buildCompactedContext parse context allowed state).text := by
  rw [placedContext, buildCompactedContext]
  split
  · rfl
  · dsimp only
    rw [map_assemble, List.map_append, map_fst_placed, map_fst_placed, map_fst_placedSummary,
      map_fst_placedFacts]

/-! Which places are kept -/

/-- The places of the bytes of a compacted context. -/
def places (parse : Bytes → Option Json) (context : Bytes) (allowed : Int)
    (state : Option ThreadCompactionState) : List Place :=
  (placedContext parse context allowed state).map Prod.snd

/-- Places from one index to another. -/
def run (place : Nat → Place) (start n : Nat) : List Place := (List.range' start n).map place

theorem mem_run {place : Nat → Place} (hplace : Function.Injective place) {start n i : Nat} :
    place i ∈ run place start n ↔ start ≤ i ∧ i < start + n := by
  rw [run, List.mem_map_of_injective hplace, List.mem_range'_1]

theorem drop_run (place : Nat → Place) (start n k : Nat) :
    (run place start n).drop k = run place (start + k) (n - k) := by
  rw [run, run, ← List.map_drop, List.drop_range', Nat.mul_one]

theorem take_run (place : Nat → Place) (start n k : Nat) :
    (run place start n).take k = run place start (min k n) := by
  rw [run, run, ← List.map_take]
  rcases Nat.le_total k n with hle | hle
  · rw [List.take_range'_of_length_ge hle, Nat.min_eq_left hle]
  · rw [List.take_range'_of_length_le hle, Nat.min_eq_right hle]

theorem length_run (place : Nat → Place) (start n : Nat) : (run place start n).length = n := by
  rw [run, List.length_map, List.length_range']

theorem snd_placed (place : Nat → Place) (text : Bytes) :
    (placed place text).map Prod.snd = run place 0 text.length := by
  rw [map_snd_placed, run, List.range_eq_range']

def summaryRun (maxBytes : Nat) (summary : Option Bytes) : List Place :=
  match summary with
  | none => []
  | some text => run .summary (cutStart (summaryBlock text) (min maxBytes 2400))
      (summarySize maxBytes summary)

def factsRun (maxBytes : Nat) (facts : List Bytes) : List Place :=
  run .facts (cutStart (factsBlock facts) (min maxBytes 1200)) (factsSize maxBytes facts)

theorem truncate_run (place : Nat → Place) (n maxBytes : Nat) :
    truncateBytesTail (run place 0 n) maxBytes = run place (n - maxBytes) (min n maxBytes) := by
  rw [truncateBytesTail_eq_drop, length_run, drop_run, Nat.zero_add]
  congr 1
  omega

theorem length_summaryBlock (text : Bytes) : (summaryBlock text).length = text.length + 20 := by
  have hheader : summaryHeader.length = 18 := by decide
  have hend : (ascii "\n\n").length = 2 := by decide
  rw [summaryBlock, List.length_append, List.length_append, hheader, hend]
  omega

theorem snd_placedSummary (maxBytes : Nat) (summary : Option Bytes) :
    (placedSummary maxBytes summary).map Prod.snd = summaryRun maxBytes summary := by
  cases summary with
  | none => rfl
  | some text =>
    rw [placedSummary, map_truncateBytesTail, snd_placed, truncate_run, summaryRun, cutStart,
      length_summaryBlock, summarySize, Option.map_some, Option.getD_some]

theorem snd_placedFacts (maxBytes : Nat) (facts : List Bytes) :
    (placedFacts maxBytes facts).map Prod.snd = factsRun maxBytes facts := by
  rw [placedFacts, factsRun, factsSize]
  split
  · rfl
  · rw [map_truncateBytesTail, snd_placed, truncate_run, cutStart]

section Kept
variable {parse : Bytes → Option Json} {context : Bytes} {allowed : Int}
  {state : Option ThreadCompactionState}

/-- The bytes of the budget. -/
def budget (allowed : Int) : Nat := (allowed * 4).toNat

def blocksSize (parse : Bytes → Option Json) (allowed : Int)
    (state : Option ThreadCompactionState) : Nat :=
  summarySize (budget allowed) (summaryOf state) + factsSize (budget allowed) (factsOf parse state)

/-- The bytes of the context that are kept. -/
def room (parse : Bytes → Option Json) (allowed : Int) (state : Option ThreadCompactionState) :
    Nat :=
  contextRoom (budget allowed) (blocksSize parse allowed state)

theorem length_summaryRun (maxBytes : Nat) (summary : Option Bytes) :
    (summaryRun maxBytes summary).length = summarySize maxBytes summary := by
  cases summary with
  | none => rfl
  | some text => rw [summaryRun, length_run]

theorem run_zero (place : Nat → Place) (start : Nat) : run place start 0 = [] := rfl

/-- Where the marker line begins in what is kept of it. -/
def markerStart (parse : Bytes → Option Json) (allowed : Int)
    (state : Option ThreadCompactionState) : Nat :=
  20 + room parse allowed state - (budget allowed - blocksSize parse allowed state)

/-- At most the last three bytes of the marker line are kept. -/
theorem le_markerStart : 17 ≤ markerStart parse allowed state := by
  rw [markerStart, room, contextRoom]
  omega

/-- What the budget keeps of the block of facts, after the summary. -/
def factsKept (parse : Bytes → Option Json) (allowed : Int) (state : Option ThreadCompactionState) :
    List Place :=
  (factsRun (budget allowed) (factsOf parse state)).take
    (budget allowed - summarySize (budget allowed) (summaryOf state))

def markerRun (parse : Bytes → Option Json) (context : Bytes) (allowed : Int)
    (state : Option ThreadCompactionState) : List Place :=
  if room parse allowed state = 0 ∨ context.length ≤ room parse allowed state then []
  else run .marker (markerStart parse allowed state) (20 - markerStart parse allowed state)

def contextRun (parse : Bytes → Option Json) (context : Bytes) (allowed : Int)
    (state : Option ThreadCompactionState) : List Place :=
  run .context (context.length - room parse allowed state)
    (min (room parse allowed state) context.length)

/-- The blocks, cut at the budget, and then the marker and the context. -/
theorem places_eq (hallowed : 0 < allowed) :
    places parse context allowed state =
      summaryRun (budget allowed) (summaryOf state) ++ factsKept parse allowed state ++
        markerRun parse context allowed state ++ contextRun parse context allowed state := by
  have hmarker : contextCompacted.length = 20 := by decide
  have hsummary : summarySize (budget allowed) (summaryOf state) ≤ budget allowed := summarySize_le
  have hfront : (summaryRun (budget allowed) (summaryOf state) ++
      factsRun (budget allowed) (factsOf parse state)).length = blocksSize parse allowed state := by
    rw [List.length_append, length_summaryRun, factsRun, length_run, blocksSize]
  have hfacts : (factsRun (budget allowed) (factsOf parse state)).length =
      factsSize (budget allowed) (factsOf parse state) := by
    rw [factsRun, length_run]
  rw [places, placedContext, if_neg (Int.not_le.mpr hallowed)]
  dsimp only
  rw [map_assemble, List.map_append, snd_placed, snd_placed, snd_placedSummary, snd_placedFacts,
    ← budget, assemble_eq, hfront, length_run, length_run, hmarker, ← room, factsKept, markerRun,
    contextRun]
  by_cases hfull : budget allowed ≤ blocksSize parse allowed state
  · have hroom : room parse allowed state = 0 := by
      rw [room, contextRoom]
      omega
    rw [if_pos hfull, hroom, if_pos (.inl rfl), Nat.zero_min, run_zero, List.append_nil,
      List.append_nil, List.take_append, length_summaryRun, List.take_of_length_le]
    rwa [length_summaryRun]
  · have hblocks : blocksSize parse allowed state =
        summarySize (budget allowed) (summaryOf state) +
          factsSize (budget allowed) (factsOf parse state) := rfl
    rw [if_neg hfull, List.take_of_length_le (by omega)]
    dsimp only
    by_cases hroom : room parse allowed state = 0
    · rw [if_pos hroom, if_pos (.inl hroom), hroom, Nat.zero_min, run_zero, List.append_nil,
        List.append_nil]
    · rw [if_neg hroom]
      by_cases hfits : context.length ≤ room parse allowed state
      · rw [if_pos hfits, if_pos (.inr hfits), Nat.sub_eq_zero_of_le hfits,
          Nat.min_eq_right hfits, List.append_nil]
      · rw [if_neg hfits, if_neg (not_or.mpr ⟨hroom, hfits⟩), drop_run, drop_run, ← markerStart,
          Nat.zero_add, Nat.zero_add, Nat.min_eq_left (Nat.le_of_not_le hfits),
          Nat.sub_sub_self (Nat.le_of_not_le hfits)]

theorem summary_injective : Function.Injective Place.summary := fun _ _ h => Place.summary.inj h
theorem facts_injective : Function.Injective Place.facts := fun _ _ h => Place.facts.inj h
theorem marker_injective : Function.Injective Place.marker := fun _ _ h => Place.marker.inj h
theorem context_injective : Function.Injective Place.context := fun _ _ h => Place.context.inj h

theorem notMem_run {place : Nat → Place} {p : Place} (hp : ∀ i, place i ≠ p) (start n : Nat) :
    p ∉ run place start n := fun hmem => by
  obtain ⟨i, -, hi⟩ := List.mem_map.mp hmem
  exact hp i hi

theorem notMem_summaryRun {p : Place} (hp : ∀ i, Place.summary i ≠ p) (maxBytes : Nat)
    (summary : Option Bytes) : p ∉ summaryRun maxBytes summary := by
  cases summary with
  | none => exact List.not_mem_nil
  | some text => exact notMem_run hp _ _

theorem notMem_factsKept {p : Place} (hp : ∀ i, Place.facts i ≠ p) :
    p ∉ factsKept parse allowed state := fun hmem =>
  notMem_run hp _ _ (List.mem_of_mem_take hmem)

theorem notMem_markerRun {p : Place} (hp : ∀ i, Place.marker i ≠ p) :
    p ∉ markerRun parse context allowed state := by
  rw [markerRun]
  split
  · exact List.not_mem_nil
  · exact notMem_run hp _ _

theorem mem_places_context (hallowed : 0 < allowed) (i : Nat) :
    .context i ∈ places parse context allowed state ↔
      context.length - room parse allowed state ≤ i ∧ i < context.length := by
  have hsummary : .context i ∉ summaryRun (budget allowed) (summaryOf state) :=
    notMem_summaryRun (by simp) _ _
  have hfacts : .context i ∉ factsKept parse allowed state := notMem_factsKept (by simp)
  have hmarker : .context i ∉ markerRun parse context allowed state := notMem_markerRun (by simp)
  rw [places_eq hallowed, List.mem_append, List.mem_append, List.mem_append, contextRun,
    mem_run context_injective]
  simp only [hsummary, hfacts, hmarker, false_or]
  omega

theorem mem_places_facts (hallowed : 0 < allowed) (i : Nat) :
    .facts i ∈ places parse context allowed state ↔
      cutStart (factsBlock (factsOf parse state)) (min (budget allowed) 1200) ≤ i ∧
        i < cutStart (factsBlock (factsOf parse state)) (min (budget allowed) 1200) +
          min (budget allowed - summarySize (budget allowed) (summaryOf state))
            (factsSize (budget allowed) (factsOf parse state)) := by
  have hsummary : .facts i ∉ summaryRun (budget allowed) (summaryOf state) :=
    notMem_summaryRun (by simp) _ _
  have hmarker : .facts i ∉ markerRun parse context allowed state := notMem_markerRun (by simp)
  have hcontext : .facts i ∉ contextRun parse context allowed state := notMem_run (by simp) _ _
  rw [places_eq hallowed, List.mem_append, List.mem_append, List.mem_append, factsKept, factsRun,
    take_run, mem_run facts_injective]
  simp only [hsummary, hmarker, hcontext, false_or, or_false]

theorem mem_places_summary (hallowed : 0 < allowed) (i : Nat) :
    .summary i ∈ places parse context allowed state ↔
      .summary i ∈ summaryRun (budget allowed) (summaryOf state) := by
  have hfacts : .summary i ∉ factsKept parse allowed state := notMem_factsKept (by simp)
  have hmarker : .summary i ∉ markerRun parse context allowed state := notMem_markerRun (by simp)
  have hcontext : .summary i ∉ contextRun parse context allowed state := notMem_run (by simp) _ _
  rw [places_eq hallowed, List.mem_append, List.mem_append, List.mem_append]
  simp only [hfacts, hmarker, hcontext, or_false]

/-- The marker line is never whole. -/
theorem notMem_places_marker (hallowed : 0 < allowed) :
    .marker 0 ∉ places parse context allowed state := by
  have hsummary : .marker 0 ∉ summaryRun (budget allowed) (summaryOf state) :=
    notMem_summaryRun (by simp) _ _
  have hfacts : .marker 0 ∉ factsKept parse allowed state := notMem_factsKept (by simp)
  have hcontext : .marker 0 ∉ contextRun parse context allowed state := notMem_run (by simp) _ _
  have hmarker : .marker 0 ∉ markerRun parse context allowed state := by
    rw [markerRun]
    split
    · exact List.not_mem_nil
    · rw [mem_run marker_injective]
      have hstart : 17 ≤ markerStart parse allowed state := le_markerStart
      omega
  rw [places_eq hallowed, List.mem_append, List.mem_append, List.mem_append]
  simp only [hsummary, hfacts, hmarker, hcontext, or_self, not_false_eq_true]

/-! The reports -/

/-- Where the line of a fact begins in the block. -/
def lineStart (facts : List Bytes) (j : Nat) : Nat :=
  factsHeader.length + ((facts.take j).flatMap factLine).length

/-- How many lines of facts are whole, after a header that is. -/
def wholeLines (kept : List Place) (facts : List Bytes) : Nat :=
  if ∀ i ∈ List.range factsHeader.length, Place.facts i ∈ kept then
    ((List.range facts.length).filter fun j =>
      ∀ i ∈ List.range' (lineStart facts j) (lineStart facts (j + 1) - lineStart facts j),
        Place.facts i ∈ kept).length
  else 0

/-- The reports describe the context that is built. -/
structure ReportsTrue (parse : Bytes → Option Json) (context : Bytes) (allowed : Int)
    (state : Option ThreadCompactionState) : Prop where
  /-- A summary that is said to be used begins the context, after its header line, whole or from
  some byte on. -/
  summary : (buildCompactedContext parse context allowed state).usedSummary = true →
    ∀ text ∈ summaryOf state, ∃ start ≤ text.length,
      run .summary 0 summaryHeader.length ++
        run .summary (summaryHeader.length + start) (text.length - start) <+:
        places parse context allowed state
  facts : (buildCompactedContext parse context allowed state).pinnedFactCount =
    wholeLines (places parse context allowed state) ((factsOf parse state).take 12)
  marker : (∃ i < context.length, Place.context i ∉ places parse context allowed state) →
    ∀ i < contextCompacted.length, Place.marker i ∈ places parse context allowed state

/-- Both blocks are kept whole, but for the last newline, and so is the context. -/
structure ReportsKept (parse : Bytes → Option Json) (context : Bytes) (allowed : Int)
    (state : Option ThreadCompactionState) : Prop where
  summary : 0 < allowed → ∀ text ∈ summaryOf state, text.length + 20 ≤ min (budget allowed) 2400
  facts : 0 < allowed → factsOf parse state ≠ [] →
    (factsBlock (factsOf parse state)).length ≤ min (budget allowed) 1200 ∧
      summarySize (budget allowed) (summaryOf state) + (factsBlock (factsOf parse state)).length ≤
        budget allowed + 1
  context : context.length ≤ room parse allowed state

theorem run_append (place : Nat → Place) (start n m : Nat) :
    run place start n ++ run place (start + n) m = run place start (n + m) := by
  rw [run, run, run, ← List.map_append, List.range'_append_1]

theorem summary_report_iff (hallowed : 0 < allowed) {text : Bytes}
    (htext : summaryOf state = some text) :
    (∃ start ≤ text.length, run .summary 0 summaryHeader.length ++
        run .summary (summaryHeader.length + start) (text.length - start) <+:
        places parse context allowed state) ↔
      text.length + 20 ≤ min (budget allowed) 2400 := by
  have hheader : summaryHeader.length = 18 := by decide
  rw [hheader]
  constructor
  · rintro ⟨start, -, hprefix⟩
    have hfirst : Place.summary 0 ∈ places parse context allowed state := by
      refine hprefix.subset (List.mem_append_left _ ?_)
      rw [mem_run summary_injective]
      omega
    rw [mem_places_summary hallowed, htext, summaryRun, mem_run summary_injective, cutStart,
      length_summaryBlock] at hfirst
    omega
  · intro hfits
    refine ⟨0, Nat.zero_le _, ?_⟩
    have hrun : summaryRun (budget allowed) (some text) = run .summary 0 (text.length + 20) := by
      rw [summaryRun, cutStart, length_summaryBlock, summarySize, Option.map_some, Option.getD_some,
        Nat.min_eq_left hfits, Nat.sub_eq_zero_of_le hfits]
    have hpart : run .summary 0 18 ++ run .summary (18 + 0) (text.length - 0) <+:
        run .summary 0 (text.length + 20) := by
      have hall := run_append .summary 0 (18 + text.length) 2
      rw [Nat.add_zero, Nat.sub_zero]
      have htwo := run_append .summary 0 18 text.length
      rw [Nat.zero_add] at htwo
      rw [htwo]
      exact ⟨_, hall.trans (by congr 1; omega)⟩
    rw [places_eq hallowed, htext, hrun, List.append_assoc, List.append_assoc]
    exact hpart.trans (List.prefix_append _ _)

theorem lineStart_mono {facts : List Bytes} {j k : Nat} (h : j ≤ k) :
    lineStart facts j ≤ lineStart facts k := by
  have hprefix : (facts.take j).flatMap factLine <+: (facts.take k).flatMap factLine := by
    obtain ⟨more, hmore⟩ := List.take_prefix_take_left h (l := facts)
    exact ⟨more.flatMap factLine, by rw [← List.flatMap_append, hmore]⟩
  exact Nat.add_le_add_left hprefix.length_le _

theorem length_factsBlock (facts : List Bytes) :
    (factsBlock facts).length = lineStart (facts.take 12) (facts.take 12).length + 1 := by
  rw [factsBlock, lineStart, List.length_append, List.length_append, List.take_length]
  rfl

theorem lineStart_lt {facts : List Bytes} {j : Nat} (h : j < facts.length) :
    lineStart facts j < lineStart facts (j + 1) := by
  have hline : 0 < (factLine facts[j]).length := by
    rw [factLine, List.length_append]
    exact Nat.lt_add_left _ (by decide)
  rw [lineStart, lineStart, List.take_succ_eq_append_getElem h, List.flatMap_append,
    List.length_append, List.flatMap_singleton]
  omega

theorem wholeLines_eq_length_iff {kept : List Place} {facts : List Bytes} (hne : facts ≠ []) :
    facts.length = wholeLines kept facts ↔
      (∀ i < factsHeader.length, Place.facts i ∈ kept) ∧
        ∀ j < facts.length, ∀ i, lineStart facts j ≤ i → i < lineStart facts (j + 1) →
          Place.facts i ∈ kept := by
  have hpos : 0 < facts.length := List.length_pos_of_ne_nil hne
  have hrange : ∀ j i, i ∈ List.range' (lineStart facts j)
      (lineStart facts (j + 1) - lineStart facts j) ↔
        lineStart facts j ≤ i ∧ i < lineStart facts (j + 1) := by
    intro j i
    have hle : lineStart facts j ≤ lineStart facts (j + 1) := lineStart_mono (Nat.le_succ j)
    rw [List.mem_range'_1]
    omega
  unfold wholeLines
  split
  · rename_i hheader
    have hall : ∀ i < factsHeader.length, Place.facts i ∈ kept := fun i hi =>
      hheader i (List.mem_range.mpr hi)
    have hlength : facts.length = (List.range facts.length).length := List.length_range.symm
    conv_lhs => lhs; rw [hlength]
    rw [eq_comm, List.length_filter_eq_length_iff]
    simp only [decide_eq_true_eq, hrange, List.mem_range, and_imp]
    exact ⟨fun h => ⟨hall, h⟩, fun h => h.2⟩
  · rename_i hheader
    refine iff_of_false (by omega) fun h => hheader fun i hi => h.1 i (List.mem_range.mp hi)

theorem facts_report_iff (hallowed : 0 < allowed) :
    ((factsOf parse state).take 12).length =
        wholeLines (places parse context allowed state) ((factsOf parse state).take 12) ↔
      (factsOf parse state ≠ [] →
        (factsBlock (factsOf parse state)).length ≤ min (budget allowed) 1200 ∧
          summarySize (budget allowed) (summaryOf state) +
            (factsBlock (factsOf parse state)).length ≤ budget allowed + 1) := by
  have hkept := fun i => @mem_places_facts parse context allowed state hallowed i
  have hblock := length_factsBlock (factsOf parse state)
  have hheader : factsHeader.length = 15 := by decide
  by_cases hnil : factsOf parse state = []
  · refine iff_of_true ?_ fun hne => absurd hnil hne
    rw [hnil, List.take_nil, wholeLines]
    split
    · rfl
    · rfl
  · have hne : (factsOf parse state).take 12 ≠ [] := by
      intro htake
      have hlength := congrArg List.length htake
      rw [List.length_take, List.length_nil] at hlength
      exact hnil (List.length_eq_zero_iff.mp (by omega))
    have hsize : factsSize (budget allowed) (factsOf parse state) =
        min (factsBlock (factsOf parse state)).length (min (budget allowed) 1200) := by
      rw [factsSize, if_neg hnil]
    rw [wholeLines_eq_length_iff hne]
    generalize (factsOf parse state).take 12 = shown at hne hblock ⊢
    have hpos : 0 < shown.length := List.length_pos_of_ne_nil hne
    have hzero : lineStart shown 0 = factsHeader.length := rfl
    constructor
    · rintro ⟨hfirst, hlines⟩ -
      have hlast := lineStart_lt (Nat.sub_lt hpos Nat.one_pos)
      have hsub : shown.length - 1 + 1 = shown.length := Nat.sub_add_cancel hpos
      rw [hsub] at hlast
      have hend := hlines (shown.length - 1) (Nat.sub_lt hpos Nat.one_pos)
        (lineStart shown shown.length - 1) (by omega) (by rw [hsub]; omega)
      have hbegin := hfirst 0 (by rw [hheader]; omega)
      rw [hkept, cutStart] at hend hbegin
      omega
    · intro hfits
      obtain ⟨hlimit, hbudget⟩ := hfits hnil
      have hall : ∀ i < lineStart shown shown.length,
          Place.facts i ∈ places parse context allowed state := by
        intro i hi
        rw [hkept, cutStart, hsize]
        omega
      refine ⟨fun i hi => hall i ?_, fun j hj i _ hi => hall i ?_⟩
      · have hle : lineStart shown 0 ≤ lineStart shown shown.length :=
          lineStart_mono (Nat.zero_le _)
        omega
      · have hle : lineStart shown (j + 1) ≤ lineStart shown shown.length := lineStart_mono hj
        omega

theorem marker_report_iff (hallowed : 0 < allowed) :
    ((∃ i < context.length, Place.context i ∉ places parse context allowed state) →
        ∀ i < contextCompacted.length, Place.marker i ∈ places parse context allowed state) ↔
      context.length ≤ room parse allowed state := by
  constructor
  · intro hmarker
    by_contra hlong
    have hcut : Place.context 0 ∉ places parse context allowed state := by
      rw [mem_places_context hallowed]
      omega
    exact notMem_places_marker hallowed (hmarker ⟨0, by omega, hcut⟩ 0 (by decide))
  · rintro hfits ⟨i, hi, hcut⟩
    refine absurd ?_ hcut
    rw [mem_places_context hallowed]
    omega

/-- Exactly where everything is kept, the reports are true. -/
theorem reportsTrue_iff (parse : Bytes → Option Json) (context : Bytes) (allowed : Int)
    (state : Option ThreadCompactionState) :
    ReportsTrue parse context allowed state ↔ ReportsKept parse context allowed state := by
  by_cases hallowed : 0 < allowed
  · have hnot : ¬ allowed ≤ 0 := Int.not_le.mpr hallowed
    have hcount : (buildCompactedContext parse context allowed state).pinnedFactCount =
        ((factsOf parse state).take 12).length := by rw [buildCompactedContext, if_neg hnot]
    have hused : (buildCompactedContext parse context allowed state).usedSummary =
        (summaryOf state).isSome := by rw [buildCompactedContext, if_neg hnot]
    constructor
    · intro h
      refine ⟨fun _ text htext => ?_, fun _ => ?_, (marker_report_iff hallowed).mp h.marker⟩
      · refine (summary_report_iff hallowed htext).mp (h.summary ?_ text htext)
        rw [hused, htext]
        rfl
      · exact (facts_report_iff hallowed).mp (hcount ▸ h.facts)
    · intro h
      refine ⟨fun _ text htext => ?_, ?_, (marker_report_iff hallowed).mpr h.context⟩
      · exact (summary_report_iff hallowed htext).mpr (h.summary hallowed text htext)
      · rw [hcount]
        exact (facts_report_iff hallowed).mpr (h.facts hallowed)
  · have hle : allowed ≤ 0 := Int.not_lt.mp hallowed
    have hplaces : places parse context allowed state = [] := by
      rw [places, placedContext, if_pos hle, List.map_nil]
    have hbudget : budget allowed = 0 := by
      rw [budget]
      omega
    have hroom : room parse allowed state = 0 := by
      rw [room, contextRoom, hbudget]
      omega
    constructor
    · intro h
      refine ⟨fun h => absurd h hallowed, fun h => absurd h hallowed, ?_⟩
      by_contra hlong
      have hmarker := h.marker ⟨0, by omega, by rw [hplaces]; exact List.not_mem_nil⟩ 0 (by decide)
      rw [hplaces] at hmarker
      exact absurd hmarker List.not_mem_nil
    · intro h
      refine ⟨fun hused => ?_, ?_, ?_⟩
      · rw [buildCompactedContext, if_pos hle] at hused
        cases hused
      · rw [buildCompactedContext, if_pos hle, hplaces, wholeLines, if_neg]
        intro hheader
        exact absurd (hheader 0 (by decide)) List.not_mem_nil
      · rintro ⟨i, hi, -⟩
        have hfits := h.context
        omega

/-! The text where everything is kept -/

theorem text_of_fits (hallowed : 0 < allowed) (hfits : context.length ≤ room parse allowed state) :
    (buildCompactedContext parse context allowed state).text =
      cutSummary (budget allowed) (summaryOf state) ++
        (cutFacts (budget allowed) (factsOf parse state)).take
          (budget allowed - summarySize (budget allowed) (summaryOf state)) ++ context := by
  have hsummary : summarySize (budget allowed) (summaryOf state) ≤ budget allowed := summarySize_le
  have hblocks : blocksSize parse allowed state =
      summarySize (budget allowed) (summaryOf state) +
        factsSize (budget allowed) (factsOf parse state) := rfl
  rw [buildCompactedContext, if_neg (Int.not_le.mpr hallowed)]
  dsimp only
  rw [← budget, assemble_eq, length_front, ← hblocks, ← room]
  split
  · rename_i hfull
    have hnil : context = [] := by
      rw [room, contextRoom] at hfits
      exact List.length_eq_zero_iff.mp (by omega)
    rw [hnil, List.append_nil, List.take_append, length_cutSummary, List.take_of_length_le]
    rwa [length_cutSummary]
  · rw [List.take_of_length_le (by rw [length_cutFacts]; omega)]
    dsimp only
    split
    · rename_i hroom
      rw [hroom] at hfits
      rw [List.length_eq_zero_iff.mp (Nat.le_zero.mp hfits), List.append_nil]
    · rfl

theorem truncateBytesTail_of_le {text : Bytes} {maxBytes : Nat} (h : text.length ≤ maxBytes) :
    truncateBytesTail text maxBytes = text := by
  rw [truncateBytesTail, if_pos h]

/-- The text begins with the header line and the summary, has the lines of all the facts that are
counted after their header line, and ends with the context. -/
theorem text_of_kept (hallowed : 0 < allowed) (h : ReportsKept parse context allowed state) :
    (∀ text ∈ summaryOf state, summaryHeader ++ text <+:
      (buildCompactedContext parse context allowed state).text) ∧
    (factsOf parse state ≠ [] → ∃ before after,
      before ++ factsHeader ++ ((factsOf parse state).take 12).flatMap factLine ++ after =
        (buildCompactedContext parse context allowed state).text) ∧
    context <:+ (buildCompactedContext parse context allowed state).text := by
  rw [text_of_fits hallowed h.context]
  refine ⟨fun text htext => ?_, fun hne => ?_, List.suffix_append _ _⟩
  · have hlimit := h.summary hallowed text htext
    rw [Option.mem_def.mp htext, cutSummary,
      truncateBytesTail_of_le (by rw [length_summaryBlock]; exact hlimit), summaryBlock,
      List.append_assoc, List.append_assoc]
    exact List.prefix_append _ _
  · obtain ⟨hlimit, hbudget⟩ := h.facts hallowed hne
    have hlines : factsHeader ++ ((factsOf parse state).take 12).flatMap factLine <+:
        (factsBlock (factsOf parse state)).take
          (budget allowed - summarySize (budget allowed) (summaryOf state)) := by
      refine List.prefix_take_iff.mpr ⟨List.prefix_append _ _, ?_⟩
      rw [factsBlock, List.length_append] at hbudget
      have hnewline : (ascii "\n").length = 1 := rfl
      omega
    obtain ⟨rest, hrest⟩ := hlines
    rw [cutFacts, if_neg hne, truncateBytesTail_of_le hlimit, ← hrest]
    exact ⟨cutSummary (budget allowed) (summaryOf state), rest ++ context,
      by simp only [List.append_assoc]⟩

end Kept

/-- The reports are those of the bytes that are built, and they are true exactly where everything
is kept; then the text has what they say. -/
theorem compaction_reports (parse : Bytes → Option Json) (context : Bytes) (allowed : Int)
    (state : Option ThreadCompactionState) :
    (placedContext parse context allowed state).map Prod.fst =
      (buildCompactedContext parse context allowed state).text ∧
    (ReportsTrue parse context allowed state ↔ ReportsKept parse context allowed state) ∧
    (0 < allowed → ReportsKept parse context allowed state →
      (∀ text ∈ summaryOf state, summaryHeader ++ text <+:
        (buildCompactedContext parse context allowed state).text) ∧
      (factsOf parse state ≠ [] → ∃ before after,
        before ++ factsHeader ++ ((factsOf parse state).take 12).flatMap factLine ++ after =
          (buildCompactedContext parse context allowed state).text) ∧
      context <:+ (buildCompactedContext parse context allowed state).text) :=
  ⟨map_fst_placedContext parse context allowed state, reportsTrue_iff parse context allowed state,
    text_of_kept⟩

def stateWith (summary facts : Option Bytes) : ThreadCompactionState where
  threadId := cString (ascii "t1")
  rollingSummary := summary
  pinnedFactsJson := facts
  lastCompactedMessageId := none
  updatedAt := 0

def lastWeek : Bytes := ascii "The plan of last week was kept."

/-- A summary without its header line, a fact that is counted without the line of the facts, and a
context that is cut without its marker line. -/
theorem compaction_reports_fail :
    let noFacts := fun _ => none
    let oneFact := fun _ => some (Json.arr [.str lastWeek])
    let summarised := buildCompactedContext noFacts [] 10 (some (stateWith (some lastWeek) none))
    let pinned := buildCompactedContext oneFact [] 10 (some (stateWith none (some lastWeek)))
    let cut := buildCompactedContext noFacts lastWeek 5 none
    (summarised.usedSummary = true ∧ ¬ summaryHeader <+: summarised.text) ∧
      (pinned.pinnedFactCount = 1 ∧ ¬ factsHeader <:+: pinned.text) ∧
      (cut.compacted = true ∧ cut.text.length = 20 ∧ ¬ contextCompacted <:+: cut.text) := by
  decide +kernel

end Compaction

end HolderDaemon
