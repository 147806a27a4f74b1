import HolderDaemon.PinnedFacts
import HolderDaemon.RollingSummary
import HolderDaemon.TitleTexts

/-!
Where the texts of a thread's compaction are UTF-8: every cut counts bytes, so a text comes out as
one only where no cut is inside a character.
-/

set_option autoImplicit false

open Bytes

namespace HolderDaemon

namespace Compaction

open AiDurability (ThreadCompactionState stateJson)
open RollingSummary (splitLinesTrimmed bulletize Draft draft summaryText sectionText truncated
  normalizeAndValidateRollingSummary candidateLines)

/-! Blocks -/

theorem boundary_zero {s : Bytes} (h : validUtf8 s = true) : Boundary s 0 :=
  (validUtf8_drop_iff h 0).mp h

theorem validUtf8_flatMap {α : Type} {f : α → Bytes} {xs : List α}
    (h : ∀ x ∈ xs, validUtf8 (f x) = true) : validUtf8 (xs.flatMap f) = true := by
  induction xs with
  | nil => rfl
  | cons x xs ih =>
    rw [List.flatMap_cons]
    exact validUtf8_append (h x (.head _)) (ih fun y hy => h y (.tail _ hy))

theorem validUtf8_summaryBlock {summary : Bytes} (h : validUtf8 summary = true) :
    validUtf8 (summaryBlock summary) = true :=
  validUtf8_append (validUtf8_append (by decide) h) (by decide)

theorem validUtf8_factLine {fact : Bytes} (h : validUtf8 fact = true) :
    validUtf8 (factLine fact) = true :=
  validUtf8_append (validUtf8_append (by decide) h) (by decide)

theorem validUtf8_factsBlock {facts : List Bytes} (h : ∀ fact ∈ facts, validUtf8 fact = true) :
    validUtf8 (factsBlock facts) = true :=
  validUtf8_append (validUtf8_append (by decide) (validUtf8_flatMap fun fact hfact =>
    validUtf8_factLine (h fact (List.mem_of_mem_take hfact)))) (by decide)

theorem validUtf8_parsePinnedFacts {parse : Bytes → Option Json}
    (hparse : ∀ text j, parse text = some j → j.encodable = true) {rawJson : Option Bytes}
    {fact : Bytes} (hfact : fact ∈ parsePinnedFacts parse rawJson) : validUtf8 fact = true := by
  unfold parsePinnedFacts at hfact
  split at hfact
  · exact absurd hfact List.not_mem_nil
  · rename_i raw
    split at hfact
    · exact absurd hfact List.not_mem_nil
    · split at hfact
      · rename_i items hitems
        have hall := hparse raw _ hitems
        rw [Json.encodable, Json.encodableItems_eq, List.all_eq_true] at hall
        obtain ⟨item, hitem, hstr⟩ := List.mem_filterMap.mp hfact
        cases item with
        | str s =>
          dsimp only at hstr
          split at hstr
          · cases hstr
          · rw [← Option.some.inj hstr]
            exact hall _ hitem
        | _ => cases hstr
      · exact absurd hfact List.not_mem_nil

/-! The context of a request -/

/-- Where a block that is cut at its front begins, within `limit` bytes. -/
def cutStart (block : Bytes) (limit : Nat) : Nat := block.length - limit

/-- The bytes of the summary in the context. -/
def summarySize (maxBytes : Nat) (summary : Option Bytes) : Nat :=
  (summary.map fun text => min (text.length + 20) (min maxBytes 2400)).getD 0

def factsSize (maxBytes : Nat) (facts : List Bytes) : Nat :=
  if facts = [] then 0 else min (factsBlock facts).length (min maxBytes 1200)

/-- No cut of `build_compacted_context` is inside a character. -/
structure ContextWhole (maxBytes : Nat) (summary : Option Bytes) (facts : List Bytes)
    (context : Bytes) : Prop where
  summaryCut : ∀ text ∈ summary,
    Boundary (summaryBlock text) (cutStart (summaryBlock text) (min maxBytes 2400))
  factsCut : facts ≠ [] → summarySize maxBytes summary < maxBytes →
    Boundary (factsBlock facts) (cutStart (factsBlock facts) (min maxBytes 1200))
  /-- Where the blocks alone are over the budget. -/
  frontCut : facts ≠ [] → summarySize maxBytes summary < maxBytes →
    Boundary (factsBlock facts) (cutStart (factsBlock facts) (min maxBytes 1200) +
      (maxBytes - summarySize maxBytes summary))
  contextCut : 4 ≤ maxBytes - (summarySize maxBytes summary + factsSize maxBytes facts) →
    Boundary context (context.length -
      contextRoom maxBytes (summarySize maxBytes summary + factsSize maxBytes facts))

theorem length_cutSummary (maxBytes : Nat) (summary : Option Bytes) :
    (cutSummary maxBytes summary).length = summarySize maxBytes summary := by
  cases summary with
  | none => rfl
  | some text =>
    have hheader : summaryHeader.length = 18 := by decide
    have hend : (ascii "\n\n").length = 2 := by decide
    rw [cutSummary, truncateBytesTail_length, summarySize, Option.map_some, Option.getD_some,
      summaryBlock, List.length_append, List.length_append, hheader, hend]
    omega

theorem length_cutFacts (maxBytes : Nat) (facts : List Bytes) :
    (cutFacts maxBytes facts).length = factsSize maxBytes facts := by
  rw [cutFacts, factsSize]
  split
  · rfl
  · rw [truncateBytesTail_length]

/-- The summary decides on what stands before it, and the rest on itself. -/
theorem validUtf8_cutSummary_append {maxBytes : Nat} {summary : Option Bytes}
    (h : ∀ text ∈ summary, validUtf8 text = true) (rest : Bytes) :
    validUtf8 (cutSummary maxBytes summary ++ rest) = true ↔
      (∀ text ∈ summary,
        Boundary (summaryBlock text) (cutStart (summaryBlock text) (min maxBytes 2400))) ∧
      validUtf8 rest = true := by
  cases summary with
  | none =>
    rw [cutSummary, List.nil_append]
    exact ⟨fun hrest => ⟨fun _ h => (Option.not_mem_none _ h).elim, hrest⟩, fun hall => hall.2⟩
  | some text =>
    have hblock := validUtf8_summaryBlock (h text rfl)
    rw [cutSummary, truncateBytesTail_eq_drop, validUtf8_drop_append_iff hblock]
    exact and_congr_left fun _ => ⟨fun hcut other hother => Option.some.inj hother ▸ hcut,
      fun hall => hall text rfl⟩

theorem validUtf8_cutFacts_append {maxBytes : Nat} {facts : List Bytes}
    (h : ∀ fact ∈ facts, validUtf8 fact = true) (rest : Bytes) :
    validUtf8 (cutFacts maxBytes facts ++ rest) = true ↔
      (facts ≠ [] →
        Boundary (factsBlock facts) (cutStart (factsBlock facts) (min maxBytes 1200))) ∧
      validUtf8 rest = true := by
  rw [cutFacts]
  split
  · rename_i hnil
    rw [List.nil_append]
    exact ⟨fun hrest => ⟨fun hne => absurd hnil hne, hrest⟩, fun hall => hall.2⟩
  · rename_i hne
    rw [truncateBytesTail_eq_drop, validUtf8_drop_append_iff (validUtf8_factsBlock h)]
    exact and_congr_left fun _ => ⟨fun hcut _ => hcut, fun hall => hall hne⟩

/-- Nothing of a piece is left, or both its ends are between characters. -/
theorem validUtf8_slice_iff {s : Bytes} (h : validUtf8 s = true) (k : Nat) {n : Nat} (hn : 0 < n) :
    validUtf8 ((s.drop k).take n) = true ↔ Boundary s k ∧ Boundary s (k + n) := by
  by_cases hk : Boundary s k
  · rw [validUtf8_take_iff ((validUtf8_drop_iff h k).mpr hk), Boundary, Boundary,
      List.getElem?_drop]
    exact (and_iff_right hk).symm
  · refine iff_of_false (fun hvalid => hk ?_) fun hboth => hk hboth.1
    intro b hb
    obtain ⟨hlt, rfl⟩ := List.getElem?_eq_some_iff.mp hb
    obtain ⟨m, rfl⟩ := Nat.exists_eq_add_of_le' hn
    rw [List.drop_eq_getElem_cons hlt, List.take_succ_cons] at hvalid
    exact isContinuation_head hvalid

section Assembled
variable {maxBytes : Nat} {summary : Option Bytes} {facts : List Bytes} {context : Bytes}

theorem length_front :
    (cutSummary maxBytes summary ++ cutFacts maxBytes facts).length =
      summarySize maxBytes summary + factsSize maxBytes facts := by
  rw [List.length_append, length_cutSummary, length_cutFacts]

theorem summarySize_le : summarySize maxBytes summary ≤ maxBytes := by
  cases summary with
  | none => exact Nat.zero_le _
  | some text =>
    rw [summarySize, Option.map_some, Option.getD_some]
    omega

/-- The blocks take up the budget. -/
theorem validUtf8_front_iff (hsummary : ∀ text ∈ summary, validUtf8 text = true)
    (hfacts : ∀ fact ∈ facts, validUtf8 fact = true)
    (hfull : maxBytes ≤ summarySize maxBytes summary + factsSize maxBytes facts) :
    validUtf8 ((cutSummary maxBytes summary ++ cutFacts maxBytes facts).take maxBytes) = true ↔
      ContextWhole maxBytes summary facts context := by
  have hsize := length_cutSummary maxBytes summary
  have hle : summarySize maxBytes summary ≤ maxBytes := summarySize_le
  have hnone : ¬ 4 ≤ maxBytes - (summarySize maxBytes summary + factsSize maxBytes facts) := by
    omega
  rw [List.take_append, List.take_of_length_le (by omega), hsize,
    validUtf8_cutSummary_append hsummary]
  by_cases hroom : facts ≠ [] ∧ summarySize maxBytes summary < maxBytes
  · obtain ⟨hne, hlt⟩ := hroom
    rw [cutFacts, if_neg hne, truncateBytesTail_eq_drop,
      validUtf8_slice_iff (validUtf8_factsBlock hfacts) _ (by omega)]
    exact ⟨fun h => ⟨h.1, fun _ _ => h.2.1, fun _ _ => h.2.2, fun h => absurd h hnone⟩,
      fun h => ⟨h.summaryCut, h.factsCut hne hlt, h.frontCut hne hlt⟩⟩
  · have hempty :
        (cutFacts maxBytes facts).take (maxBytes - summarySize maxBytes summary) = [] := by
      by_cases hnil : facts = []
      · rw [cutFacts, if_pos hnil, List.take_nil]
      · have hlt : ¬ summarySize maxBytes summary < maxBytes := fun hlt => hroom ⟨hnil, hlt⟩
        rw [Nat.sub_eq_zero_of_le (Nat.le_of_not_lt hlt), List.take_zero]
    rw [hempty]
    exact ⟨fun h => ⟨h.1, fun hne hlt => absurd ⟨hne, hlt⟩ hroom,
      fun hne hlt => absurd ⟨hne, hlt⟩ hroom, fun h => absurd h hnone⟩,
      fun h => ⟨h.summaryCut, rfl⟩⟩

/-- The part of the context that is kept after the blocks. -/
theorem validUtf8_context_iff (hcontext : validUtf8 context = true) {frontSize : Nat} :
    validUtf8 (if contextRoom maxBytes frontSize = 0 then []
        else if context.length ≤ contextRoom maxBytes frontSize then context
        else contextCompacted.drop
            (contextCompacted.length + contextRoom maxBytes frontSize - (maxBytes - frontSize)) ++
          context.drop (context.length - contextRoom maxBytes frontSize)) = true ↔
      (4 ≤ maxBytes - frontSize →
        Boundary context (context.length - contextRoom maxBytes frontSize)) := by
  have hmarker : ∀ k, validUtf8 (contextCompacted.drop k) = true := by
    intro k
    have hall : (contextCompacted.all fun b => !isContinuation b) = true := by decide
    refine (validUtf8_drop_iff (by decide) k).mpr fun b hb => ?_
    have hnot := List.all_eq_true.mp hall b (List.mem_of_getElem? hb)
    rwa [Bool.not_eq_true'] at hnot
  split
  · rename_i hzero
    refine iff_of_true rfl fun hroom => ?_
    rw [contextRoom] at hzero
    omega
  · rename_i hroom
    have hfour : 4 ≤ maxBytes - frontSize := by
      rw [contextRoom] at hroom
      omega
    split
    · rename_i hfits
      rw [Nat.sub_eq_zero_of_le hfits]
      exact iff_of_true hcontext fun _ => boundary_zero hcontext
    · rw [validUtf8_append_right_iff (hmarker _), validUtf8_drop_iff hcontext]
      exact ⟨fun h _ => h, fun h => h hfour⟩

theorem validUtf8_assemble_iff (hsummary : ∀ text ∈ summary, validUtf8 text = true)
    (hfacts : ∀ fact ∈ facts, validUtf8 fact = true) (hcontext : validUtf8 context = true) :
    validUtf8 (assemble contextCompacted maxBytes
        (cutSummary maxBytes summary ++ cutFacts maxBytes facts) context).1 = true ↔
      ContextWhole maxBytes summary facts context := by
  rw [assemble_eq, length_front]
  by_cases hfull : maxBytes ≤ summarySize maxBytes summary + factsSize maxBytes facts
  · rw [if_pos hfull]
    exact validUtf8_front_iff hsummary hfacts hfull
  · rw [if_neg hfull]
    have hlt : summarySize maxBytes summary < maxBytes := by omega
    have htail := @validUtf8_context_iff maxBytes context hcontext
      (summarySize maxBytes summary + factsSize maxBytes facts)
    dsimp only
    have hjoin : ∀ (p q : Prop) [Decidable p] [Decidable q] (front a b c : Bytes),
        (if p then front else if q then front ++ a else front ++ b ++ c) =
          front ++ (if p then [] else if q then a else b ++ c) := by
      intro p q _ _ front a b c
      split
      · rw [List.append_nil]
      · split
        · rfl
        · rw [List.append_assoc]
    rw [hjoin, List.append_assoc, validUtf8_cutSummary_append hsummary,
      validUtf8_cutFacts_append hfacts, htail]
    have hend : facts ≠ [] → (factsBlock facts).length ≤
        cutStart (factsBlock facts) (min maxBytes 1200) +
          (maxBytes - summarySize maxBytes summary) := by
      intro hne
      rw [factsSize, if_neg hne] at hfull
      rw [cutStart]
      omega
    exact ⟨fun h => ⟨h.1, fun hne _ => h.2.1 hne, fun hne _ => boundary_of_length_le (hend hne),
      h.2.2⟩, fun h => ⟨h.summaryCut, fun hne => h.factsCut hne hlt, h.contextCut⟩⟩

end Assembled

theorem validUtf8_compactedContext_iff {parse : Bytes → Option Json}
    (hparse : ∀ text j, parse text = some j → j.encodable = true) {context : Bytes}
    (hcontext : validUtf8 context = true) (allowed : Int) {state : Option ThreadCompactionState}
    (hsummary : ∀ text ∈ summaryOf state, validUtf8 text = true) :
    validUtf8 (buildCompactedContext parse context allowed state).text = true ↔
      (0 < allowed →
        ContextWhole (allowed * 4).toNat (summaryOf state) (factsOf parse state) context) := by
  unfold buildCompactedContext
  by_cases hallowed : allowed ≤ 0
  · rw [if_pos hallowed]
    exact iff_of_true rfl fun h => absurd hallowed (Int.not_le.mpr h)
  · rw [if_neg hallowed]
    dsimp only
    have hfacts : ∀ fact ∈ factsOf parse state, validUtf8 fact = true := fun fact hfact =>
      validUtf8_parsePinnedFacts hparse hfact
    rw [validUtf8_assemble_iff hsummary hfacts hcontext]
    exact ⟨fun h _ => h, fun h => h (Int.not_le.mp hallowed)⟩

/-! The stored summary -/

/-- The bytes of the context's tail in the stored summary. -/
def tailSize (context : Bytes) : Nat := if context.length ≤ 3200 then context.length else 3220

/-- Neither cut of `roll_thread_compaction_state` is inside a character. -/
structure RollWhole (rolling context : Bytes) : Prop where
  contextCut : Boundary context (context.length - 3200)
  rollingCut : rolling ≠ [] → context ≠ [] →
    Boundary rolling (rolling.length + 1 + tailSize context - 6000)

theorem rollTail (context : Bytes) :
    (compactContextTail contextCompacted context 800).1 =
      if context.length ≤ 3200 then context
      else contextCompacted ++ context.drop (context.length - 3200) := by
  have hallowed : (800 : Int) = (800 : Nat) := rfl
  rw [hallowed, compactContextTail_eq, if_neg (by decide)]
  split
  · rfl
  · rfl

theorem length_rollTail (context : Bytes) :
    (compactContextTail contextCompacted context 800).1.length = tailSize context := by
  have hmarker : contextCompacted.length = 20 := by decide
  rw [rollTail, tailSize]
  split
  · rfl
  · rw [List.length_append, List.length_drop, hmarker]
    omega

theorem validUtf8_rollTail_iff {context : Bytes} (h : validUtf8 context = true) :
    validUtf8 (compactContextTail contextCompacted context 800).1 = true ↔
      Boundary context (context.length - 3200) := by
  rw [rollTail]
  split
  · rename_i hfits
    rw [Nat.sub_eq_zero_of_le hfits]
    exact iff_of_true h (boundary_zero h)
  · rw [validUtf8_append_right_iff (by decide), validUtf8_drop_iff h]

theorem rollTail_eq_nil_iff (context : Bytes) :
    (compactContextTail contextCompacted context 800).1 = [] ↔ context = [] := by
  rw [← List.length_eq_zero_iff, length_rollTail, ← List.length_eq_zero_iff, tailSize]
  split
  · exact Iff.rfl
  · omega

theorem boundary_append_newline {s : Bytes} (k : Nat) :
    Boundary (s ++ ascii "\n") k ↔ Boundary s k := by
  unfold Boundary
  rw [List.getElem?_append]
  split
  · exact Iff.rfl
  · rename_i hlength
    rw [List.getElem?_eq_none (Nat.le_of_not_lt hlength)]
    refine iff_of_true (fun b hb => ?_) fun b hb => (Option.not_mem_none _ hb).elim
    have hnewline : ascii "\n" = [10] := by decide
    rw [hnewline] at hb
    have hb10 := List.mem_singleton.mp (List.mem_of_getElem? hb)
    rw [hb10]
    decide

theorem validUtf8_rollSummary_iff {rolling context : Bytes} (hrolling : validUtf8 rolling = true)
    (hcontext : validUtf8 context = true) :
    validUtf8 (rollSummary rolling context) = true ↔ RollWhole rolling context := by
  have htail := validUtf8_rollTail_iff hcontext
  have hlength := length_rollTail context
  have hnil := rollTail_eq_nil_iff context
  have hsize : tailSize context ≤ 3220 := by
    rw [tailSize]
    split <;> omega
  unfold rollSummary
  dsimp only
  generalize (compactContextTail contextCompacted context 800).1 = tail at htail hlength hnil ⊢
  by_cases hempty : context = []
  · rw [if_pos (hnil.mpr hempty), hempty]
    exact iff_of_true hrolling ⟨boundary_of_length_le (Nat.zero_le _), fun _ h => absurd rfl h⟩
  · rw [if_neg fun h => hempty (hnil.mp h)]
    by_cases hfirst : rolling = []
    · rw [if_pos hfirst, List.nil_append, if_neg (by omega), htail]
      exact ⟨fun h => ⟨h, fun hne => absurd hfirst hne⟩, fun h => h.contextCut⟩
    · have hjoined : validUtf8 (rolling ++ ascii "\n") = true :=
        validUtf8_append hrolling (by decide)
      have hnewline : (rolling ++ ascii "\n").length = rolling.length + 1 := by
        rw [List.length_append]
        rfl
      have hwhole :
          (rolling ++ ascii "\n" ++ tail).length = rolling.length + 1 + tailSize context := by
        rw [List.length_append, hnewline, hlength]
      rw [if_neg hfirst, hwhole]
      have hcut : validUtf8 ((rolling ++ ascii "\n" ++ tail).drop
          (rolling.length + 1 + tailSize context - 6000)) = true ↔ RollWhole rolling context := by
        rw [List.drop_append_of_le_length (by omega), validUtf8_drop_append_iff hjoined,
          boundary_append_newline, htail]
        exact ⟨fun h => ⟨h.2, fun _ _ => h.1⟩, fun h => ⟨h.rollingCut hfirst hempty, h.contextCut⟩⟩
      split
      · rwa [truncateBytesTail_eq_drop, hwhole]
      · rename_i hshort
        rwa [Nat.sub_eq_zero_of_le (by omega), List.drop_zero] at hcut

/-! The summary of a model -/

theorem validUtf8_candidateLines {candidate line : Bytes} (h : validUtf8 candidate = true)
    (hline : line ∈ candidateLines candidate) : validUtf8 line = true := by
  obtain ⟨piece, hpiece, rfl⟩ := List.mem_map.mp (List.mem_of_mem_filter hline)
  have htext : validUtf8 ((Pieces.trim Runners.isSpace candidate).filter fun b => b ≠ 13) = true :=
    (NudgeTitles.thinned_erase (by decide) _).validUtf8
      ((NudgeTitles.thinned_trimCopy candidate).validUtf8 h)
  rw [List.splitOn_eq_splitOnP] at hpiece
  exact (NudgeTitles.thinned_trimCopy piece).validUtf8
    (validUtf8_of_mem_splitOnP (fun _ => NudgeTitles.isNewline_lt) htext hpiece)

theorem validUtf8_bulletize {line : Bytes} (h : validUtf8 line = true) :
    validUtf8 (bulletize line) = true := by
  have hmarked : validUtf8 (ascii "- " ++ line) = true := validUtf8_append (by decide) h
  unfold bulletize
  split
  · rfl
  · split
    · exact h
    · split
      · rename_i digit rest _ _
        split
        · rename_i hdigit
          have hsmall : digit.toNat < 0x80 := by
            simp only [isDigit, Bool.and_eq_true, decide_eq_true_eq] at hdigit
            omega
          have hrest : validUtf8 rest = true :=
            (Thinned.skip hsmall (.skip (by decide) (.skip (by decide) (.refl rest)))).validUtf8 h
          exact validUtf8_append (by decide) hrest
        · exact hmarked
      · exact hmarked

theorem validUtf8_sectionText (s : RollingSummary.SummarySection) {items : List Bytes}
    (h : ∀ item ∈ items, validUtf8 item = true) : validUtf8 (sectionText s items) = true := by
  have hheading : validUtf8 (s.heading ++ ascii "\n") = true := by cases s <;> decide
  refine validUtf8_append hheading ?_
  split
  · decide
  · refine validUtf8_append (validUtf8_flatMap fun line hline => ?_) (by decide)
    exact validUtf8_append (h line (List.mem_of_mem_take hline)) (by decide)

theorem validUtf8_draft {candidate : Bytes} (h : validUtf8 candidate = true) {d : Draft}
    (hd : draft (candidateLines candidate) = some d) :
    validUtf8 (summaryText d.buckets) = true := by
  refine validUtf8_flatMap fun s _ => validUtf8_sectionText s fun item hitem => ?_
  obtain ⟨line, hline, rfl⟩ := RollingSummary.madeOf_draft hd s item hitem
  exact validUtf8_bulletize (validUtf8_candidateLines h hline)

/-- The cut at the limit, where there is one, is not inside a character. -/
def SummaryWhole (candidate : Bytes) (maxSummaryChars : Int) : Prop :=
  0 < maxSummaryChars → ∀ d, draft (candidateLines candidate) = some d →
    Boundary (summaryText d.buckets) maxSummaryChars.toNat

theorem validUtf8_summary_iff {candidate : Bytes} (h : validUtf8 candidate = true)
    {previous : Option Bytes} {maxSummaryChars : Int}
    (haccepted :
      (normalizeAndValidateRollingSummary candidate previous maxSummaryChars).accepted = true) :
    validUtf8 (normalizeAndValidateRollingSummary candidate previous maxSummaryChars).summary =
        true ↔ SummaryWhole candidate maxSummaryChars := by
  obtain ⟨d, hdraft, htext, -⟩ := RollingSummary.accepted_draft haccepted
  change draft (candidateLines candidate) = some d at hdraft
  have hvalid := validUtf8_draft h hdraft
  have hwhole : SummaryWhole candidate maxSummaryChars ↔
      (0 < maxSummaryChars → Boundary (summaryText d.buckets) maxSummaryChars.toNat) := by
    refine forall_congr' fun _ => ⟨fun hall => hall d hdraft, fun hcut e he => ?_⟩
    cases hdraft.symm.trans he
    exact hcut
  rw [htext, hwhole, truncated]
  split
  · rename_i hcut
    rw [validUtf8_take_iff hvalid]
    exact ⟨fun h _ => h, fun h => h hcut.1⟩
  · rename_i hcut
    refine iff_of_true hvalid fun hlimit => boundary_of_length_le ?_
    omega

/-! Encoding -/

theorem encodable_optionalString (text : Option Bytes) :
    (AiDurability.optionalString text).encodable = true ↔ ∀ s ∈ text, validUtf8 s = true := by
  cases text with
  | none => exact iff_of_true rfl fun _ h => (Option.not_mem_none _ h).elim
  | some s => exact ⟨fun h t ht => Option.some.inj ht ▸ h, fun h => h s rfl⟩

theorem encodable_stateJson_iff {s : ThreadCompactionState} (hid : validUtf8 s.threadId.val = true)
    (hfacts : ∀ text ∈ s.pinnedFactsJson, validUtf8 text = true)
    (hlast : ∀ text ∈ s.lastCompactedMessageId, validUtf8 text = true) :
    (stateJson s).encodable = true ↔ ∀ text ∈ s.rollingSummary, validUtf8 text = true := by
  rw [← encodable_optionalString] at hfacts hlast ⊢
  have hkeys : ([ascii "version", ascii "thread_id", ascii "rolling_summary",
      ascii "pinned_facts_json", ascii "last_compacted_message_id", ascii "updated_at"].all
      validUtf8) = true := by decide
  simp only [List.all_cons, List.all_nil, Bool.and_true, Bool.and_eq_true] at hkeys
  obtain ⟨hversion, hthread, hsummary, hpinned, hmessage, hupdated⟩ := hkeys
  rw [stateJson, Json.encodable_object (by simp [ascii_inj])]
  simp only [List.all_cons, List.all_nil, hversion, hthread, hsummary, hpinned, hmessage, hupdated,
    Json.encodable, hid, hfacts, hlast, Bool.true_and, Bool.and_true]

/-- Each text that compaction makes is UTF-8 where none of its cuts is inside a character, and a
thread's state can be encoded where its summary is. -/
theorem compaction_utf8 {parse : Bytes → Option Json}
    (hparse : ∀ text j, parse text = some j → j.encodable = true) {context : Bytes}
    (hcontext : validUtf8 context = true) :
    (∀ (allowed : Int) (state : Option ThreadCompactionState),
      (∀ text ∈ summaryOf state, validUtf8 text = true) →
      (validUtf8 (buildCompactedContext parse context allowed state).text = true ↔
        (0 < allowed →
          ContextWhole (allowed * 4).toNat (summaryOf state) (factsOf parse state) context))) ∧
    (∀ rolling, validUtf8 rolling = true →
      (validUtf8 (rollSummary rolling context) = true ↔ RollWhole rolling context)) ∧
    (∀ (candidate : Bytes) (previous : Option Bytes) (maxSummaryChars : Int),
      validUtf8 candidate = true →
      (normalizeAndValidateRollingSummary candidate previous maxSummaryChars).accepted = true →
      (validUtf8 (normalizeAndValidateRollingSummary candidate previous maxSummaryChars).summary =
        true ↔ SummaryWhole candidate maxSummaryChars)) ∧
    ∀ s : ThreadCompactionState, validUtf8 s.threadId.val = true →
      (∀ text ∈ s.pinnedFactsJson, validUtf8 text = true) →
      (∀ text ∈ s.lastCompactedMessageId, validUtf8 text = true) →
      ((stateJson s).encodable = true ↔ ∀ text ∈ s.rollingSummary, validUtf8 text = true) :=
  ⟨fun allowed _ => validUtf8_compactedContext_iff hparse hcontext allowed,
    fun _ hrolling => validUtf8_rollSummary_iff hrolling hcontext,
    fun _ _ _ hcandidate => validUtf8_summary_iff hcandidate,
    fun _ => encodable_stateJson_iff⟩

theorem compaction_utf8_hello :
    (∀ (allowed : Int) (state : Option ThreadCompactionState),
      (∀ text ∈ summaryOf state, validUtf8 text = true) →
      (validUtf8 (buildCompactedContext (fun _ => none) (ascii "hello") allowed state).text = true ↔
        (0 < allowed → ContextWhole (allowed * 4).toNat (summaryOf state)
          (factsOf (fun _ => none) state) (ascii "hello")))) ∧
    (∀ rolling, validUtf8 rolling = true →
      (validUtf8 (rollSummary rolling (ascii "hello")) = true ↔
        RollWhole rolling (ascii "hello"))) ∧
    (∀ (candidate : Bytes) (previous : Option Bytes) (maxSummaryChars : Int),
      validUtf8 candidate = true →
      (normalizeAndValidateRollingSummary candidate previous maxSummaryChars).accepted = true →
      (validUtf8 (normalizeAndValidateRollingSummary candidate previous maxSummaryChars).summary =
        true ↔ SummaryWhole candidate maxSummaryChars)) ∧
    ∀ s : ThreadCompactionState, validUtf8 s.threadId.val = true →
      (∀ text ∈ s.pinnedFactsJson, validUtf8 text = true) →
      (∀ text ∈ s.lastCompactedMessageId, validUtf8 text = true) →
      ((stateJson s).encodable = true ↔ ∀ text ∈ s.rollingSummary, validUtf8 text = true) :=
  @compaction_utf8 (fun _ => none) (fun _ _ h => by cases h) (ascii "hello") (by decide)

/-- A budget of one token for five bytes, and a stored summary of 3201. -/
theorem compaction_utf8_fails :
    let context : Bytes := [0xC3, 0xA9] ++ ascii "abc"
    let long : Bytes := [0xC3, 0xA9] ++ List.replicate 3199 97
    validUtf8 context = true ∧
    validUtf8 (buildCompactedContext (fun _ => none) context 1 none).text = false ∧
    validUtf8 long = true ∧ validUtf8 (rollSummary [] long) = false ∧
    (stateJson ⟨cString (ascii "t1"), some (rollSummary [] long), none, none, 0⟩).encodable =
      false := by
  intro context long
  have hlong : validUtf8 long = true := by
    have hletters : ∀ n, validUtf8 (List.replicate n 97) = true := fun n => by
      induction n with
      | zero => rfl
      | succ n ih => exact validUtf8_append (by decide : validUtf8 [97] = true) ih
    exact validUtf8_append (by decide) (hletters 3199)
  have hroll : validUtf8 (rollSummary [] long) = false := by
    rw [Bool.eq_false_iff, ne_eq, validUtf8_rollSummary_iff rfl hlong]
    intro hwhole
    have hlength : long.length - 3200 = 1 := by
      rw [List.length_append, List.length_replicate]
      rfl
    have hcut := hwhole.contextCut
    rw [hlength] at hcut
    exact absurd (hcut 0xA9 rfl) (by decide)
  refine ⟨by decide, by decide +kernel, hlong, hroll, ?_⟩
  rw [Bool.eq_false_iff, ne_eq, encodable_stateJson_iff (by decide) (fun _ h => by cases h)
    fun _ h => by cases h]
  intro hall
  rw [hall _ rfl] at hroll
  cases hroll

end Compaction

end HolderDaemon
