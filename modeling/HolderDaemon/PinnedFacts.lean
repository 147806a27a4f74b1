import HolderDaemon.ThreadCompaction

/-!
The pinned facts of a thread (`merge_pinned_facts_json` in `api/support/ThreadCompaction.cpp`):
which facts a merge keeps, and how many a thread can come to have.
-/

set_option autoImplicit false

open Bytes

namespace HolderDaemon

namespace Compaction

open AiDurability (State StateRow ThreadCompactionState)

/-! Values in the order of their first occurrence -/

section Distinct
variable {α : Type} [BEq α] [LawfulBEq α]

def insertNew (merged : List α) (value : α) : List α :=
  if value ∈ merged then merged else merged ++ [value]

theorem foldl_insertNew (merged values : List α) :
    values.foldl insertNew merged =
      merged ++ (values.filter fun value => value ∉ merged).eraseDups := by
  induction values generalizing merged with
  | nil => simp
  | cons value values ih =>
    rw [List.foldl_cons, ih, insertNew]
    by_cases hmem : value ∈ merged
    · rw [if_pos hmem, List.filter_cons_of_neg (by simpa using hmem)]
    · rw [if_neg hmem, List.filter_cons_of_pos (by simpa using hmem), List.eraseDups_cons,
        List.append_assoc, List.singleton_append, List.filter_filter]
      congr 3
      refine List.filter_congr fun other _ => ?_
      rw [Bool.eq_iff_iff]
      simp [or_comm]

theorem foldl_insertNew_nil (values : List α) : values.foldl insertNew [] = values.eraseDups := by
  rw [foldl_insertNew]
  simp

theorem insertNew_append (merged : List α) (value : α) :
    ∃ more, insertNew merged value = merged ++ more ∧ more.length ≤ 1 := by
  unfold insertNew
  split
  · exact ⟨[], by simp, by simp⟩
  · exact ⟨[value], rfl, by simp⟩

theorem take_foldl_insertNew {merged : List α} (values : List α) {n : Nat}
    (h : n ≤ merged.length) : (values.foldl insertNew merged).take n = merged.take n := by
  rw [foldl_insertNew, List.take_append_of_le_length h]

theorem nodup_eraseDups (values : List α) : values.eraseDups.Nodup := by
  rw [← foldl_insertNew_nil]
  suffices h : ∀ merged : List α, merged.Nodup → (values.foldl insertNew merged).Nodup from
    h [] List.nodup_nil
  induction values with
  | nil => exact fun _ h => h
  | cons value values ih =>
    intro merged h
    refine ih _ ?_
    unfold insertNew
    split
    · exact h
    · rename_i hnew
      refine List.nodup_append'.mpr ⟨h, List.nodup_singleton value, ?_⟩
      exact fun other hother hsame => hnew (List.mem_singleton.mp hsame ▸ hother)

theorem eraseDups_of_nodup {values : List α} (h : values.Nodup) : values.eraseDups = values := by
  induction values with
  | nil => rfl
  | cons value values ih =>
    rw [List.nodup_cons] at h
    have hall : (values.filter fun other => !other == value) = values := by
      refine List.filter_eq_self.mpr fun other hother => ?_
      have hne : other ≠ value := fun heq => h.1 (heq ▸ hother)
      simpa using hne
    rw [List.eraseDups_cons, hall, ih h.2]

end Distinct

/-- Within the limit, a call of `append` adds what is new up to it. -/
theorem appendFacts_eq {merged values : List Bytes} (hvalues : ∀ value ∈ values, value ≠ [])
    (h : merged.length < 24) :
    appendFacts merged values = (values.foldl insertNew merged).take 24 := by
  induction values generalizing merged with
  | nil => exact (List.take_of_length_le (Nat.le_of_lt h)).symm
  | cons value values ih =>
    rw [List.forall_mem_cons] at hvalues
    obtain ⟨more, hmore, hlength⟩ := insertNew_append merged value
    have hstep : appendFacts merged (value :: values) =
        if 24 ≤ (insertNew merged value).length then insertNew merged value
        else appendFacts (insertNew merged value) values := by
      rw [appendFacts, if_neg hvalues.1]
      rfl
    rw [hstep, List.foldl_cons]
    split
    · rename_i hfull
      have hall : (insertNew merged value).length = 24 := by
        rw [hmore, List.length_append] at hfull ⊢
        omega
      rw [take_foldl_insertNew values hfull, List.take_of_length_le (Nat.le_of_eq hall)]
    · rename_i hroom
      exact ih hvalues.2 (Nat.lt_of_not_le hroom)

/-- At the limit, a call of `append` looks at its first value all the same. -/
theorem appendFacts_full {merged values : List Bytes} (hvalues : ∀ value ∈ values, value ≠ [])
    (h : 24 ≤ merged.length) :
    appendFacts merged values = (values.take 1).foldl insertNew merged := by
  cases values with
  | nil => rfl
  | cons value values =>
    obtain ⟨more, hmore, -⟩ := insertNew_append merged value
    have hlong : 24 ≤ (insertNew merged value).length := by
      rw [hmore, List.length_append]
      omega
    rw [appendFacts, if_neg (hvalues value List.mem_cons_self)]
    exact if_pos hlong

section Merge
variable (parse : Bytes → Option Json)

def mergedFacts (current incoming : Option Bytes) : List Bytes :=
  appendFacts (appendFacts [] (parsePinnedFacts parse current)) (parsePinnedFacts parse incoming)

/-- The first 24 facts of the two lists, each once. -/
def firstFacts (current incoming : Option Bytes) : List Bytes :=
  (parsePinnedFacts parse current ++ parsePinnedFacts parse incoming).eraseDups.take 24

def factsJson (facts : List Bytes) : Json := .arr (facts.map .str)

/-- How a list of facts is stored: null where there are none. -/
def storedFacts (facts : List Bytes) : Except Json.Error (Option Bytes) :=
  if facts = [] then .ok none else (factsJson facts).dump.map some

/-- The current facts are fewer than 24, or the first of the incoming ones, where there is one, is
among their first 24. -/
def MergeFits (current incoming : Option Bytes) : Prop :=
  (parsePinnedFacts parse current).eraseDups.length < 24 ∨
    ∀ fact ∈ (parsePinnedFacts parse incoming).head?,
      fact ∈ (parsePinnedFacts parse current).eraseDups.take 24

end Merge

section Merge
variable {parse : Bytes → Option Json}

theorem mem_parsePinnedFacts {raw : Option Bytes} {fact : Bytes}
    (h : fact ∈ parsePinnedFacts parse raw) :
    fact ≠ [] ∧ ∃ text items, parse text = some (.arr items) ∧ .str fact ∈ items := by
  unfold parsePinnedFacts at h
  split at h
  · cases h
  · split at h
    · cases h
    · split at h
      · rename_i items hitems
        obtain ⟨item, hitem, hfact⟩ := List.mem_filterMap.mp h
        split at hfact
        · rename_i text
          split at hfact
          · cases hfact
          · rename_i hne
            cases hfact
            exact ⟨hne, _, items, hitems, hitem⟩
        · cases hfact
      · cases h

/-- The first call of `append`. -/
theorem appendFacts_nil (raw : Option Bytes) :
    appendFacts [] (parsePinnedFacts parse raw) =
      (parsePinnedFacts parse raw).eraseDups.take 24 := by
  rw [appendFacts_eq (fun fact hf => (mem_parsePinnedFacts hf).1) (by decide),
    foldl_insertNew_nil]

theorem firstFacts_of_le {current incoming : Option Bytes}
    (h : 24 ≤ (parsePinnedFacts parse current).eraseDups.length) :
    firstFacts parse current incoming = (parsePinnedFacts parse current).eraseDups.take 24 := by
  rw [firstFacts, ← foldl_insertNew_nil, List.foldl_append, foldl_insertNew_nil,
    take_foldl_insertNew _ h]

theorem mergedFacts_of_lt {current incoming : Option Bytes}
    (h : (parsePinnedFacts parse current).eraseDups.length < 24) :
    mergedFacts parse current incoming = firstFacts parse current incoming := by
  rw [mergedFacts, appendFacts_nil, List.take_of_length_le (Nat.le_of_lt h),
    appendFacts_eq (fun fact hf => (mem_parsePinnedFacts hf).1) h,
    ← foldl_insertNew_nil, ← List.foldl_append, foldl_insertNew_nil, firstFacts]

/-- Where the current facts are 24 or more, one of the incoming ones may come after them. -/
theorem mergedFacts_of_le {current incoming : Option Bytes}
    (h : 24 ≤ (parsePinnedFacts parse current).eraseDups.length) :
    mergedFacts parse current incoming =
      ((parsePinnedFacts parse incoming).take 1).foldl insertNew
        (firstFacts parse current incoming) := by
  have hlength : 24 ≤ ((parsePinnedFacts parse current).eraseDups.take 24).length := by
    rw [List.length_take]
    omega
  rw [mergedFacts, appendFacts_nil, firstFacts_of_le h,
    appendFacts_full (fun fact hf => (mem_parsePinnedFacts hf).1) hlength]

variable (parse) in
theorem mergedFacts_cases (current incoming : Option Bytes) :
    (MergeFits parse current incoming ∧
        mergedFacts parse current incoming = firstFacts parse current incoming) ∨
      (¬ MergeFits parse current incoming ∧
        ∃ fact ∈ parsePinnedFacts parse incoming, mergedFacts parse current incoming =
          firstFacts parse current incoming ++ [fact]) := by
  by_cases hlt : (parsePinnedFacts parse current).eraseDups.length < 24
  · exact .inl ⟨.inl hlt, mergedFacts_of_lt hlt⟩
  · have hfirst : firstFacts parse current incoming = _ := firstFacts_of_le (Nat.le_of_not_lt hlt)
    rw [mergedFacts_of_le (Nat.le_of_not_lt hlt)]
    cases hincoming : parsePinnedFacts parse incoming with
    | nil => exact .inl ⟨.inr (by simp [hincoming]), rfl⟩
    | cons fact facts =>
      by_cases hmem : fact ∈ firstFacts parse current incoming
      · refine .inl ⟨.inr ?_, if_pos hmem⟩
        simpa [hincoming, ← hfirst] using hmem
      · refine .inr ⟨?_, fact, List.mem_cons_self, if_neg hmem⟩
        rintro (hless | hhead)
        · exact hlt hless
        · exact hmem (hfirst ▸ hhead fact (by rw [hincoming]; rfl))

end Merge

/-! Stored facts -/

theorem mergePinnedFactsJson_eq (parse : Bytes → Option Json) (current incoming : Option Bytes) :
    mergePinnedFactsJson parse current incoming =
      storedFacts (mergedFacts parse current incoming) := rfl

def quoted (s : Bytes) : Bytes := ascii "\"" ++ s.flatMap Json.escapeByte ++ ascii "\""

theorem dump_factsJson {facts : List Bytes} (h : ∀ fact ∈ facts, validUtf8 fact = true) :
    (factsJson facts).dump =
      .ok (ascii "[" ++ Json.separated (facts.map quoted) ++ ascii "]") := by
  have hitems : Json.dumpItems (facts.map .str) = .ok (facts.map quoted) := by
    induction facts with
    | nil => rfl
    | cons fact facts ih =>
      rw [List.forall_mem_cons] at h
      rw [List.map_cons, Json.dumpItems, Json.dump, Json.dumpString, if_pos h.1, ih h.2]
      rfl
  rw [factsJson, Json.dump, hitems]
  rfl

theorem separated_length_lt {parts : List Bytes} {part : Bytes} (h : part ≠ []) :
    (Json.separated parts).length < (Json.separated (parts ++ [part])).length := by
  have hpart := List.length_pos_iff.mpr h
  induction parts with
  | nil => exact hpart
  | cons first parts ih =>
    cases parts with
    | nil =>
      simp only [List.cons_append, List.nil_append, Json.separated, List.length_append]
      omega
    | cons second parts =>
      simp only [List.cons_append, Json.separated, List.length_append] at ih ⊢
      omega

/-- One fact more is another text. -/
theorem storedFacts_ne {facts : List Bytes} {fact : Bytes}
    (h : ∀ f ∈ facts ++ [fact], validUtf8 f = true) :
    storedFacts (facts ++ [fact]) ≠ storedFacts facts := by
  have hfacts : ∀ f ∈ facts, validUtf8 f = true := fun f hf => h f (List.mem_append_left _ hf)
  rw [storedFacts, if_neg (by simp), dump_factsJson h, storedFacts]
  split
  · exact fun heq => by cases heq
  · rw [dump_factsJson hfacts]
    intro heq
    injection heq with heq
    have hlength := congrArg List.length (Option.some.inj heq)
    have hne : quoted fact ≠ [] := by
      rw [quoted, show ascii "\"" = [34] from by decide]
      exact List.cons_ne_nil _ _
    have hlt : (Json.separated (facts.map quoted)).length < _ := separated_length_lt hne
    rw [List.map_append, List.map_singleton] at hlength
    simp only [List.length_append] at hlength
    omega

theorem zero_notMem_quoted (s : Bytes) : (0 : UInt8) ∉ quoted s :=
  Json.control_notMem_quoted (by decide) s

theorem zero_notMem_separated {parts : List Bytes} (h : ∀ part ∈ parts, (0 : UInt8) ∉ part) :
    (0 : UInt8) ∉ Json.separated parts := by
  have hcomma : (0 : UInt8) ∉ ascii "," := by decide
  induction parts with
  | nil => exact List.not_mem_nil
  | cons first parts ih =>
    rw [List.forall_mem_cons] at h
    cases parts with
    | nil => exact h.1
    | cons second parts =>
      simp only [Json.separated, List.mem_append, not_or]
      exact ⟨⟨h.1, hcomma⟩, ih h.2⟩

section Stored
variable {parse : Bytes → Option Json}

/-- The parser reads the facts that are stored as what they are. -/
def ReadsBack (parse : Bytes → Option Json) : Prop :=
  ∀ current incoming text, (factsJson (mergedFacts parse current incoming)).dump = .ok text →
    parse text = some (factsJson (mergedFacts parse current incoming))

theorem mem_mergedFacts {current incoming : Option Bytes} {fact : Bytes}
    (h : fact ∈ mergedFacts parse current incoming) :
    ∃ raw, fact ∈ parsePinnedFacts parse raw := by
  have hfirst : fact ∈ firstFacts parse current incoming →
      ∃ raw, fact ∈ parsePinnedFacts parse raw := by
    intro hmem
    rcases List.mem_append.mp (List.mem_eraseDups.mp (List.mem_of_mem_take hmem)) with hmem | hmem
    · exact ⟨current, hmem⟩
    · exact ⟨incoming, hmem⟩
  rcases mergedFacts_cases parse current incoming with
    ⟨-, heq⟩ | ⟨-, other, hother, heq⟩
  · exact hfirst (heq ▸ h)
  · rw [heq, List.mem_append, List.mem_singleton] at h
    rcases h with h | rfl
    · exact hfirst h
    · exact ⟨incoming, hother⟩

theorem mergedFacts_utf8 (hvalid : ∀ text j, parse text = some j → j.encodable = true)
    (current incoming : Option Bytes) :
    ∀ fact ∈ mergedFacts parse current incoming, validUtf8 fact = true := by
  intro fact h
  obtain ⟨raw, hraw⟩ := mem_mergedFacts h
  obtain ⟨-, text, items, hparse, hmem⟩ := mem_parsePinnedFacts hraw
  have hitems := hvalid text _ hparse
  rw [Json.encodable, Json.encodableItems_eq, List.all_eq_true] at hitems
  exact hitems _ hmem

/-- What a merge stores is read as what it merged, also from the database. -/
theorem parsePinnedFacts_stored (hvalid : ∀ text j, parse text = some j → j.encodable = true)
    (hread : ReadsBack parse) {current incoming stored : Option Bytes}
    (h : mergePinnedFactsJson parse current incoming = .ok stored) :
    (stored.map cString).map Text.val = stored ∧
      parsePinnedFacts parse stored = mergedFacts parse current incoming := by
  have hutf8 := mergedFacts_utf8 hvalid current incoming
  have hne : ∀ fact ∈ mergedFacts parse current incoming, fact ≠ [] := by
    intro fact hfact
    obtain ⟨raw, hraw⟩ := mem_mergedFacts hfact
    exact (mem_parsePinnedFacts hraw).1
  rw [mergePinnedFactsJson_eq, storedFacts] at h
  split at h
  · rename_i hnil
    cases h
    exact ⟨rfl, hnil.symm⟩
  · have hdump := dump_factsJson hutf8
    rw [hdump] at h
    cases h
    have hparse := hread current incoming _ hdump
    have hzero : (0 : UInt8) ∉ ascii "[" ++
        Json.separated ((mergedFacts parse current incoming).map quoted) ++ ascii "]" := by
      have hparts : (0 : UInt8) ∉
          Json.separated ((mergedFacts parse current incoming).map quoted) :=
        zero_notMem_separated fun part hpart => by
          obtain ⟨fact, -, rfl⟩ := List.mem_map.mp hpart
          exact zero_notMem_quoted fact
      have hopen : (0 : UInt8) ∉ ascii "[" := by decide
      have hclose : (0 : UInt8) ∉ ascii "]" := by decide
      simp only [List.mem_append, not_or]
      exact ⟨⟨hopen, hparts⟩, hclose⟩
    refine ⟨by rw [Option.map_some, Option.map_some, val_cString hzero], ?_⟩
    have hcons : ascii "[" ≠ [] := by decide
    rw [parsePinnedFacts, if_neg (by simp [hcons]), hparse, factsJson]
    dsimp only
    rw [List.filterMap_map]
    refine (List.filterMap_congr fun fact hfact => ?_).trans List.filterMap_some
    rw [Function.comp_apply]
    exact if_neg (hne fact hfact)

theorem firstFacts_self {facts : List Bytes} {raw : Option Bytes} (hnodup : facts.Nodup)
    (hlength : facts.length ≤ 24) (h : parsePinnedFacts parse raw = facts) :
    mergedFacts parse raw raw = facts := by
  have hfirst : firstFacts parse raw raw = facts := by
    have hnone : (facts.filter fun value => value ∉ facts) = [] :=
      List.filter_eq_nil_iff.mpr fun fact hfact => by simpa using hfact
    rw [firstFacts, h, ← foldl_insertNew_nil, List.foldl_append, foldl_insertNew_nil,
      eraseDups_of_nodup hnodup, foldl_insertNew, hnone, List.eraseDups_nil, List.append_nil,
      List.take_of_length_le hlength]
  rcases mergedFacts_cases parse raw raw with ⟨-, heq⟩ | ⟨hnot, -⟩
  · rw [heq, hfirst]
  · refine absurd (.inr fun fact hhead => ?_) hnot
    rw [h] at hhead ⊢
    rw [eraseDups_of_nodup hnodup, List.take_of_length_le hlength]
    exact List.mem_of_mem_head? hhead

end Stored

/-! Threads that are rolled -/

structure Roll where
  threadId : Text
  context : Bytes
  updatedAt : Int64

section Rolls
variable (parse : Bytes → Option Json)

/-- A roll that throws leaves the state as it is. -/
def roll (t : State) (r : Roll) : Option State :=
  some ((rollThreadCompactionState parse t r.threadId r.context r.updatedAt).getD t)

/-- The merge of the roll fits. -/
def RollFits (t : State) (r : Roll) : Prop :=
  MergeFits parse (currentState t r.threadId).pinnedFactsJson
    (extractPinnedFactsJsonFromContext parse r.context)

/-- No thread has more than 24 facts. -/
def FewFacts (t : State) : Prop :=
  ∀ id row, Rows.get StateRow.threadId id t.states = some row →
    (parsePinnedFacts parse (row.pinnedFactsJson.map Text.val)).length ≤ 24

end Rolls

section Rolls
variable {parse : Bytes → Option Json}

theorem persist_states {t u : State} {s : ThreadCompactionState}
    (h : t.persistThreadCompactionState s = some u) : u.states = t.states := by
  unfold State.persistThreadCompactionState at h
  split at h
  · cases h
    rfl
  · split at h
    · dsimp only at h
      split at h
      · cases h
        rfl
      · obtain ⟨path, -, h⟩ := Option.bind_eq_some_iff.mp h
        obtain ⟨raw, -, h⟩ := Option.bind_eq_some_iff.mp h
        cases h
        rfl
    · cases h

theorem FewFacts.roll (hvalid : ∀ text j, parse text = some j → j.encodable = true)
    (hread : ReadsBack parse) {t u : State} {r : Roll} (h : FewFacts parse t)
    (hfits : RollFits parse t r) (hroll : Compaction.roll parse t r = some u) :
    FewFacts parse u := by
  rw [Compaction.roll, Option.some_inj] at hroll
  cases hstep : rollThreadCompactionState parse t r.threadId r.context r.updatedAt with
  | none =>
    rw [hstep] at hroll
    exact hroll ▸ h
  | some v =>
    rw [hstep, Option.getD_some] at hroll
    subst hroll
    unfold rollThreadCompactionState at hstep
    split at hstep
    · cases hstep
      exact h
    · split at hstep
      · rename_i next hnext
        unfold rolledState at hnext
        obtain ⟨facts, hfacts, hnext⟩ := Json.of_bind_ok hnext
        have hpinned : next.pinnedFactsJson = facts := by
          cases hnext
          rfl
        obtain ⟨w, hw, hv⟩ := Option.map_eq_some_iff.mp hstep
        subst hv
        obtain ⟨hstored, hparsed⟩ := parsePinnedFacts_stored hvalid hread hfacts
        intro id row hrow
        rw [Rows.get_put, persist_states hw] at hrow
        split at hrow
        · cases hrow
          show (parsePinnedFacts parse
            ((next.pinnedFactsJson.map cString).map Text.val)).length ≤ 24
          rw [hpinned, hstored, hparsed]
          rcases mergedFacts_cases parse (currentState t r.threadId).pinnedFactsJson
            (extractPinnedFactsJsonFromContext parse r.context) with ⟨-, heq⟩ | ⟨hnot, -⟩
          · rw [heq]
            exact List.length_take_le _ _
          · exact absurd hfits hnot
        · exact h id row hrow
      · cases hstep

end Rolls

/-- A merge is the first 24 facts, and merging it with itself changes nothing, exactly where it
fits; and where every roll fits, no thread comes to have more than 24 facts. -/
theorem facts_merged_iff {parse : Bytes → Option Json}
    (hvalid : ∀ text j, parse text = some j → j.encodable = true) (hread : ReadsBack parse) :
    (∀ current incoming,
      ((mergePinnedFactsJson parse current incoming =
            storedFacts (firstFacts parse current incoming) ∧
          ∀ stored, mergePinnedFactsJson parse current incoming = .ok stored →
            mergePinnedFactsJson parse stored stored = .ok stored) ↔
        MergeFits parse current incoming)) ∧
    ∀ t u rolls, FewFacts parse t → Machine.Along (roll parse) (RollFits parse) t rolls →
      Machine.run (roll parse) t rolls = some u → FewFacts parse u := by
  refine ⟨fun current incoming => ?_, fun t u rolls ht hfits hrun =>
    Machine.run_invariant_along (roll parse)
      (fun s r v hs hok hstep => hs.roll hvalid hread hok hstep) ht hfits hrun⟩
  have hutf8 := mergedFacts_utf8 hvalid current incoming
  rcases mergedFacts_cases parse current incoming with
    ⟨hfits, heq⟩ | ⟨hnot, fact, -, heq⟩
  · refine iff_of_true ⟨by rw [mergePinnedFactsJson_eq, heq], fun stored hstored => ?_⟩ hfits
    obtain ⟨-, hparsed⟩ := parsePinnedFacts_stored hvalid hread hstored
    have hself := firstFacts_self
      ((nodup_eraseDups _).sublist (List.take_sublist _ _)) (List.length_take_le _ _)
      (hparsed.trans heq)
    rw [mergePinnedFactsJson_eq, hself, ← hstored, mergePinnedFactsJson_eq, heq]
    rfl
  · refine iff_of_false (fun hboth => ?_) hnot
    rw [heq] at hutf8
    have hsame := hboth.1
    rw [mergePinnedFactsJson_eq, heq] at hsame
    exact storedFacts_ne hutf8 hsame

/-- The parser on two texts. -/
def oneFact (text : Bytes) : Option Json :=
  if text = ascii "[\"a\"]" then some (factsJson [ascii "a"])
  else if text = ascii "[]" then some (factsJson [])
  else none

theorem facts_merged_one :
    (mergePinnedFactsJson oneFact (some (ascii "[\"a\"]")) none =
        storedFacts (firstFacts oneFact (some (ascii "[\"a\"]")) none) ∧
      ∀ stored, mergePinnedFactsJson oneFact (some (ascii "[\"a\"]")) none = .ok stored →
        mergePinnedFactsJson oneFact stored stored = .ok stored) ∧
    ∃ u, Machine.run (roll oneFact) AiDurability.emptyProject
        [⟨cString (ascii "t1"), ascii "[\"a\"]", 5⟩] = some u ∧ FewFacts oneFact u := by
  have hvalid : ∀ text j, oneFact text = some j → j.encodable = true := by
    intro text j h
    unfold oneFact at h
    split at h
    · cases h
      decide
    · split at h
      · cases h
        decide
      · cases h
  have hparsed : ∀ raw, parsePinnedFacts oneFact raw = [ascii "a"] ∨
      parsePinnedFacts oneFact raw = [] := by
    intro raw
    cases raw with
    | none => exact .inr rfl
    | some text =>
      by_cases ha : text = ascii "[\"a\"]"
      · subst ha
        exact .inl (by decide)
      · right
        by_cases hb : text = ascii "[]"
        · subst hb
          decide
        · rw [parsePinnedFacts, oneFact, if_neg ha, if_neg hb, ite_self]
  have hread : ReadsBack oneFact := by
    intro current incoming text h
    have hmerged : mergedFacts oneFact current incoming = [ascii "a"] ∨
        mergedFacts oneFact current incoming = [] := by
      unfold mergedFacts
      rcases hparsed current with hc | hc <;> rcases hparsed incoming with hi | hi <;>
        rw [hc, hi] <;> decide
    rcases hmerged with hm | hm
    · rw [hm] at h ⊢
      have hdump : (factsJson [ascii "a"]).dump = .ok (ascii "[\"a\"]") := by decide
      rw [hdump] at h
      cases h
      rfl
    · rw [hm] at h ⊢
      have hdump : (factsJson []).dump = .ok (ascii "[]") := by decide
      rw [hdump] at h
      cases h
      rfl
  have hiff := facts_merged_iff hvalid hread
  refine ⟨(hiff.1 _ _).mpr (.inl (by decide)), _, rfl, hiff.2 _ _
    [⟨cString (ascii "t1"), ascii "[\"a\"]", 5⟩] ?_ ⟨.inl (by decide), fun _ _ => trivial⟩ rfl⟩
  intro id row hrow
  cases hrow

/-- Facts of one letter. -/
def letters (n : Nat) : List Bytes := (List.range n).map fun i => [UInt8.ofNat (97 + i)]

def factsText (facts : List Bytes) : Bytes :=
  ascii "[" ++ Json.separated (facts.map quoted) ++ ascii "]"

/-- The parser on three texts. -/
def manyFacts (text : Bytes) : Option Json :=
  ([letters 24, letters 25, (letters 25).drop 24].find? fun facts => text = factsText facts).map
    factsJson

/-- A twenty-fifth fact is stored, and merging the facts with themselves takes it away again. -/
theorem facts_over_limit :
    mergePinnedFactsJson manyFacts (some (factsText (letters 24)))
        (some (factsText ((letters 25).drop 24))) = .ok (some (factsText (letters 25))) ∧
      (parsePinnedFacts manyFacts (some (factsText (letters 25)))).length = 25 ∧
      mergePinnedFactsJson manyFacts (some (factsText (letters 25)))
        (some (factsText (letters 25))) = .ok (some (factsText (letters 24))) ∧
      factsText (letters 24) ≠ factsText (letters 25) := by
  refine ⟨?_, ?_, ?_, ?_⟩ <;> decide +kernel

end Compaction

end HolderDaemon
