import HolderDaemon.AiRecovery
import HolderDaemon.NudgeUniqueness

/-!
What `evaluate_and_record` answers (`ai/NudgeService.cpp`): whose nudge it returns, and what it
answers for a candidate whose nudge was dismissed.
-/

set_option autoImplicit false

open Bytes

namespace HolderDaemon

namespace AiDurability

open State

/-! The answer -/

def readyReason : NudgeKind → Bytes
  | .titleOnly => ascii "title_only_candidate_ready"
  | .stuckDrafting => ascii "stuck_drafting_candidate_ready"
  | .pushFailedRepeated => ascii "git_push_failure_candidate_ready"
  | .titleSuggestion => ascii "title_suggestion_candidate_ready"

def notActionableReason : NudgeKind → Bytes
  | .titleOnly => ascii "title_only_not_actionable"
  | .stuckDrafting => ascii "stuck_drafting_not_actionable"
  | .pushFailedRepeated => ascii "git_push_failure_not_actionable"
  | .titleSuggestion => ascii "title_suggestion_not_actionable"

def alreadyDismissed : Bytes := ascii "nudge_already_dismissed"

structure NudgeDecision where
  shouldNudge : Bool
  reason : Bytes
  nudge : Option Nudge

def isExactMatch (n m : Nudge) : Bool := sameSubject m n && sameBasis m n = some true

/-- The row that `create_or_get` reads back. -/
def createOrGet (rows : List Nudge) (n : Nudge) : Nudge :=
  (Rows.get Nudge.nudgeId n.nudgeId rows).getD n

/-- The answer of a call that returns normally. -/
def decision (rows : List Nudge) (e : Evaluation) : NudgeDecision :=
  if !e.shouldNudge then ⟨false, notActionableReason e.input.kind, none⟩
  else
    match rows.find? (isExactMatch e.nudge) with
    | some existing => ⟨true, readyReason e.input.kind, some existing⟩
    | none =>
      let stored := createOrGet (staleDismissed rows e.nudge e.now) e.nudge
      if stored.dismissedAt.isSome then ⟨false, alreadyDismissed, none⟩
      else ⟨true, readyReason e.input.kind, some stored⟩

theorem readyReason_ne (kind : NudgeKind) : readyReason kind ≠ alreadyDismissed := by
  cases kind <;> decide

theorem notActionableReason_ne (kind : NudgeKind) :
    notActionableReason kind ≠ alreadyDismissed := by
  cases kind <;> decide

/-- The row is in the table after a call that returns it. -/
theorem createOrGet_eq (rows : List Nudge) (n : Nudge) :
    Rows.get Nudge.nudgeId n.nudgeId (insertOrIgnore rows n) = some (createOrGet rows n) := by
  unfold insertOrIgnore createOrGet
  cases h : Rows.get Nudge.nudgeId n.nudgeId rows with
  | some m => simp [h]
  | none => simp [Rows.get_put]

/-! Fields -/

/-- The row has the candidate's kind, project, card and basis. -/
structure HasFields (n : Nudge) (input : NudgeCandidateInput) : Prop where
  kind : n.kind.val = input.kind.text
  projectId : n.projectId.val = input.projectId
  cardId : n.cardId.map Text.val = input.cardId
  basisFingerprint : n.basisFingerprint.map Text.val = input.basisFingerprint
  basisCommit : n.basisCommit.map Text.val = input.basisCommit

def NoNul (s : Bytes) : Prop := (0 : UInt8) ∉ s

/-- None of the candidate's strings is cut when it is bound. -/
structure Uncut (input : NudgeCandidateInput) : Prop where
  projectId : NoNul input.projectId
  cardId : ∀ s ∈ input.cardId, NoNul s
  basisFingerprint : ∀ s ∈ input.basisFingerprint, NoNul s
  basisCommit : ∀ s ∈ input.basisCommit, NoNul s

theorem map_val_cString {o : Option Bytes} (h : ∀ s ∈ o, NoNul s) :
    (o.map cString).map Text.val = o := by
  cases o with
  | none => rfl
  | some s => rw [Option.map_some, Option.map_some, val_cString (h s rfl)]

instance (s : Bytes) : Decidable (NoNul s) := inferInstanceAs (Decidable (¬ _))

theorem kind_noNul (kind : NudgeKind) : NoNul kind.text := by
  cases kind <;> decide

/-- The fields of a row that the statements compare. -/
structure SameFields (n m : Nudge) : Prop where
  kind : n.kind = m.kind
  projectId : n.projectId = m.projectId
  cardId : n.cardId = m.cardId
  basisFingerprint : n.basisFingerprint = m.basisFingerprint
  basisCommit : n.basisCommit = m.basisCommit

theorem hasFields_nudge {input : NudgeCandidateInput} (h : Uncut input) (text : Bytes)
    (metaJson : Json) : HasFields (input.nudge text metaJson) input where
  kind := val_cString (kind_noNul input.kind)
  projectId := val_cString h.projectId
  cardId := map_val_cString h.cardId
  basisFingerprint := map_val_cString h.basisFingerprint
  basisCommit := map_val_cString h.basisCommit

theorem SameFields.hasFields {n m : Nudge} (h : SameFields n m) {input : NudgeCandidateInput}
    (hm : HasFields m input) : HasFields n input where
  kind := by rw [h.kind, hm.kind]
  projectId := by rw [h.projectId, hm.projectId]
  cardId := by rw [h.cardId, hm.cardId]
  basisFingerprint := by rw [h.basisFingerprint, hm.basisFingerprint]
  basisCommit := by rw [h.basisCommit, hm.basisCommit]

theorem sqlAnd_eq_true {a b : Option Bool} :
    sqlAnd a b = some true ↔ a = some true ∧ b = some true := by
  rcases a with _ | _ | _ <;> rcases b with _ | _ | _ <;> decide

theorem isExactMatch_iff {n m : Nudge} :
    isExactMatch n m = true ↔ m.dismissedAt = none ∧ SameFields m n := by
  rw [isExactMatch, sameSubject_eq, Bool.and_eq_true, decide_eq_true_eq, sameBasis,
    sqlAnd_eq_true, sqlSame_eq_true, sqlSame_eq_true]
  simp only [Nudge.active, Bool.and_eq_true, decide_eq_true_eq, Option.isNone_iff_eq_none]
  constructor
  · rintro ⟨⟨⟨⟨hat, hkind⟩, hproject⟩, hcard⟩, hprint, hcommit⟩
    exact ⟨hat, hkind, hproject, hcard, hprint, hcommit⟩
  · rintro ⟨hat, hkind, hproject, hcard, hprint, hcommit⟩
    exact ⟨⟨⟨⟨hat, hkind⟩, hproject⟩, hcard⟩, hprint, hcommit⟩

theorem findActiveExactMatch_eq (rows : List Nudge) (e : Evaluation) :
    findActiveExactMatch rows e.nudge = (rows.find? (isExactMatch e.nudge)).isSome := by
  rw [Bool.eq_iff_iff, List.find?_isSome, findActiveExactMatch, List.any_eq_true]
  rfl

/-! What the statements keep -/

/-- A row that a statement has only dismissed, if it changed it at all. -/
def Kept (n m : Nudge) : Prop :=
  m = n ∨ n.dismissedAt = none ∧ ∃ now, m = { n with dismissedAt := some now }

theorem Kept.sameFields {n m : Nudge} (h : Kept n m) :
    SameFields m n ∧ m.nudgeId = n.nudgeId := by
  rcases h with rfl | ⟨_, now, rfl⟩
  · exact ⟨⟨rfl, rfl, rfl, rfl, rfl⟩, rfl⟩
  · exact ⟨⟨rfl, rfl, rfl, rfl, rfl⟩, rfl⟩

theorem Kept.dismissed {n m : Nudge} (h : Kept n m) (hat : n.dismissedAt.isSome = true) :
    m = n := by
  rcases h with rfl | ⟨hnone, _⟩
  · rfl
  · rw [hnone] at hat
    cases hat

def keptMap (f : Nudge → Nudge) : Prop := ∀ n, Kept n (f n)

theorem keptMap_stale (n : Nudge) (now : Int64) : keptMap fun m =>
    if sameSubject m n && (sameBasis m n).map not = some true then
      { m with dismissedAt := some now }
    else m := by
  intro m
  dsimp only
  split
  · rename_i h
    simp only [sameSubject, Bool.and_eq_true, Option.isNone_iff_eq_none] at h
    exact .inr ⟨h.1.1.1.1, now, rfl⟩
  · exact .inl rfl

theorem keptMap_dismissed (nudgeId : Text) (now : Int64) : keptMap fun m =>
    if m.nudgeId = nudgeId && m.dismissedAt.isNone then
      { m with dismissedAt := some now } else m := by
  intro m
  dsimp only
  split
  · rename_i h
    simp only [Bool.and_eq_true, Option.isNone_iff_eq_none] at h
    exact .inr ⟨h.2, now, rfl⟩
  · exact .inl rfl

/-- The identifiers are a primary key, and every row comes from an evaluated candidate. -/
structure Recorded (inputs : List NudgeCandidateInput) (rows : List Nudge) : Prop where
  nodup : (rows.map Nudge.nudgeId).Nodup
  origin : ∀ n ∈ rows, ∃ input ∈ inputs, ∃ text metaJson,
    n.nudgeId = cString (buildNudgeId input) ∧ SameFields n (input.nudge text metaJson)

theorem Recorded.keptMap {inputs : List NudgeCandidateInput} {rows : List Nudge}
    (h : Recorded inputs rows) {f : Nudge → Nudge} (hf : keptMap f) :
    Recorded inputs (rows.map f) where
  nodup := by
    have hids : (rows.map f).map Nudge.nudgeId = rows.map Nudge.nudgeId := by
      rw [List.map_map]
      exact List.map_congr_left fun n _ => (hf n).sameFields.2
    rw [hids]
    exact h.nodup
  origin n hn := by
    obtain ⟨m, hm, rfl⟩ := List.mem_map.mp hn
    obtain ⟨input, hinput, text, metaJson, hid, hfields⟩ := h.origin m hm
    obtain ⟨hsame, hkey⟩ := (hf m).sameFields
    exact ⟨input, hinput, text, metaJson, hkey.trans hid,
      hsame.kind.trans hfields.kind, hsame.projectId.trans hfields.projectId,
      hsame.cardId.trans hfields.cardId, hsame.basisFingerprint.trans hfields.basisFingerprint,
      hsame.basisCommit.trans hfields.basisCommit⟩

theorem Recorded.insertOrIgnore {inputs : List NudgeCandidateInput} {rows : List Nudge}
    (h : Recorded inputs rows) {input : NudgeCandidateInput} (hinput : input ∈ inputs)
    (text : Bytes) (metaJson : Json) :
    Recorded inputs (insertOrIgnore rows (input.nudge text metaJson)) := by
  unfold AiDurability.insertOrIgnore
  split
  · exact h
  · rename_i hnew
    refine ⟨Rows.nodup_put Nudge.nudgeId h.nodup, fun n hn => ?_⟩
    rw [Rows.put_of_get_none Nudge.nudgeId (Option.not_isSome_iff_eq_none.mp hnew)] at hn
    rcases List.mem_append.mp hn with hold | hn
    · exact h.origin n hold
    · rw [List.mem_singleton.mp hn]
      exact ⟨input, hinput, text, metaJson, rfl, rfl, rfl, rfl, rfl, rfl⟩

theorem Recorded.mono {inputs more : List NudgeCandidateInput} {rows : List Nudge}
    (h : Recorded inputs rows) (hmore : ∀ input ∈ inputs, input ∈ more) : Recorded more rows where
  nodup := h.nodup
  origin n hn := by
    obtain ⟨input, hinput, hrest⟩ := h.origin n hn
    exact ⟨input, hmore input hinput, hrest⟩

/-! Histories -/

/-- A call, or the statement of `dismiss_stale_variants` by itself. -/
inductive NudgeAction where
  | call (c : NudgeCall)
  | dismissStaleVariants (n : Nudge) (now : Int64)

def actionStep (rows : List Nudge) : NudgeAction → Option (List Nudge)
  | .call c => nudgeStep rows c
  | .dismissStaleVariants n now => some (staleDismissed rows n now)

/-- The candidates that a history has evaluated. -/
def evaluated : List NudgeAction → List NudgeCandidateInput
  | [] => []
  | .call (.evaluate e) :: actions => e.input :: evaluated actions
  | _ :: actions => evaluated actions

theorem evaluated_append (l m : List NudgeAction) :
    evaluated (l ++ m) = evaluated l ++ evaluated m := by
  induction l using evaluated.induct with
  | case1 => rfl
  | case2 e l ih => rw [List.cons_append, evaluated, evaluated, ih, List.cons_append]
  | case3 a l hne ih => simp only [List.cons_append, evaluated, ih]

theorem Recorded.evaluate {inputs : List NudgeCandidateInput} {rows : List Nudge}
    (h : Recorded inputs rows) {e : Evaluation} (hinput : e.input ∈ inputs) :
    Recorded inputs (evaluateAndRecord rows e) := by
  unfold AiDurability.evaluateAndRecord
  split
  · exact h
  · split
    · exact h
    · have hstale := h.keptMap (keptMap_stale e.nudge e.now)
      dsimp only
      split
      · exact hstale
      · exact hstale.insertOrIgnore hinput e.text e.metaJson

theorem Recorded.list {inputs : List NudgeCandidateInput} {rows : List Nudge}
    (h : Recorded inputs rows) (stale : List (Text × Int64)) :
    Recorded inputs (stale.foldl (fun rows d => dismissed rows d.1 d.2) rows) := by
  induction stale generalizing rows with
  | nil => exact h
  | cons d stale ih => exact ih (h.keptMap (keptMap_dismissed d.1 d.2))

theorem recorded_run {inputs : List NudgeCandidateInput} {actions : List NudgeAction}
    {rows rows' : List Nudge} (h : Recorded inputs rows)
    (hinputs : ∀ input ∈ evaluated actions, input ∈ inputs)
    (hrun : Machine.run actionStep rows actions = some rows') : Recorded inputs rows' := by
  induction actions generalizing rows with
  | nil =>
    cases hrun
    exact h
  | cons action actions ih =>
    obtain ⟨mid, hmid, hrun⟩ := Machine.run_cons_some actionStep hrun
    cases action with
    | dismissStaleVariants n now =>
      cases hmid
      exact ih (h.keptMap (keptMap_stale n now)) hinputs hrun
    | call c =>
      cases c with
      | evaluate e =>
        cases hmid
        exact ih (h.evaluate (hinputs e.input List.mem_cons_self))
          (fun input hinput => hinputs input (List.mem_cons_of_mem _ hinput)) hrun
      | evaluateUnknownKind =>
        cases hmid
        exact ih h hinputs hrun
      | dismiss nudgeId now =>
        cases hmid
        exact ih (h.keptMap (keptMap_dismissed nudgeId now)) hinputs hrun
      | list stale =>
        cases hmid
        exact ih (h.list stale) hinputs hrun

theorem recorded_nil (inputs : List NudgeCandidateInput) : Recorded inputs [] :=
  ⟨List.nodup_nil, nofun⟩

/-! Identifiers -/

/-- The string that `build_nudge_id` hashes. -/
def nudgeKey (input : NudgeCandidateInput) : Bytes :=
  input.kind.text ++ [10] ++ input.projectId ++ [10] ++ input.cardId.getD [] ++ [10] ++
    input.basisFingerprint.getD [] ++ [10] ++ input.basisCommit.getD []

theorem buildNudgeId_eq (input : NudgeCandidateInput) :
    buildNudgeId input = ascii "nudge-" ++ hexText (fnv1a (nudgeKey input)) := rfl

theorem hexDigit_inj :
    ∀ a < 16, ∀ b < 16, Json.hexDigit a = Json.hexDigit b → a = b := by
  decide

theorem mod_pow_of_digits {a b : Nat} (n : Nat)
    (h : ∀ i < n, a / 16 ^ i % 16 = b / 16 ^ i % 16) : a % 16 ^ n = b % 16 ^ n := by
  induction n with
  | zero => simp [Nat.mod_one]
  | succ n ih =>
    have hn := ih fun i hi => h i (Nat.lt_succ_of_lt hi)
    rw [Nat.pow_succ, Nat.mod_mul, Nat.mod_mul, hn, h n (Nat.lt_succ_self n)]

theorem hexText_injective {a b : UInt64} (h : hexText a = hexText b) : a = b := by
  have hdigits : ∀ i < 16, a.toNat / 16 ^ i % 16 = b.toNat / 16 ^ i % 16 := by
    intro i hi
    have hget := congrArg (fun l : Bytes => l[15 - i]?) h
    simp only [hexText, List.getElem?_map, List.getElem?_range (show 15 - i < 16 by omega),
      Option.map_some, Option.some.injEq] at hget
    rw [show 15 - (15 - i) = i by omega] at hget
    exact hexDigit_inj _ (Nat.mod_lt _ (by decide)) _ (Nat.mod_lt _ (by decide)) hget
  have hmod := mod_pow_of_digits 16 hdigits
  have hlt : ∀ c : UInt64, c.toNat < 16 ^ 16 := fun c => lt_of_lt_of_eq c.toNat_lt (by norm_num)
  rw [Nat.mod_eq_of_lt (hlt a), Nat.mod_eq_of_lt (hlt b)] at hmod
  exact UInt64.toNat_inj.mp hmod

theorem val_nudgeId (input : NudgeCandidateInput) :
    (cString (buildNudgeId input)).val = buildNudgeId input :=
  val_cString (not_mem_buildNudgeId input (by decide) (by decide))

theorem fnv1a_of_nudgeId {a b : NudgeCandidateInput}
    (h : cString (buildNudgeId a) = cString (buildNudgeId b)) :
    fnv1a (nudgeKey a) = fnv1a (nudgeKey b) := by
  have hid : buildNudgeId a = buildNudgeId b := by
    rw [← val_nudgeId a, ← val_nudgeId b, h]
  rw [buildNudgeId_eq, buildNudgeId_eq] at hid
  exact hexText_injective (List.append_cancel_left hid)

/-! Whose nudge is returned -/

/-- One kind, project, card and basis. -/
structure SameCandidate (a b : NudgeCandidateInput) : Prop where
  kind : a.kind = b.kind
  projectId : a.projectId = b.projectId
  cardId : a.cardId = b.cardId
  basisFingerprint : a.basisFingerprint = b.basisFingerprint
  basisCommit : a.basisCommit = b.basisCommit

/-- The candidate is not cut, and its key tells it from the candidates before it. -/
structure Identified (before : List NudgeCandidateInput) (input : NudgeCandidateInput) : Prop where
  uncut : Uncut input
  key : ∀ a ∈ before, nudgeKey a = nudgeKey input → SameCandidate a input

def NoCollision (before : List NudgeCandidateInput) (input : NudgeCandidateInput) : Prop :=
  ∀ a ∈ before, fnv1a (nudgeKey a) = fnv1a (nudgeKey input) → nudgeKey a = nudgeKey input

/-- The row of the candidate's identifier comes from a candidate with its fields. -/
theorem Recorded.hasFields {before : List NudgeCandidateInput} {rows : List Nudge}
    (h : Recorded before rows) {input : NudgeCandidateInput} (hhash : NoCollision before input)
    (hok : Identified before input) {n : Nudge} (hn : n ∈ rows)
    (hid : n.nudgeId = cString (buildNudgeId input)) : HasFields n input := by
  obtain ⟨a, ha, text, metaJson, hkey, hsame⟩ := h.origin n hn
  have hfnv : fnv1a (nudgeKey a) = fnv1a (nudgeKey input) := fnv1a_of_nudgeId (hkey.symm.trans hid)
  obtain ⟨hkind, hproject, hcard, hprint, hcommit⟩ := hok.key a ha (hhash a ha hfnv)
  refine hsame.hasFields ⟨?_, ?_, ?_, ?_, ?_⟩
  · rw [← hkind]
    exact val_cString (kind_noNul a.kind)
  · rw [← hproject]
    exact val_cString (hproject ▸ hok.uncut.projectId)
  · rw [← hcard]
    exact map_val_cString (hcard ▸ hok.uncut.cardId)
  · rw [← hprint]
    exact map_val_cString (hprint ▸ hok.uncut.basisFingerprint)
  · rw [← hcommit]
    exact map_val_cString (hcommit ▸ hok.uncut.basisCommit)

theorem createOrGet_cases (rows : List Nudge) (n : Nudge) :
    createOrGet rows n = n ∨
      createOrGet rows n ∈ rows ∧ (createOrGet rows n).nudgeId = n.nudgeId := by
  unfold createOrGet
  cases h : Rows.get Nudge.nudgeId n.nudgeId rows with
  | none => exact .inl rfl
  | some m => exact .inr ⟨Rows.mem_of_get Nudge.nudgeId h, Rows.key_of_get Nudge.nudgeId h⟩

/-- A row of the candidate's fields is no stale variant of it. -/
theorem mem_of_mem_staleDismissed {rows : List Nudge} {n m : Nudge} {now : Int64}
    (hm : m ∈ staleDismissed rows n now)
    (hprint : m.basisFingerprint = n.basisFingerprint) (hcommit : m.basisCommit = n.basisCommit) :
    m ∈ rows := by
  obtain ⟨a, ha, rfl⟩ := List.mem_map.mp hm
  split
  · rename_i hstale
    rw [if_pos hstale] at hprint hcommit
    have hbasis : sameBasis a n = some true := by
      rw [sameBasis, sqlAnd_eq_true]
      exact ⟨sqlSame_eq_true.mpr hprint, sqlSame_eq_true.mpr hcommit⟩
    simp [hbasis] at hstale
  · exact ha

theorem HasFields.unique {n m : Nudge} {input : NudgeCandidateInput} (hn : HasFields n input)
    (hm : HasFields m input) : SameFields n m where
  kind := Text.ext (hn.kind.trans hm.kind.symm)
  projectId := Text.ext (hn.projectId.trans hm.projectId.symm)
  cardId := Option.map_injective (fun _ _ => Text.ext) (hn.cardId.trans hm.cardId.symm)
  basisFingerprint :=
    Option.map_injective (fun _ _ => Text.ext) (hn.basisFingerprint.trans hm.basisFingerprint.symm)
  basisCommit :=
    Option.map_injective (fun _ _ => Text.ext) (hn.basisCommit.trans hm.basisCommit.symm)

/-- After any history, a candidate that its key identifies is answered with a nudge of its own
fields, or refused for one that was dismissed. -/
theorem answers_candidate {actions : List NudgeAction} {rows : List Nudge} {e : Evaluation}
    (hhash : NoCollision (evaluated actions) e.input) (hok : Identified (evaluated actions) e.input)
    (hrun : Machine.run actionStep [] actions = some rows) :
    (∀ n, (decision rows e).nudge = some n → HasFields n e.input) ∧
      ((decision rows e).reason = alreadyDismissed →
        ∃ n ∈ rows, n.dismissedAt.isSome = true ∧ HasFields n e.input) := by
  have hrows := recorded_run (recorded_nil (evaluated actions)) (fun _ h => h) hrun
  have hstale := hrows.keptMap (keptMap_stale e.nudge e.now)
  have hnew : HasFields e.nudge e.input := hasFields_nudge hok.uncut e.text e.metaJson
  have hstored := createOrGet_cases (staleDismissed rows e.nudge e.now) e.nudge
  have hfields : HasFields (createOrGet (staleDismissed rows e.nudge e.now) e.nudge) e.input := by
    rcases hstored with heq | ⟨hmem, hid⟩
    · rw [heq]
      exact hnew
    · exact hstale.hasFields hhash hok hmem hid
  unfold decision
  split
  · exact ⟨nofun, fun h => absurd h (notActionableReason_ne _)⟩
  · split
    · rename_i existing hfind
      refine ⟨fun n hn => ?_, fun h => absurd h (readyReason_ne _)⟩
      cases hn
      exact (isExactMatch_iff.mp (List.find?_some hfind)).2.hasFields hnew
    · dsimp only
      split
      · rename_i hat
        refine ⟨nofun, fun _ => ?_⟩
        rcases hstored with heq | ⟨hmem, _⟩
        · rw [heq] at hat
          cases hat
        · have hsame := hfields.unique hnew
          exact ⟨_, mem_of_mem_staleDismissed hmem hsame.basisFingerprint hsame.basisCommit, hat,
            hfields⟩
      · refine ⟨fun n hn => ?_, fun h => absurd h (readyReason_ne _)⟩
        cases hn
        exact hfields

def pushFailedCandidate (basisCommit : Option Bytes) : Evaluation :=
  ⟨⟨.pushFailedRepeated, ascii "p1", none, 5, none, basisCommit⟩, true, ascii "b",
    .object [], 5, .insertion⟩

theorem not_hasFields {n : Nudge} (h : n.basisCommit = none) :
    ¬ HasFields n (pushFailedCandidate (some [])).input := by
  intro hn
  have hcommit := hn.basisCommit
  rw [h] at hcommit
  cases hcommit

/-- The candidate without a commit is recorded. One whose commit is the empty string gets its
nudge; and once that is dismissed, the answer that its own was. -/
theorem answered_for_another :
    NoCollision [(pushFailedCandidate none).input] (pushFailedCandidate (some [])).input ∧
      (∃ rows, Machine.run actionStep [] [.call (.evaluate (pushFailedCandidate none))] =
          some rows ∧
        ∃ n, (decision rows (pushFailedCandidate (some []))).nudge = some n ∧
          ¬ HasFields n (pushFailedCandidate (some [])).input) ∧
      ∃ rows, Machine.run actionStep [] [.call (.evaluate (pushFailedCandidate none)),
          .call (.dismiss (pushFailedCandidate none).nudge.nudgeId 7)] = some rows ∧
        (decision rows (pushFailedCandidate (some []))).reason = alreadyDismissed ∧
        ∀ n ∈ rows, ¬ HasFields n (pushFailedCandidate (some [])).input := by
  refine ⟨?_, ?_, ?_⟩
  · simp only [NoCollision, List.mem_singleton, forall_eq]
    exact fun _ => rfl
  · obtain ⟨rows, hrun, htest⟩ := Machine.run_of_any actionStep []
      [.call (.evaluate (pushFailedCandidate none))]
      (fun rows => ((decision rows (pushFailedCandidate (some []))).nudge).any
        fun n => n.basisCommit.isNone) (by decide +kernel)
    cases hn : (decision rows (pushFailedCandidate (some []))).nudge with
    | none =>
      rw [hn] at htest
      cases htest
    | some n =>
      rw [hn, Option.any_some, Option.isNone_iff_eq_none] at htest
      exact ⟨rows, hrun, n, hn, not_hasFields htest⟩
  · obtain ⟨rows, hrun, htest⟩ := Machine.run_of_any actionStep []
      [.call (.evaluate (pushFailedCandidate none)),
        .call (.dismiss (pushFailedCandidate none).nudge.nudgeId 7)]
      (fun rows => decide ((decision rows (pushFailedCandidate (some []))).reason =
        alreadyDismissed ∧ ∀ n ∈ rows, n.basisCommit = none)) (by decide +kernel)
    obtain ⟨hreason, hnone⟩ := of_decide_eq_true htest
    exact ⟨rows, hrun, hreason, fun n hn => not_hasFields (hnone n hn)⟩

/-- Two commits. -/
theorem answers_candidate_commits :
    ∃ rows, Machine.run actionStep []
        [.call (.evaluate (pushFailedCandidate (some (ascii "c1"))))] = some rows ∧
      (decision rows (pushFailedCandidate (some (ascii "c2")))).nudge.isSome = true ∧
      ∀ n, (decision rows (pushFailedCandidate (some (ascii "c2")))).nudge = some n →
        HasFields n (pushFailedCandidate (some (ascii "c2"))).input := by
  obtain ⟨rows, hrun, htest⟩ := Machine.run_of_any actionStep []
    [.call (.evaluate (pushFailedCandidate (some (ascii "c1"))))]
    (fun rows => (decision rows (pushFailedCandidate (some (ascii "c2")))).nudge.isSome)
    (by decide +kernel)
  have hkey : nudgeKey (pushFailedCandidate (some (ascii "c1"))).input ≠
      nudgeKey (pushFailedCandidate (some (ascii "c2"))).input := by decide
  have hfnv : fnv1a (nudgeKey (pushFailedCandidate (some (ascii "c1"))).input) ≠
      fnv1a (nudgeKey (pushFailedCandidate (some (ascii "c2"))).input) := by decide +kernel
  refine ⟨rows, hrun, htest, (answers_candidate ?_ ⟨⟨?_, ?_, ?_, ?_⟩, ?_⟩ hrun).1⟩
  · simp only [NoCollision, evaluated, List.mem_singleton, forall_eq]
    exact fun h => absurd h hfnv
  · decide
  · nofun
  · nofun
  · rintro s ⟨⟩
    decide
  · simp only [evaluated, List.mem_singleton, forall_eq]
    exact fun h => absurd h hkey

end AiDurability

end HolderDaemon
