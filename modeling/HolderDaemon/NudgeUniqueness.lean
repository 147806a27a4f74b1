import HolderDaemon.AiDurability
import HolderDaemon.Machine

/-!
The table `ai_nudges` under `NudgeService` (`ai/NudgeService.cpp`, `ai/AiNudgeRepo.cpp`): at most
one nudge of a kind, project and card is active, as long as no comparison of a basis column is
NULL.
-/

set_option autoImplicit false

open Bytes

namespace HolderDaemon

namespace AiDurability

open State

/-! Three-valued comparisons -/

theorem sqlSame_eq_true {column param : Option Text} :
    sqlSame column param = some true ↔ column = param := by
  cases column <;> cases param <;> simp [sqlSame]

theorem sqlSame_eq_none {column param : Option Text} :
    sqlSame column param = none ↔ column.isSome ≠ param.isSome := by
  cases column <;> cases param <;> simp [sqlSame]

theorem sqlAnd_eq_none {a b : Option Bool} :
    sqlAnd a b = none ↔ (a = none ∨ b = none) ∧ a ≠ some false ∧ b ≠ some false := by
  rcases a with _ | _ | _ <;> rcases b with _ | _ | _ <;> decide

/-- One basis column is set on one side only, and no basis column is set on both to different
values. -/
theorem sameBasis_eq_none {n m : Nudge} :
    sameBasis n m = none ↔
      (n.basisFingerprint.isSome ≠ m.basisFingerprint.isSome ∨
        n.basisCommit.isSome ≠ m.basisCommit.isSome) ∧
      sqlSame n.basisFingerprint m.basisFingerprint ≠ some false ∧
      sqlSame n.basisCommit m.basisCommit ≠ some false := by
  rw [sameBasis, sqlAnd_eq_none, sqlSame_eq_none, sqlSame_eq_none]

def Nudge.active (n : Nudge) (kind projectId : Text) (cardId : Option Text) : Bool :=
  n.dismissedAt.isNone && n.kind = kind && n.projectId = projectId && n.cardId = cardId

theorem sameSubject_eq (n m : Nudge) :
    sameSubject n m = n.active m.kind m.projectId m.cardId := by
  simp only [sameSubject, Nudge.active, sqlSame_eq_true]

/-! The statements -/

def staleDismissed (rows : List Nudge) (n : Nudge) (now : Int64) : List Nudge :=
  rows.map fun m =>
    if sameSubject m n && (sameBasis m n).map not = some true then
      { m with dismissedAt := some now }
    else m

/-- `UPDATE .. WHERE nudge_id = ? AND dismissed_at IS NULL`. -/
def dismissed (rows : List Nudge) (nudgeId : Text) (now : Int64) : List Nudge :=
  rows.map fun m =>
    if m.nudgeId = nudgeId && m.dismissedAt.isNone then { m with dismissedAt := some now } else m

def insertOrIgnore (rows : List Nudge) (n : Nudge) : List Nudge :=
  if (Rows.get Nudge.nudgeId n.nudgeId rows).isSome then rows else Rows.put Nudge.nudgeId n rows

/-- The last statement of `evaluate_and_record` that takes effect before something throws. -/
inductive Reached where
  | nothing | dismissals | insertion
  deriving DecidableEq, Repr

/-- A call for an accepted kind: `shouldNudge` is what its facts say, `text` and `metaJson` what
the runner made of them. -/
structure Evaluation where
  input : NudgeCandidateInput
  shouldNudge : Bool
  text : Bytes
  metaJson : Json
  now : Int64
  reached : Reached

def Evaluation.nudge (e : Evaluation) : Nudge := e.input.nudge e.text e.metaJson

def findActiveExactMatch (rows : List Nudge) (n : Nudge) : Bool :=
  rows.any fun m => sameSubject m n && sameBasis m n = some true

def evaluateAndRecord (rows : List Nudge) (e : Evaluation) : List Nudge :=
  if !e.shouldNudge ∨ e.reached = .nothing then rows
  else if findActiveExactMatch rows e.nudge then rows
  else
    let rows := staleDismissed rows e.nudge e.now
    if e.reached = .dismissals then rows else insertOrIgnore rows e.nudge

inductive NudgeCall where
  | evaluate (e : Evaluation)
  | evaluateUnknownKind
  | dismiss (nudgeId : Text) (now : Int64)
  | list (stale : List (Text × Int64))

/-- A listing dismisses the nudges it finds stale, one by one. -/
def nudgeStep (rows : List Nudge) : NudgeCall → Option (List Nudge)
  | .evaluate e => some (evaluateAndRecord rows e)
  | .evaluateUnknownKind => some rows
  | .dismiss nudgeId now => some (dismissed rows nudgeId now)
  | .list stale => some (stale.foldl (fun rows d => dismissed rows d.1 d.2) rows)

/-! The durable operations act on the table in this way -/

theorem persistNudgeDismissal_nudges {t u : State} {nudgeId : Text}
    (h : t.persistNudgeDismissal nudgeId = some u) : u.nudges = t.nudges := by
  unfold persistNudgeDismissal at h
  split at h
  · cases h
    rfl
  · split at h
    · cases h
      rfl
    · split at h
      · dsimp only at h
        split at h
        · cases h
          rfl
        · obtain ⟨path, _, h⟩ := Option.bind_eq_some_iff.mp h
          obtain ⟨raw, _, h⟩ := Option.bind_eq_some_iff.mp h
          cases h
          rfl
      · cases h

theorem backfillNudge_nudges {t u : State} {n : Nudge} (h : t.backfillNudge n = some u) :
    u.nudges = t.nudges := by
  unfold backfillNudge at h
  split at h
  · cases h
    rfl
  · obtain ⟨path, _, h⟩ := Option.bind_eq_some_iff.mp h
    split at h
    · cases h
      rfl
    · exact persistNudgeDismissal_nudges h

theorem foldlM_backfillNudge_nudges {l : List Nudge} {t u : State}
    (h : l.foldlM backfillNudge t = some u) : u.nudges = t.nudges := by
  induction l generalizing t with
  | nil =>
    cases h
    rfl
  | cons n l ih =>
    rw [List.foldlM_cons] at h
    obtain ⟨m, hm, h⟩ := Option.bind_eq_some_iff.mp h
    exact (ih h).trans (backfillNudge_nudges hm)

theorem recordNudge_nudges {t u : State} {e : Evaluation} (hreached : e.reached = .insertion)
    (h : t.recordNudge e.input e.shouldNudge e.text e.metaJson e.now = some u) :
    u.nudges = evaluateAndRecord t.nudges e := by
  unfold evaluateAndRecord findActiveExactMatch Evaluation.nudge
  simp only [recordNudge] at h
  split at h
  · cases h
  · split at h
    · rename_i hno
      cases h
      simp [hno]
    · rename_i hyes
      split at h
      · rename_i hmatch
        cases h
        simp [hmatch]
      · rename_i hmatch
        obtain ⟨m, hm, hu⟩ := Option.map_eq_some_iff.mp h
        have hrows : m.nudges = staleDismissed t.nudges (e.input.nudge e.text e.metaJson) e.now :=
          foldlM_backfillNudge_nudges hm
        rw [if_neg (by simpa [hreached] using hyes), if_neg hmatch, if_neg (by simp [hreached]),
          insertOrIgnore, ← hrows]
        split at hu
        · rename_i hold
          rw [← hu, if_pos hold]
        · rename_i hnew
          rw [← hu, if_neg hnew]

/-! Uniqueness -/

/-- At most one active nudge of each kind, project and card. -/
def Unique (rows : List Nudge) : Prop :=
  ∀ kind projectId cardId, rows.countP (fun n => n.active kind projectId cardId) ≤ 1

/-- No active row of the nudge's subject compares with it as NULL. -/
def Decided (rows : List Nudge) (n : Nudge) : Prop :=
  ∀ m ∈ rows, sameSubject m n = true → sameBasis m n ≠ none

/-- The rows that are left active are the ones that the exact match finds. -/
theorem staleDismissed_complete_iff {rows : List Nudge} {n : Nudge} {now : Int64} :
    (∀ m ∈ staleDismissed rows n now, sameSubject m n = true → sameBasis m n = some true) ↔
      Decided rows n := by
  constructor
  · intro h m hm hsubject hnone
    have hmem : m ∈ staleDismissed rows n now :=
      List.mem_map.mpr ⟨m, hm, by simp [hnone]⟩
    rw [h m hmem hsubject] at hnone
    cases hnone
  · intro h m hm hsubject
    obtain ⟨a, ha, rfl⟩ := List.mem_map.mp hm
    by_cases hstale : (sameSubject a n && (sameBasis a n).map not = some true) = true
    · rw [if_pos hstale] at hsubject
      simp [sameSubject] at hsubject
    · rw [if_neg hstale] at hsubject ⊢
      have hdecided := h a ha hsubject
      rw [hsubject, Bool.true_and, decide_eq_true_eq] at hstale
      rcases hb : sameBasis a n with _ | _ | _
      · exact absurd hb hdecided
      · exact absurd (by rw [hb]; rfl) hstale
      · rfl

/-- A statement that only dismisses. -/
theorem Unique.map {rows : List Nudge} (h : Unique rows) {f : Nudge → Nudge}
    (hf : ∀ n, f n = n ∨ (f n).dismissedAt.isSome = true) : Unique (rows.map f) := by
  intro kind projectId cardId
  rw [List.countP_map]
  refine le_trans (List.countP_mono_left fun n _ hn => ?_) (h kind projectId cardId)
  rcases hf n with heq | hdismissed
  · rwa [Function.comp_apply, heq] at hn
  · simp only [Function.comp_apply, Nudge.active, Bool.and_eq_true] at hn
    rw [Option.isNone_iff_eq_none.mp hn.1.1.1] at hdismissed
    cases hdismissed

theorem Unique.staleDismissed {rows : List Nudge} (h : Unique rows) (n : Nudge) (now : Int64) :
    Unique (staleDismissed rows n now) := by
  refine h.map fun m => ?_
  split
  · exact .inr rfl
  · exact .inl rfl

theorem Unique.dismissed {rows : List Nudge} (h : Unique rows) (nudgeId : Text) (now : Int64) :
    Unique (dismissed rows nudgeId now) := by
  refine h.map fun m => ?_
  split
  · exact .inr rfl
  · exact .inl rfl

/-- An insertion where no row of the subject is active. -/
theorem Unique.insertOrIgnore {rows : List Nudge} (h : Unique rows) {n : Nudge}
    (hnone : ∀ m ∈ rows, sameSubject m n = false) : Unique (insertOrIgnore rows n) := by
  unfold AiDurability.insertOrIgnore
  split
  · exact h
  · rename_i hnew
    rw [Option.not_isSome_iff_eq_none] at hnew
    intro kind projectId cardId
    rw [Rows.put_of_get_none Nudge.nudgeId hnew, List.countP_append]
    by_cases hn : n.active kind projectId cardId = true
    · have hzero : rows.countP (fun m => m.active kind projectId cardId) = 0 := by
        rw [List.countP_eq_zero]
        intro m hm
        have hm := hnone m hm
        simp only [Nudge.active, Bool.and_eq_true, decide_eq_true_eq] at hn
        obtain ⟨⟨⟨-, rfl⟩, rfl⟩, rfl⟩ := hn
        rw [sameSubject_eq] at hm
        simp [hm]
      rw [hzero]
      exact Nat.le_of_eq (by simp [hn])
    · have hle := h kind projectId cardId
      simpa [hn] using hle

/-- A candidate is recorded only while its basis compares with that of every active nudge of
its subject. -/
def BasisDecided (rows : List Nudge) : NudgeCall → Prop
  | .evaluate e => e.shouldNudge = true → e.reached ≠ .nothing → Decided rows e.nudge
  | _ => True

theorem Unique.evaluateAndRecord {rows : List Nudge} (h : Unique rows) {e : Evaluation}
    (hok : BasisDecided rows (.evaluate e)) : Unique (evaluateAndRecord rows e) := by
  unfold AiDurability.evaluateAndRecord
  split
  · exact h
  · rename_i hgo
    split
    · exact h
    · rename_i hmatch
      have hstale := h.staleDismissed e.nudge e.now
      dsimp only
      split
      · exact hstale
      · have hdecided : Decided rows e.nudge := by
          refine hok ?_ fun hno => hgo (.inr hno)
          by_contra hno
          exact hgo (.inl (by simpa using hno))
        refine hstale.insertOrIgnore fun m hm => ?_
        -- an active row that is left would be an exact match
        by_contra hsubject
        rw [Bool.not_eq_false] at hsubject
        have hbasis := staleDismissed_complete_iff.mpr hdecided m hm hsubject
        obtain ⟨a, ha, rfl⟩ := List.mem_map.mp hm
        split at hsubject
        · simp [sameSubject] at hsubject
        · rename_i hkept
          rw [if_neg hkept] at hbasis
          exact hmatch (List.any_eq_true.mpr ⟨a, ha, by simp [hsubject, hbasis]⟩)

theorem Unique.step {rows rows' : List Nudge} {c : NudgeCall} (h : Unique rows)
    (hok : BasisDecided rows c) (hstep : nudgeStep rows c = some rows') : Unique rows' := by
  cases c with
  | evaluate e =>
    cases hstep
    exact h.evaluateAndRecord hok
  | evaluateUnknownKind =>
    cases hstep
    exact h
  | dismiss nudgeId now =>
    cases hstep
    exact h.dismissed nudgeId now
  | list stale =>
    cases hstep
    induction stale generalizing rows with
    | nil => exact h
    | cons d stale ih => exact ih (h.dismissed d.1 d.2) trivial

/-- From an empty table, with every basis decided, at most one nudge of a subject is active; and
the stale variants that a call leaves active are the exact matches where the basis is decided. -/
theorem nudges_unique {calls : List NudgeCall} {rows : List Nudge}
    (hok : Machine.Along nudgeStep BasisDecided [] calls)
    (hrun : Machine.run nudgeStep [] calls = some rows) :
    Unique rows ∧ ∀ n now,
      ((∀ m ∈ staleDismissed rows n now, sameSubject m n = true → sameBasis m n = some true) ↔
        Decided rows n) := by
  refine ⟨?_, fun n now => staleDismissed_complete_iff⟩
  refine Machine.run_invariant_along nudgeStep (fun _ _ _ h hl hs => Unique.step h hl hs) ?_ hok
    hrun
  intro kind projectId cardId
  simp

/-! Two candidates of one subject -/

def pushFailed (basisCommit : Option Bytes) : NudgeCall :=
  .evaluate ⟨⟨.pushFailedRepeated, ascii "p1", none, 5, none, basisCommit⟩, true, ascii "b",
    .object [], 5, .insertion⟩

/-- A candidate without a commit, and then one with a commit: both nudges stay active. -/
theorem two_active_nudges :
    ∃ rows, Machine.run nudgeStep [] [pushFailed none, pushFailed (some (ascii "c1"))] =
      some rows ∧ ¬ Unique rows := by
  obtain ⟨rows, hrun, htest⟩ := Machine.run_of_any nudgeStep []
    [pushFailed none, pushFailed (some (ascii "c1"))]
    (fun rows => decide (1 < rows.countP fun n =>
      n.active (cString (ascii "git.push_failed_repeated")) (cString (ascii "p1")) none))
    (by decide +kernel)
  exact ⟨rows, hrun, fun h => Nat.not_lt.mpr (h _ _ _) (of_decide_eq_true htest)⟩

instance (rows : List Nudge) (n : Nudge) : Decidable (Decided rows n) :=
  inferInstanceAs (Decidable (∀ m ∈ rows, sameSubject m n = true → ¬ sameBasis m n = none))

instance (rows : List Nudge) : (c : NudgeCall) → Decidable (BasisDecided rows c)
  | .evaluate e => inferInstanceAs (Decidable (e.shouldNudge = true → ¬ e.reached = .nothing →
      Decided rows e.nudge))
  | .evaluateUnknownKind | .dismiss _ _ | .list _ => inferInstanceAs (Decidable True)

/-- Two commits, one after the other. -/
theorem nudges_unique_commits :
    let calls := [pushFailed (some (ascii "c1")), pushFailed (some (ascii "c2"))]
    ∃ rows, Machine.run nudgeStep [] calls = some rows ∧ rows.length = 2 ∧ Unique rows := by
  intro calls
  obtain ⟨rows, hrun, htest⟩ := Machine.run_of_any nudgeStep [] calls
    (fun rows => decide (rows.length = 2)) (by decide +kernel)
  exact ⟨rows, hrun, of_decide_eq_true htest, (nudges_unique (by decide +kernel) hrun).1⟩

end AiDurability

end HolderDaemon
