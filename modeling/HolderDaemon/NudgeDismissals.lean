import HolderDaemon.NudgeDecisions

/-!
A dismissed nudge through the statements of `NudgeService`, and through a loss of the database:
its row stays, and its candidate is refused.
-/

set_option autoImplicit false

open Bytes

namespace HolderDaemon

namespace AiDurability

open State

/-! The row of a dismissed nudge -/

def HasDismissed (rows : List Nudge) (n : Nudge) : Prop :=
  Rows.get Nudge.nudgeId n.nudgeId rows = some n ∧ n.dismissedAt.isSome = true

theorem HasDismissed.keptMap {rows : List Nudge} {n : Nudge} (h : HasDismissed rows n)
    {f : Nudge → Nudge} (hf : keptMap f) : HasDismissed (rows.map f) n := by
  refine ⟨?_, h.2⟩
  rw [Rows.get_map Nudge.nudgeId fun m => (hf m).sameFields.2, h.1, Option.map_some,
    (hf n).dismissed h.2]

theorem HasDismissed.insertOrIgnore {rows : List Nudge} {n : Nudge} (h : HasDismissed rows n)
    (m : Nudge) : HasDismissed (insertOrIgnore rows m) n := by
  unfold AiDurability.insertOrIgnore
  split
  · exact h
  · rename_i hnew
    refine ⟨?_, h.2⟩
    rw [Rows.get_put, if_neg]
    · exact h.1
    · intro hid
      rw [hid, h.1] at hnew
      exact hnew rfl

theorem HasDismissed.evaluate {rows : List Nudge} {n : Nudge} (h : HasDismissed rows n)
    (e : Evaluation) : HasDismissed (evaluateAndRecord rows e) n := by
  unfold AiDurability.evaluateAndRecord
  split
  · exact h
  · split
    · exact h
    · have hstale := h.keptMap (keptMap_stale e.nudge e.now)
      dsimp only
      split
      · exact hstale
      · exact hstale.insertOrIgnore e.nudge

theorem HasDismissed.list {rows : List Nudge} {n : Nudge} (h : HasDismissed rows n)
    (stale : List (Text × Int64)) :
    HasDismissed (stale.foldl (fun rows d => dismissed rows d.1 d.2) rows) n := by
  induction stale generalizing rows with
  | nil => exact h
  | cons d stale ih => exact ih (h.keptMap (keptMap_dismissed d.1 d.2))

theorem HasDismissed.step {rows rows' : List Nudge} {n : Nudge} {a : NudgeAction}
    (h : HasDismissed rows n) (hstep : actionStep rows a = some rows') : HasDismissed rows' n := by
  cases a with
  | dismissStaleVariants m now =>
    cases hstep
    exact h.keptMap (keptMap_stale m now)
  | call c =>
    cases c with
    | evaluate e =>
      cases hstep
      exact h.evaluate e
    | evaluateUnknownKind =>
      cases hstep
      exact h
    | dismiss nudgeId now =>
      cases hstep
      exact h.keptMap (keptMap_dismissed nudgeId now)
    | list stale =>
      cases hstep
      exact h.list stale

theorem HasDismissed.run {rows rows' : List Nudge} {n : Nudge} {actions : List NudgeAction}
    (h : HasDismissed rows n) (hrun : Machine.run actionStep rows actions = some rows') :
    HasDismissed rows' n :=
  Machine.run_invariant (I := fun rows => HasDismissed rows n) actionStep
    (fun _ _ _ h hstep => HasDismissed.step h hstep) h hrun

/-! Its candidate -/

/-- No candidate before it is bound to the same values as this one and has another key. -/
def CutApart (before : List NudgeCandidateInput) (e : Evaluation) : Prop :=
  ∀ a ∈ before, (∃ text metaJson, SameFields (a.nudge text metaJson) e.nudge) →
    nudgeKey a = nudgeKey e.input

theorem SameFields.symm {n m : Nudge} (h : SameFields n m) : SameFields m n :=
  ⟨h.kind.symm, h.projectId.symm, h.cardId.symm, h.basisFingerprint.symm, h.basisCommit.symm⟩

theorem SameFields.trans {n m k : Nudge} (h : SameFields n m) (hm : SameFields m k) :
    SameFields n k :=
  ⟨h.kind.trans hm.kind, h.projectId.trans hm.projectId, h.cardId.trans hm.cardId,
    h.basisFingerprint.trans hm.basisFingerprint, h.basisCommit.trans hm.basisCommit⟩

/-- A row with the candidate's values has the candidate's identifier. -/
theorem Recorded.nudgeId {before : List NudgeCandidateInput} {rows : List Nudge}
    (h : Recorded before rows) {e : Evaluation} (hcut : CutApart before e) {n : Nudge}
    (hn : n ∈ rows) (hsame : SameFields n e.nudge) : n.nudgeId = e.nudge.nudgeId := by
  obtain ⟨a, ha, text, metaJson, hid, hfields⟩ := h.origin n hn
  have hkey := hcut a ha ⟨text, metaJson, hfields.symm.trans hsame⟩
  rw [hid, buildNudgeId_eq, hkey, ← buildNudgeId_eq]
  rfl

/-- The candidate of a dismissed nudge, by its identifier or by its values. -/
def IsCandidate (e : Evaluation) (n : Nudge) : Prop :=
  n.nudgeId = e.nudge.nudgeId ∨ SameFields n e.nudge

theorem HasDismissed.refused {before : List NudgeCandidateInput} {rows : List Nudge} {n : Nudge}
    (h : HasDismissed rows n) (hrows : Recorded before rows) {e : Evaluation}
    (hcut : CutApart before e) (he : IsCandidate e n) : (decision rows e).shouldNudge = false := by
  have hid : n.nudgeId = e.nudge.nudgeId := by
    rcases he with hid | hsame
    · exact hid
    · exact hrows.nudgeId hcut (Rows.mem_of_get Nudge.nudgeId h.1) hsame
  -- an active row that matches would be the dismissed one
  have hnone : rows.find? (isExactMatch e.nudge) = none := by
    rw [List.find?_eq_none]
    intro m hm hmatch
    obtain ⟨hactive, hsame⟩ := isExactMatch_iff.mp hmatch
    have hkey := hrows.nudgeId hcut hm hsame
    have hget := Rows.get_of_mem Nudge.nudgeId hrows.nodup hm
    rw [hkey, ← hid, h.1, Option.some.injEq] at hget
    have hat := h.2
    rw [hget, hactive] at hat
    cases hat
  have hstale := h.keptMap (keptMap_stale e.nudge e.now)
  have hstored : createOrGet (staleDismissed rows e.nudge e.now) e.nudge = n := by
    rw [createOrGet, ← hid, staleDismissed, hstale.1, Option.getD_some]
  rw [decision, hnone]
  dsimp only
  rw [hstored, if_pos h.2]
  split <;> rfl

/-- Whatever is done next, the row stays as it is, and its candidate is refused. -/
def ForGood (before : List NudgeAction) (rows : List Nudge) (n : Nudge) : Prop :=
  ∀ after rows', Machine.run actionStep rows after = some rows' →
    (∀ m ∈ rows', m.nudgeId = n.nudgeId → m = n) ∧ n ∈ rows' ∧
      ∀ e, IsCandidate e n → CutApart (evaluated (before ++ after)) e →
        (decision rows' e).shouldNudge = false

theorem HasDismissed.forGood {before : List NudgeAction} {rows : List Nudge} {n : Nudge}
    (h : HasDismissed rows n) (hrows : Recorded (evaluated before) rows) :
    ForGood before rows n := by
  intro after rows' hrun
  have hall : Recorded (evaluated (before ++ after)) rows' := by
    refine recorded_run (hrows.mono fun input hinput => ?_) (fun input hinput => ?_) hrun
    · rw [evaluated_append]
      exact List.mem_append_left _ hinput
    · rw [evaluated_append]
      exact List.mem_append_right _ hinput
  have hn := h.run hrun
  refine ⟨fun m hm hid => ?_, Rows.mem_of_get Nudge.nudgeId hn.1,
    fun e he hcut => hn.refused hall hcut he⟩
  have hget := Rows.get_of_mem Nudge.nudgeId hall.nodup hm
  rw [hid, hn.1, Option.some.injEq] at hget
  exact hget.symm

/-! The durable side -/

/-- An action that returns normally, while the clock stands after 1970. -/
def State.act (t : State) : NudgeAction → Option State
  | .call (.evaluate e) =>
    if e.reached = .insertion ∧ 0 < e.now then
      t.recordNudge e.input e.shouldNudge e.text e.metaJson e.now
    else none
  | .call .evaluateUnknownKind => some t
  | .call (.dismiss nudgeId now) => if 0 < now then t.dismissNudge nudgeId now else none
  | .call (.list stale) =>
    stale.foldlM (fun t d => if 0 < d.2 then t.dismissNudge d.1 d.2 else none) t
  | .dismissStaleVariants n now => if 0 < now then t.dismissStaleVariants n now else none

theorem dismissNudge_nudges {t u : State} {nudgeId : Text} {now : Int64}
    (hnodup : (t.nudges.map Nudge.nudgeId).Nodup) (h : t.dismissNudge nudgeId now = some u) :
    u.nudges = dismissed t.nudges nudgeId now := by
  have hother : ∀ rows : List Nudge, (∀ m ∈ rows, m.nudgeId = nudgeId → m.dismissedAt.isSome) →
      dismissed rows nudgeId now = rows := by
    intro rows hrows
    unfold dismissed
    conv_rhs => rw [← List.map_id rows]
    refine List.map_congr_left fun m hm => ?_
    rw [if_neg, id]
    intro hboth
    rw [Bool.and_eq_true, decide_eq_true_eq, Option.isNone_iff_eq_none] at hboth
    have hat := hrows m hm hboth.1
    rw [hboth.2] at hat
    cases hat
  unfold State.dismissNudge at h
  split at h
  · rename_i hnone
    cases h
    refine (hother t.nudges fun m hm hid => ?_).symm
    have hsome := Rows.get_isSome_of_mem Nudge.nudgeId hm
    rw [hid, hnone] at hsome
    cases hsome
  · rename_i n hget
    split at h
    · rename_i hat
      cases h
      refine (hother t.nudges fun m hm hid => ?_).symm
      have hsame := Rows.get_of_mem Nudge.nudgeId hnodup hm
      rw [hid, hget, Option.some.injEq] at hsame
      exact hsame ▸ hat
    · rename_i hat
      rw [persistNudgeDismissal_nudges h]
      have hkey : n.nudgeId = nudgeId := Rows.key_of_get Nudge.nudgeId hget
      have hput := Rows.put_eq_map Nudge.nudgeId hnodup hget
        (f := fun m => { m with dismissedAt := some now }) hkey
      rw [hput]
      refine List.map_congr_left fun m hm => ?_
      by_cases hid : m.nudgeId = nudgeId
      · have hsame := Rows.get_of_mem Nudge.nudgeId hnodup hm
        rw [hid, hget, Option.some.injEq] at hsame
        have hnone : m.dismissedAt = none := by
          rw [← hsame]
          exact Option.not_isSome_iff_eq_none.mp hat
        simp [hid, hnone]
      · simp [hid]

theorem nodup_dismissed {rows : List Nudge} (h : (rows.map Nudge.nudgeId).Nodup) (nudgeId : Text)
    (now : Int64) : ((dismissed rows nudgeId now).map Nudge.nudgeId).Nodup := by
  rw [dismissed, List.map_map]
  rwa [show Nudge.nudgeId ∘ _ = Nudge.nudgeId from
    funext fun m => (keptMap_dismissed nudgeId now m).sameFields.2]

theorem act_nudges {t u : State} {a : NudgeAction} (hnodup : (t.nudges.map Nudge.nudgeId).Nodup)
    (h : t.act a = some u) : actionStep t.nudges a = some u.nudges := by
  cases a with
  | dismissStaleVariants n now =>
    simp only [State.act] at h
    split at h
    · exact congrArg some (foldlM_backfillNudge_nudges h).symm
    · cases h
  | call c =>
    cases c with
    | evaluate e =>
      simp only [State.act] at h
      split at h
      · rename_i hnormal
        exact congrArg some (recordNudge_nudges hnormal.1 h).symm
      · cases h
    | evaluateUnknownKind =>
      cases h
      rfl
    | dismiss nudgeId now =>
      simp only [State.act] at h
      split at h
      · exact congrArg some (dismissNudge_nudges hnodup h).symm
      · cases h
    | list stale =>
      simp only [actionStep, nudgeStep, Option.some.injEq]
      induction stale generalizing t with
      | nil =>
        cases h
        rfl
      | cons d stale ih =>
        simp only [State.act, List.foldlM_cons] at h
        obtain ⟨m, hm, h⟩ := Option.bind_eq_some_iff.mp h
        split at hm
        · have hrows := dismissNudge_nudges hnodup hm
          rw [List.foldl_cons, ← hrows]
          refine ih ?_ h
          rw [hrows]
          exact nodup_dismissed hnodup d.1 d.2
        · cases hm

theorem Inv.act {t u : State} (h : Inv (fun _ => False) t) {a : NudgeAction}
    (hstep : t.act a = some u) : Inv (fun _ => False) u := by
  cases a with
  | dismissStaleVariants n now =>
    simp only [State.act] at hstep
    split at hstep
    · rename_i hnow
      exact (h.dismissStaleVariants hnow hstep).1
    · cases hstep
  | call c =>
    cases c with
    | evaluate e =>
      simp only [State.act] at hstep
      split at hstep
      · rename_i hnormal
        exact h.recordNudge hnormal.2 hstep
      · cases hstep
    | evaluateUnknownKind =>
      cases hstep
      exact h
    | dismiss nudgeId now =>
      simp only [State.act] at hstep
      split at hstep
      · rename_i hnow
        exact h.dismissNudge hnow hstep
      · cases hstep
    | list stale =>
      induction stale generalizing t with
      | nil =>
        cases hstep
        exact h
      | cons d stale ih =>
        simp only [State.act, List.foldlM_cons] at hstep
        obtain ⟨m, hm, hstep⟩ := Option.bind_eq_some_iff.mp hstep
        split at hm
        · rename_i hnow
          exact ih (h.dismissNudge hnow hm) hstep
        · cases hm

/-- A run of normal returns is a run of the statements. -/
theorem act_run {t u : State} {inputs : List NudgeCandidateInput} {actions : List NudgeAction}
    (h : Recorded inputs t.nudges) (hinputs : ∀ input ∈ evaluated actions, input ∈ inputs)
    (hrun : Machine.run State.act t actions = some u) :
    Machine.run actionStep t.nudges actions = some u.nudges := by
  induction actions generalizing t with
  | nil =>
    cases hrun
    rfl
  | cons a actions ih =>
    obtain ⟨m, hm, hrun⟩ := Machine.run_cons_some State.act hrun
    have hstep := act_nudges h.nodup hm
    have hcons : evaluated (a :: actions) = evaluated [a] ++ evaluated actions :=
      evaluated_append [a] actions
    rw [hcons] at hinputs
    have hone : Machine.run actionStep t.nudges [a] = some m.nudges := by
      rw [Machine.run_cons, hstep]
      rfl
    have hmid : Recorded inputs m.nudges :=
      recorded_run h (fun input hinput => hinputs input (List.mem_append_left _ hinput)) hone
    rw [Machine.run_cons, hstep]
    exact ih hmid (fun input hinput => hinputs input (List.mem_append_right _ hinput)) hrun

/-- A dismissed row stays and its candidate is refused, whatever calls follow and wherever they
stop. After calls that return normally it has its file, and a database that is lost and restored
has it again, for good. -/
theorem dismissed_for_good (actions : List NudgeAction) :
    (∀ rows n, Machine.run actionStep [] actions = some rows → n ∈ rows →
        n.dismissedAt.isSome = true → ForGood actions rows n) ∧
      ∀ t u, Fresh t → Machine.run State.act t actions = some u →
        Machine.run actionStep [] actions = some u.nudges ∧
          (∀ n ∈ u.nudges, n.dismissedAt.isSome = true →
            n.projectId ∈ u.projectIds ∧ ∃ path raw dismissedAt,
              (path, raw) ∈ (u.project n.projectId).files ∧
                HoldsNudge u n.projectId path raw n dismissedAt) ∧
          ∀ listing : Text → Files, (∀ id, (listing id).Perm (u.project id).files) →
            ∃ db, recover u listing = .ok db ∧
              ∀ n ∈ u.nudges, n.dismissedAt.isSome = true →
                n ∈ db.nudges ∧ ForGood actions db.nudges n := by
  refine ⟨fun rows n hrun hn hat => ?_, fun t u hfresh hrun => ?_⟩
  · have hrows := recorded_run (recorded_nil (evaluated actions)) (fun _ h => h) hrun
    exact HasDismissed.forGood ⟨Rows.get_of_mem Nudge.nudgeId hrows.nodup hn, hat⟩ hrows
  · have hinv : Inv (fun _ => False) u :=
      Machine.run_invariant (I := Inv fun _ => False) State.act (fun _ _ _ h hstep => h.act hstep)
        (inv_of_fresh hfresh) hrun
    have hnil : Recorded (evaluated actions) t.nudges := hfresh.nudges ▸ recorded_nil _
    have hstatements := act_run hnil (fun _ h => h) hrun
    have hrows := recorded_run hnil (fun _ h => h) hstatements
    have hget : ∀ n ∈ u.nudges, Rows.get Nudge.nudgeId n.nudgeId u.nudges = some n :=
      fun n hn => Rows.get_of_mem Nudge.nudgeId hrows.nodup hn
    refine ⟨hfresh.nudges ▸ hstatements, fun n hn hat => hinv.tombstone (hget n hn) hat,
      fun listing hlisting => ?_⟩
    obtain ⟨db, hdb, hback, hsound⟩ := hinv.recover_sound hlisting
    have hrestored : Recorded (evaluated actions) db.nudges := by
      refine ⟨hsound.nodup, fun n hn => hrows.origin n ?_⟩
      exact Rows.mem_of_get Nudge.nudgeId (State.dismissed_some (hsound.dismissed n hn)).1
    refine ⟨db, hdb, fun n hn hat => ?_⟩
    have hkept := hback.nudges n.nudgeId n (hget n hn) hat
    exact ⟨Rows.mem_of_get Nudge.nudgeId hkept, HasDismissed.forGood ⟨hkept, hat⟩ hrestored⟩

/-! A commit with a NUL in it -/

def cutCandidate : Evaluation := pushFailedCandidate (some (ascii "a" ++ 0 :: ascii "b"))

/-- The commit is cut where it is bound: the dismissed candidate is answered with the active nudge
of another one. -/
theorem dismissed_comes_back :
    let calls : List NudgeAction := [.call (.evaluate cutCandidate),
      .call (.dismiss cutCandidate.nudge.nudgeId 7),
      .call (.evaluate (pushFailedCandidate (some (ascii "a"))))]
    ∃ rows, Machine.run actionStep [] calls = some rows ∧
      (∃ n ∈ rows, n.dismissedAt.isSome = true ∧ IsCandidate cutCandidate n) ∧
      (decision rows cutCandidate).shouldNudge = true := by
  intro calls
  obtain ⟨rows, hrun, htest⟩ := Machine.run_of_any actionStep [] calls
    (fun rows => decide ((∃ n ∈ rows, n.dismissedAt.isSome = true ∧
      n.nudgeId = cutCandidate.nudge.nudgeId) ∧ (decision rows cutCandidate).shouldNudge = true))
    (by decide +kernel)
  obtain ⟨⟨n, hn, hat, hid⟩, hnudge⟩ := of_decide_eq_true htest
  exact ⟨rows, hrun, ⟨n, hn, hat, .inl hid⟩, hnudge⟩

/-- A nudge that is dismissed, lost with the database and restored. -/
theorem dismissed_for_good_commit :
    let e := pushFailedCandidate (some (ascii "c1"))
    let calls : List NudgeAction := [.call (.evaluate e), .call (.dismiss e.nudge.nudgeId 7)]
    ∃ u, Machine.run State.act onePlainProject calls = some u ∧
      ∃ n ∈ u.nudges, n.dismissedAt = some 7 ∧ ForGood calls u.nudges n ∧
        ∃ db, recover u (fun id => (u.project id).files) = .ok db ∧ n ∈ db.nudges ∧
          ForGood calls db.nudges n := by
  intro e calls
  obtain ⟨u, hrun, htest⟩ := Machine.run_of_any State.act onePlainProject calls
    (fun u => decide (∃ n ∈ u.nudges, n.dismissedAt = some 7)) (by decide +kernel)
  obtain ⟨n, hn, hat⟩ := of_decide_eq_true htest
  have hsome : n.dismissedAt.isSome = true := by rw [hat]; rfl
  obtain ⟨hstatements, _, hback⟩ := (dismissed_for_good calls).2 onePlainProject u
    fresh_onePlainProject hrun
  obtain ⟨db, hdb, hall⟩ := hback _ fun _ => .refl _
  obtain ⟨hmem, hgood⟩ := hall n hn hsome
  exact ⟨u, hrun, n, hn, hat, (dismissed_for_good calls).1 u.nudges n hstatements hn hsome,
    db, hdb, hmem, hgood⟩

end AiDurability

end HolderDaemon
