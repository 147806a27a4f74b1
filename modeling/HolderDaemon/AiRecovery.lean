import HolderDaemon.DurableRuns
import HolderDaemon.Loops

/-!
Recovery after a database loss: what `restore_thread_compaction_states` and
`restore_nudge_dismissals` make of the files that a run has left behind.
-/

set_option autoImplicit false

open Bytes

namespace HolderDaemon

namespace AiDurability

/-! The rebuilt threads -/

theorem rebuiltProjects_eq {t : State} (h : ProjectsKept t) : rebuiltProjects t = t.projectIds :=
  List.filter_eq_self.mpr h.manifest

theorem get_rebuilt {t : State} (hp : ProjectsKept t) (h : ThreadsKept t) (id : Text) :
    Rows.get Thread.threadId id (rebuilt t).threads = Rows.get Thread.threadId id t.threads := by
  have hback : ∀ thread, Rows.get Thread.threadId id (rebuilt t).threads = some thread →
      Rows.get Thread.threadId id t.threads = some thread := by
    intro thread hget
    obtain ⟨owner, howner, hmem⟩ := List.mem_flatMap.mp (Rows.mem_of_get Thread.threadId hget)
    rw [rebuiltProjects_eq hp] at howner
    have hkey : thread.threadId = id := Rows.key_of_get Thread.threadId hget
    rw [← hkey]
    exact (h.manifests owner howner thread hmem).2
  cases hget : Rows.get Thread.threadId id (rebuilt t).threads with
  | some thread => exact (hback thread hget).symm
  | none =>
    cases hthread : Rows.get Thread.threadId id t.threads with
    | none => rfl
    | some thread =>
      obtain ⟨hid, hmem⟩ := h.live id thread hthread
      have hrebuilt : thread ∈ (rebuilt t).threads :=
        List.mem_flatMap.mpr ⟨thread.projectId, (rebuiltProjects_eq hp).symm ▸ hid, hmem⟩
      have hsome := Rows.get_isSome_of_mem Thread.threadId hrebuilt
      rw [show thread.threadId = id from Rows.key_of_get Thread.threadId hthread, hget] at hsome
      cases hsome

theorem listed_head {root : String} {path : Path} (h : listed root path = true) :
    path.head? = some (ascii root) := by
  simp only [listed, Bool.and_eq_true, decide_eq_true_eq] at h
  exact h.1.1

/-! Thread states -/

theorem HoldsState.get_states {t : State} {projectId : Text} {path : Path} {raw : Blob}
    {s : ThreadCompactionState} (h : HoldsState t projectId path raw s) :
    ∃ thread, Rows.get Thread.threadId s.threadId t.threads = some thread ∧
      thread.projectId = projectId ∧
      Rows.get StateRow.threadId s.threadId t.states = some s.row := by
  obtain ⟨thread, hthread, hkept⟩ := Option.bind_eq_some_iff.mp h.kept
  obtain ⟨row, hrow, heq⟩ := Option.map_eq_some_iff.mp hkept
  cases heq
  exact ⟨thread, hthread, rfl, hrow⟩

/-- While the states are read back: the threads stand, and no row is wrong. -/
def StatesSound (t : State) (db : Database) : Prop :=
  (∀ id, Rows.get Thread.threadId id db.threads = Rows.get Thread.threadId id t.threads) ∧
    ∀ id row, Rows.get StateRow.threadId id db.states = some row →
      Rows.get StateRow.threadId id t.states = some row

def StateRestored (t : State) (file : Path × Blob) (db : Database) : Prop :=
  ∀ projectId s, HoldsState t projectId file.1 file.2 s →
    Rows.get StateRow.threadId s.threadId db.states = some s.row

theorem restoreThreadState_achieves {t : State} (h : StatesKept t) {id : Text}
    (hid : id ∈ t.projectIds) {file : Path × Blob} (hmem : file ∈ (t.project id).files) :
    Loops.Achieves (restoreThreadState id (t.project id)) (StatesSound t) (StateRestored t)
      file := by
  rintro db ⟨hthreads, hrows⟩
  by_cases hlisted : listed "ai_thread_state" file.1 = true
  · obtain ⟨s, hs⟩ := h.files id hid file.1 file.2 hmem (listed_head hlisted)
    obtain ⟨thread, hthread, hproject, hrow⟩ := hs.get_states
    have hshape := relativePath_shape two_lt_length_state hs.regular hs.path
    refine ⟨{ db with states := Rows.put StateRow.threadId s.row db.states }, ?_,
      ⟨hthreads, fun other row hget => ?_⟩, fun projectId s' hs' => ?_,
      fun b hb projectId s' hs' => ?_⟩
    · have hne : s.threadId.val ≠ [] := List.ne_nil_of_length_pos (by omega)
      simp only [restoreThreadState, hlisted, decode_encode hs.raw, stateOfJson_stateJson s hne,
        bind, Except.bind, hshape.2.2.1, cString_val, hthreads, hthread, hproject]
      simp
    · rw [Rows.get_put] at hget
      split at hget
      · rename_i hkey
        cases hget
        rw [← hkey]
        exact hrow
      · exact hrows other row hget
    · have heq : s'.threadId = s.threadId := relativePath_injective two_lt_length_state hs'.regular
        hs.regular hs'.path hs.path
      obtain ⟨-, -, -, hrow'⟩ := hs'.get_states
      rw [heq, hrow] at hrow'
      rw [Rows.get_put, s.row_threadId, if_pos heq.symm]
      exact hrow'
    · rw [Rows.get_put]
      split
      · rename_i hkey
        obtain ⟨-, -, -, hrow'⟩ := hs'.get_states
        rw [← show s.threadId = s'.threadId from hkey, hrow] at hrow'
        exact hrow'
      · exact hb projectId s' hs'
  · refine ⟨db, by simp [restoreThreadState, hlisted], ⟨hthreads, hrows⟩, ?_, fun _ hb => hb⟩
    intro projectId s hs
    exact absurd (relativePath_listed two_lt_length_state hs.regular hs.path) hlisted

theorem restoreThreadState_nudges {id : Text} {p : Project} {db : Database} {file : Path × Blob}
    {db' : Database} (h : restoreThreadState id p db file = .ok db') : db'.nudges = db.nudges := by
  unfold restoreThreadState at h
  split at h
  · cases h
    rfl
  · cases hbody : decode id p "encrypted project has no key for AI thread state" file.2 with
    | error e =>
      rw [hbody] at h
      cases h
    | ok body =>
      rw [hbody] at h
      cases hstate : stateOfJson body with
      | error e =>
        simp only [bind, Except.bind, hstate] at h
        cases h
      | ok state =>
        simp only [bind, Except.bind, hstate] at h
        split at h
        · cases h
        · split at h
          · cases h
          · split at h
            · cases h
            · cases h
              rfl

/-! Dismissals -/

def NudgeRestored (t : State) (file : Path × Blob) (db : Database) : Prop :=
  ∀ projectId n dismissedAt, HoldsNudge t projectId file.1 file.2 n dismissedAt →
    Rows.get Nudge.nudgeId n.nudgeId db.nudges = some n

theorem HoldsNudge.regular {due : Text → Prop} {t : State} {projectId : Text} {path : Path}
    {raw : Blob} {n : Nudge} {dismissedAt : Int64}
    (h : HoldsNudge t projectId path raw n dismissedAt)
    (ht : NudgesKept due t) : n.Stored :=
  (ht.stored n.nudgeId n (State.dismissed_some h.row).1).1

/-- The rows that have been read back are dismissed rows, each once. -/
structure NudgesSound (t : State) (db : Database) : Prop where
  nodup : (db.nudges.map Nudge.nudgeId).Nodup
  dismissed : ∀ n ∈ db.nudges, t.dismissed n.nudgeId = some n

theorem restoreNudge_achieves {t : State} (h : NudgesKept (fun _ => False) t)
    {states : List StateRow} {id : Text} (hid : id ∈ t.projectIds) {file : Path × Blob}
    (hmem : file ∈ (t.project id).files) :
    Loops.Achieves (restoreNudge id (t.project id))
      (fun db => db.states = states ∧ NudgesSound t db) (NudgeRestored t) file := by
  rintro db ⟨hstates, hsound⟩
  by_cases hlisted : listed "ai_nudge_dismissals" file.1 = true
  · obtain ⟨n, dismissedAt, hn⟩ := h.files id hid file.1 file.2 hmem (listed_head hlisted)
    have hstored := hn.regular h
    have hshape := relativePath_shape two_lt_length_nudge hstored.regular hn.path
    have hself : ∀ m : Nudge, t.dismissed m.nudgeId = some m → m.nudgeId = n.nudgeId → m = n := by
      intro m hm heq
      rw [heq, hn.row, Option.some.injEq] at hm
      exact hm.symm
    have hnext : NudgesSound t { db with nudges := Rows.put Nudge.nudgeId n db.nudges } := by
      refine ⟨Rows.nodup_put Nudge.nudgeId hsound.nodup, fun m hm => ?_⟩
      rcases Rows.mem_put Nudge.nudgeId hm with rfl | hm
      · exact hn.row
      · exact hsound.dismissed m hm
    refine ⟨{ db with nudges := Rows.put Nudge.nudgeId n db.nudges }, ?_, ⟨hstates, hnext⟩,
      fun projectId m at' hm => ?_, fun b hb projectId m at' hm => ?_⟩
    · simp only [restoreNudge, hlisted, decode_encode hn.raw, nudgeOfJson_nudgeJson hstored
        hn.dismissed, bind, Except.bind, hshape.2.2.1, hn.project]
      simp
    · have heq : m.nudgeId = n.nudgeId := relativePath_injective two_lt_length_nudge
        (hm.regular h).regular hstored.regular hm.path hn.path
      rw [Rows.get_put, if_pos heq.symm, hself m hm.row heq]
    · rw [Rows.get_put]
      split
      · rename_i hkey
        rw [hself m hm.row hkey.symm]
      · exact hb projectId m at' hm
  · refine ⟨db, by simp [restoreNudge, hlisted], ⟨hstates, hsound⟩, ?_, fun _ hb => hb⟩
    intro projectId n dismissedAt hn
    exact absurd (relativePath_listed two_lt_length_nudge (hn.regular h).regular hn.path) hlisted

/-! Recovery -/

/-- The restored database has the compaction state of every live thread and the row of every
dismissed nudge. -/
structure ReadsBack (t : State) (db : Database) : Prop where
  states : ∀ id thread, Rows.get Thread.threadId id t.threads = some thread →
    Rows.get StateRow.threadId id db.states = Rows.get StateRow.threadId id t.states
  nudges : ∀ id n, Rows.get Nudge.nudgeId id t.nudges = some n → n.dismissedAt.isSome = true →
    Rows.get Nudge.nudgeId id db.nudges = some n

/-- The file of a dismissed row. -/
theorem Inv.tombstone {t : State} (h : Inv (fun _ => False) t) {id : Text} {n : Nudge}
    (hget : Rows.get Nudge.nudgeId id t.nudges = some n) (hat : n.dismissedAt.isSome = true) :
    n.projectId ∈ t.projectIds ∧ ∃ path raw dismissedAt,
      (path, raw) ∈ (t.project n.projectId).files ∧
        HoldsNudge t n.projectId path raw n dismissedAt := by
  have hd := State.dismissed_of_get hget hat
  obtain ⟨path, raw, hpath, hmem⟩ := h.nudges.rows id n hd not_false
  obtain ⟨hstored, hid⟩ := h.nudges.stored id n hget
  have hkey : n.nudgeId = id := Rows.key_of_get Nudge.nudgeId hget
  rw [← hkey] at hpath hd
  obtain ⟨m, dismissedAt, hm⟩ := h.nudges.files _ hid path raw hmem
    (nudgePath_head hstored.regular hpath)
  have heq : m.nudgeId = n.nudgeId := relativePath_injective two_lt_length_nudge
    (hm.regular h.nudges).regular hstored.regular hm.path hpath
  have hrow := hm.row
  rw [heq, hd, Option.some.injEq] at hrow
  subst hrow
  exact ⟨hid, path, raw, dismissedAt, hmem, hm⟩

theorem Inv.recover_sound {t : State} (h : Inv (fun _ => False) t) {listing : Text → Files}
    (hlisting : ∀ id, (listing id).Perm (t.project id).files) :
    ∃ db, recover t listing = .ok db ∧ ReadsBack t db ∧ NudgesSound t db := by
  have hids := rebuiltProjects_eq h.projects
  have hstart : StatesSound t (rebuilt t) := ⟨get_rebuilt h.projects h.threads, by simp [rebuilt]⟩
  obtain ⟨mid, hmid, ⟨-, hsound⟩, hstates⟩ := Loops.foldlM_foldlM_achieves t.projectIds
    listing (fun id hid file hmem =>
      restoreThreadState_achieves h.states hid ((hlisting id).mem_iff.mp hmem)) hstart
  have hnone : mid.nudges = [] := by
    refine Loops.foldlM_invariant (I := fun db => db.nudges = []) (fun s id u hs h => ?_) rfl hmid
    exact Loops.foldlM_invariant (I := fun db => db.nudges = [])
      (fun _ _ _ hs h => (restoreThreadState_nudges h).trans hs) hs h
  obtain ⟨db, hdb, ⟨hkept, hall⟩, hnudges⟩ := Loops.foldlM_foldlM_achieves t.projectIds
    listing (fun id hid file hmem =>
      restoreNudge_achieves h.nudges hid ((hlisting id).mem_iff.mp hmem)) (s := mid)
      ⟨rfl, by rw [hnone]; exact List.nodup_nil, by rw [hnone]; exact List.forall_mem_nil _⟩
  refine ⟨db, ?_, ⟨?_, ?_⟩, hall⟩
  · simp only [AiDurability.recover, hids, hmid, bind, Except.bind]
    exact hdb
  · intro id thread hthread
    rw [hkept]
    cases hrow : Rows.get StateRow.threadId id t.states with
    | none =>
      cases hget : Rows.get StateRow.threadId id mid.states with
      | none => rfl
      | some row =>
        rw [hsound id row hget] at hrow
        cases hrow
    | some row =>
      have hk : t.kept id = some (thread.projectId, row) := by simp [State.kept, hthread, hrow]
      obtain ⟨hid, hregular, path, raw, hpath, hmem⟩ := h.states.rows id _ _ hk
      obtain ⟨s, hs⟩ := h.states.files _ hid path raw hmem (statePath_head hregular hpath)
      have heq : s.threadId = id := relativePath_injective two_lt_length_state hs.regular hregular
        hs.path hpath
      obtain ⟨-, -, -, hs'⟩ := hs.get_states
      have hback := hstates _ hid (path, raw) ((hlisting _).mem_iff.mpr hmem) _ s hs
      rw [heq] at hs' hback
      rw [hback, ← hs', hrow]
  · intro id n hget hat
    obtain ⟨hid, path, raw, dismissedAt, hmem, hn⟩ := h.tombstone hget hat
    rw [← show n.nudgeId = id from Rows.key_of_get Nudge.nudgeId hget]
    exact hnudges _ hid (path, raw) ((hlisting _).mem_iff.mpr hmem) _ _ _ hn

theorem Inv.recover {t : State} (h : Inv (fun _ => False) t) {listing : Text → Files}
    (hlisting : ∀ id, (listing id).Perm (t.project id).files) :
    ∃ db, recover t listing = .ok db ∧ ReadsBack t db := by
  obtain ⟨db, hdb, hback, _⟩ := h.recover_sound hlisting
  exact ⟨db, hdb, hback⟩

/-- Recovery after a run of harmless steps succeeds and reads everything back, in whatever order
the files are listed. -/
theorem recover_reads_back {t u : State} (h : Fresh t) {steps : List Step}
    (hok : Machine.Along State.step Harmless t steps)
    (hrun : Machine.run State.step t steps = some u) {listing : Text → Files}
    (hlisting : ∀ id, (listing id).Perm (u.project id).files) :
    ∃ db, recover u listing = .ok db ∧ ReadsBack u db :=
  (Inv.run h hok hrun).recover hlisting

/-! Runs on one plain project -/

def textOf (s : String) : Text := cString (ascii s)

def onePlainProject : State where
  projectIds := [textOf "p1"]
  project := fun _ => { privacyMode := .plain, projectKeyId := none, manifest := true }

theorem fresh_onePlainProject : Fresh onePlainProject := by
  refine ⟨?_, fun _ _ => rfl, fun _ _ => rfl, fun _ _ => rfl, rfl, rfl, rfl⟩
  simp only [onePlainProject, List.mem_singleton, forall_eq]
  decide

def stateUpdate : List Step :=
  [.createThread ⟨textOf "thread-1", textOf "p1", none, textOf "t", 1, 1⟩,
    .updateState ⟨textOf "thread-1", some (ascii "sum"), none, none, 2⟩]

def refusal (t : State) : Option Bytes :=
  match recover t fun id => (t.project id).files with
  | .ok _ => none
  | .error e => some e

/-- A deleted thread's state file, and a state file written before the project's mode changed:
each stops the whole recovery. -/
theorem recovery_refused :
    Fresh onePlainProject ∧
      (∃ t, Machine.run State.step onePlainProject
          (stateUpdate ++ [.deleteThread (textOf "thread-1") true]) = some t ∧
        recover t (fun id => (t.project id).files) =
          .error (ascii "AI thread state references an unknown thread")) ∧
      ∃ t, Machine.run State.step onePlainProject
          (stateUpdate ++ [.patchPrivacyMode (textOf "p1") .encryptedGit (ascii "k1")]) = some t ∧
        recover t (fun id => (t.project id).files) = .error (ascii "decryption failed") := by
  have hrefused : ∀ t e, decide (refusal t = some e) = true →
      recover t (fun id => (t.project id).files) = .error e := by
    intro t e h
    have h := of_decide_eq_true h
    unfold refusal at h
    split at h
    · cases h
    · rename_i heq
      rw [heq, Option.some.inj h]
  refine ⟨fresh_onePlainProject, ?_, ?_⟩
  · obtain ⟨t, hrun, htest⟩ := Machine.run_of_any State.step onePlainProject
      (stateUpdate ++ [.deleteThread (textOf "thread-1") true])
      (fun t => decide (refusal t = some (ascii "AI thread state references an unknown thread")))
      (by decide +kernel)
    exact ⟨t, hrun, hrefused t _ htest⟩
  · obtain ⟨t, hrun, htest⟩ := Machine.run_of_any State.step onePlainProject
      (stateUpdate ++ [.patchPrivacyMode (textOf "p1") .encryptedGit (ascii "k1")])
      (fun t => decide (refusal t = some (ascii "decryption failed"))) (by decide +kernel)
    exact ⟨t, hrun, hrefused t _ htest⟩

/-- An encrypted project with a thread's state and a dismissed nudge. -/
theorem recover_reads_back_encrypted :
    let steps := [Step.patchPrivacyMode (textOf "p1") .encryptedGit (ascii "k1")] ++ stateUpdate ++
      [.recordNudge ⟨.titleOnly, ascii "p1", some (ascii "c1"), 5, none, none⟩ true (ascii "b")
          (.object []) 5,
        .dismissNudge (cString (buildNudgeId ⟨.titleOnly, ascii "p1", some (ascii "c1"), 5, none,
          none⟩)) 7]
    ∃ t, Machine.run State.step onePlainProject steps = some t ∧
      t.states.length = 1 ∧ (t.nudges.filter fun n => n.dismissedAt.isSome).length = 1 ∧
      ∃ db, recover t (fun id => (t.project id).files) = .ok db ∧ ReadsBack t db := by
  intro steps
  obtain ⟨t, hrun, htest⟩ := Machine.run_of_any State.step onePlainProject steps
    (fun t => decide (t.states.length = 1 ∧
      (t.nudges.filter fun n => n.dismissedAt.isSome).length = 1)) (by decide +kernel)
  obtain ⟨hstates, hnudges⟩ := of_decide_eq_true htest
  exact ⟨t, hrun, hstates, hnudges, recover_reads_back fresh_onePlainProject (by decide +kernel)
    hrun fun _ => .refl _⟩

end AiDurability

end HolderDaemon
