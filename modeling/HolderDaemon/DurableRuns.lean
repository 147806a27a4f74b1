import HolderDaemon.DurableHistory
import HolderDaemon.Machine

/-!
The durable AI files over whole runs: what the operations on nudges and on a project's mode keep,
and that a run of harmless steps leaves the files and the rows the same.
-/

set_option autoImplicit false

open Bytes

namespace HolderDaemon

namespace AiDurability

/-! Nudges -/

theorem NudgesKept.mono {due due' : Text → Prop} {t : State} (h : NudgesKept due t)
    (hle : ∀ id n, t.dismissed id = some n → due id → due' id) : NudgesKept due' t where
  stored := h.stored
  files := h.files
  rows := fun id n hget hdue => h.rows id n hget fun hd => hdue (hle id n hget hd)

theorem State.dismissed_of_get {t : State} {id : Text} {n : Nudge}
    (hget : Rows.get Nudge.nudgeId id t.nudges = some n) (h : n.dismissedAt.isSome = true) :
    t.dismissed id = some n := by
  rw [State.dismissed, hget]
  simp [h]

/-- The rows that writing a dismissal leaves alone. -/
structure SameRows (t u : State) : Prop where
  nudges : u.nudges = t.nudges
  ids : u.projectIds = t.projectIds

theorem Inv.persistNudgeDismissal {due : Text → Prop} {t u : State} (h : Inv due t)
    {nudgeId : Text} (hstep : t.persistNudgeDismissal nudgeId = some u) :
    Inv (fun id => due id ∧ id ≠ nudgeId) u ∧ SameRows t u := by
  -- where nothing is written, there is no such dismissed row
  have hnone : t.dismissed nudgeId = none → Inv (fun id => due id ∧ id ≠ nudgeId) t := by
    refine fun hdismissed => ⟨h.projects, h.threads, h.states, h.nudges.mono ?_⟩
    rintro id n hget hd
    refine ⟨hd, ?_⟩
    rintro rfl
    rw [hdismissed] at hget
    cases hget
  unfold State.persistNudgeDismissal at hstep
  split at hstep
  · rename_i hget
    cases hstep
    exact ⟨hnone (by simp [State.dismissed, hget]), rfl, rfl⟩
  · rename_i n hget
    have hkey : n.nudgeId = nudgeId := Rows.key_of_get Nudge.nudgeId hget
    subst hkey
    split at hstep
    · rename_i hat
      cases hstep
      exact ⟨hnone (by simp [State.dismissed, hget, hat]), rfl, rfl⟩
    · rename_i dismissedAt hat
      obtain ⟨hstored, hid⟩ := h.nudges.stored n.nudgeId n hget
      simp only [hid, h.projects.manifest _ hid, Bool.not_true, Bool.false_eq_true, if_true,
        if_false] at hstep
      obtain ⟨path, hpath, hstep⟩ := Option.bind_eq_some_iff.mp hstep
      obtain ⟨raw, hraw, hstep⟩ := Option.bind_eq_some_iff.mp hstep
      have hu := (Option.some.inj hstep).symm
      subst hu
      have hhead := nudgePath_head hstored.regular hpath
      have hrow := State.dismissed_of_get hget (by simp [hat])
      refine ⟨⟨h.projects.frame rfl fun id => update_same Project.manifest (by rfl) id,
        h.threads.frame rfl rfl fun id => update_same Project.threadManifests (by rfl) id,
        h.states.frame (sameFiles_writeFile rfl rfl hhead (Ne.symm roots_ne)) fun _ => rfl, ?_⟩,
        rfl, rfl⟩
      exact h.nudges.writeFile rfl rfl rfl hrow hat hpath hraw

theorem Inv.backfillNudge {due : Text → Prop} {t u : State} (h : Inv due t) {n : Nudge}
    (hstep : t.backfillNudge n = some u) :
    Inv (fun id => due id ∧ Rows.get Nudge.nudgeId id t.nudges ≠ some n) u ∧
      SameRows t u := by
  unfold State.backfillNudge at hstep
  split at hstep
  · rename_i hskip
    cases hstep
    refine ⟨⟨h.projects, h.threads, h.states, h.nudges.mono fun id m hget hd => ⟨hd, ?_⟩⟩,
      rfl, rfl⟩
    intro hn
    obtain ⟨-, hid⟩ := h.nudges.stored id n hn
    have hm := State.dismissed_some hget
    rw [hn, Option.some.injEq] at hm
    obtain ⟨rfl, hat⟩ := hm
    rcases hskip with hnot | hnot
    · simp [Option.isNone_iff_eq_none.mp hnot] at hat
    · exact hnot hid
  · obtain ⟨path, hpath, hstep⟩ := Option.bind_eq_some_iff.mp hstep
    split at hstep
    · rename_i hfile
      cases hstep
      refine ⟨⟨h.projects, h.threads, h.states, h.nudges.stored, h.nudges.files, ?_⟩, rfl, rfl⟩
      intro id m hget hdue
      by_cases hn : Rows.get Nudge.nudgeId id t.nudges = some n
      · have hm := (State.dismissed_some hget).1
        rw [hn, Option.some.injEq] at hm
        subst hm
        obtain ⟨⟨path', raw⟩, hmem, heq⟩ := List.any_eq_true.mp hfile
        have hkey : n.nudgeId = id := Rows.key_of_get Nudge.nudgeId hn
        refine ⟨path, raw, hkey ▸ hpath, ?_⟩
        rwa [← of_decide_eq_true heq]
      · exact h.nudges.rows id m hget fun hd => hdue ⟨hd, hn⟩
    · obtain ⟨hu, hsame⟩ := h.persistNudgeDismissal hstep
      refine ⟨⟨hu.projects, hu.threads, hu.states, hu.nudges.mono ?_⟩, hsame⟩
      rintro id - - ⟨hd, hne⟩
      exact ⟨hd, fun hn => hne (Rows.key_of_get Nudge.nudgeId hn).symm⟩

theorem Inv.backfill {due : Text → Prop} {t u : State} (h : Inv due t) {l : List Nudge}
    (hstep : l.foldlM State.backfillNudge t = some u) :
    Inv (fun id => due id ∧ ∀ n ∈ l, Rows.get Nudge.nudgeId id t.nudges ≠ some n) u ∧
      SameRows t u := by
  induction l generalizing due t with
  | nil =>
    cases hstep
    exact ⟨⟨h.projects, h.threads, h.states, h.nudges.mono fun _ _ _ hd => ⟨hd, by simp⟩⟩, rfl,
      rfl⟩
  | cons n l ih =>
    rw [List.foldlM_cons] at hstep
    obtain ⟨m, hm, hstep⟩ := Option.bind_eq_some_iff.mp hstep
    obtain ⟨hinv, hsame⟩ := h.backfillNudge hm
    obtain ⟨hu, hlater⟩ := ih hinv hstep
    refine ⟨⟨hu.projects, hu.threads, hu.states, hu.nudges.mono ?_⟩,
      hlater.nudges.trans hsame.nudges, hlater.ids.trans hsame.ids⟩
    rintro id - - ⟨⟨hd, hn⟩, hl⟩
    rw [hsame.nudges] at hl
    exact ⟨hd, List.forall_mem_cons.mpr ⟨hn, hl⟩⟩

theorem Inv.backfillNudgeDismissals {due : Text → Prop} {t u : State} (h : Inv due t)
    (hstep : t.backfillNudgeDismissals = some u) :
    Inv (fun _ => False) u ∧ SameRows t u := by
  obtain ⟨hu, hsame⟩ := h.backfill hstep
  refine ⟨⟨hu.projects, hu.threads, hu.states, hu.nudges.mono ?_⟩, hsame⟩
  rintro id n hget ⟨-, hall⟩
  have hn := (State.dismissed_some hget).1
  rw [hsame.nudges] at hn
  exact hall n (Rows.mem_of_get Nudge.nudgeId hn) hn

/-- New rows, with the dismissed ones as they were: the new dismissals are due. -/
theorem Inv.withNudges {t : State} (h : Inv (fun _ => False) t) {nudges : List Nudge}
    (hstored : ∀ id n, Rows.get Nudge.nudgeId id nudges = some n →
      n.Stored ∧ n.projectId ∈ t.projectIds)
    (hkeep : ∀ id n, t.dismissed id = some n → Rows.get Nudge.nudgeId id nudges = some n) :
    Inv (fun id => t.dismissed id = none) { t with nudges := nudges } := by
  have hrow : ∀ id n, t.dismissed id = some n →
      State.dismissed { t with nudges := nudges } id = some n := fun id n hn =>
    State.dismissed_of_get (hkeep id n hn) (State.dismissed_some hn).2
  refine ⟨h.projects.frame rfl fun _ => rfl, h.threads.frame rfl rfl fun _ => rfl,
    h.states.frame (SameFiles.of_eq rfl rfl) fun _ => rfl, hstored, ?_, ?_⟩
  · intro id hid path raw hmem hhead
    obtain ⟨n, dismissedAt, hn⟩ := h.nudges.files id hid path raw hmem hhead
    exact ⟨n, dismissedAt, hrow _ _ hn.row, hn.dismissed, hn.project, hn.path, hn.raw⟩
  · intro id n hget hdue
    obtain ⟨m, hm⟩ := Option.ne_none_iff_exists'.mp hdue
    have hnm := hrow id m hm
    rw [hget, Option.some.injEq] at hnm
    subst hnm
    exact h.nudges.rows id n hm not_false

theorem Inv.dismissNudge {t u : State} (h : Inv (fun _ => False) t) {nudgeId : Text} {now : Int64}
    (hnow : 0 < now) (hstep : t.dismissNudge nudgeId now = some u) : Inv (fun _ => False) u := by
  unfold State.dismissNudge at hstep
  split at hstep
  · cases hstep
    exact h
  · rename_i n hget
    split at hstep
    · cases hstep
      exact h
    · rename_i hnot
      have hkey : n.nudgeId = nudgeId := Rows.key_of_get Nudge.nudgeId hget
      obtain ⟨hn, hid⟩ := h.nudges.stored nudgeId n hget
      have hnext : Inv (fun id => t.dismissed id = none) { t with
          nudges := Rows.put Nudge.nudgeId { n with dismissedAt := some now } t.nudges } := by
        refine h.withNudges (fun id m hm => ?_) fun id m hm => ?_
        · rw [Rows.get_put] at hm
          split at hm
          · cases hm
            refine ⟨⟨hn.regular, hn.named, hn.kind, hn.projectId, ?_⟩, hid⟩
            rintro at' ⟨⟩
            exact hnow
          · exact h.nudges.stored id m hm
        · obtain ⟨hm, hat⟩ := State.dismissed_some hm
          rw [Rows.get_put, if_neg]
          · exact hm
          · rintro rfl
            rw [hkey, hget, Option.some.injEq] at hm
            exact hnot (hm ▸ hat)
      obtain ⟨hu, hsame⟩ := hnext.persistNudgeDismissal hstep
      refine ⟨hu.projects, hu.threads, hu.states, hu.nudges.mono ?_⟩
      rintro id m hm ⟨hd, hne⟩
      rw [State.dismissed, hsame.nudges, Rows.get_put, if_neg (show n.nudgeId ≠ id from fun heq =>
        hne (heq.symm.trans hkey))] at hm
      rw [State.dismissed, hm] at hd
      cases hd

theorem Inv.dismissStaleVariants {t u : State} (h : Inv (fun _ => False) t) {n : Nudge}
    {now : Int64} (hnow : 0 < now) (hstep : t.dismissStaleVariants n now = some u) :
    Inv (fun _ => False) u ∧ u.projectIds = t.projectIds := by
  refine (Inv.backfillNudgeDismissals (h.withNudges ?_ ?_) hstep).imp_right fun hsame => hsame.ids
  · intro id m hget
    rw [Rows.get_map Nudge.nudgeId (fun a => by split <;> rfl), Option.map_eq_some_iff] at hget
    obtain ⟨a, ha, rfl⟩ := hget
    obtain ⟨hstored, hid⟩ := h.nudges.stored id a ha
    split
    · refine ⟨⟨hstored.regular, hstored.named, hstored.kind, hstored.projectId, ?_⟩, hid⟩
      rintro at' ⟨⟩
      exact hnow
    · exact ⟨hstored, hid⟩
  · intro id m hm
    obtain ⟨hm, hat⟩ := State.dismissed_some hm
    rw [Rows.get_map Nudge.nudgeId (fun a => by split <;> rfl), hm, Option.map_some,
      if_neg]
    intro hsame
    simp [State.sameSubject] at hsame
    simp [hsame] at hat

/-! A candidate's nudge -/

theorem mem_hexText {hash : UInt64} {b : UInt8} (h : b ∈ hexText hash) : 48 ≤ b.toNat := by
  obtain ⟨i, -, rfl⟩ := List.mem_map.mp h
  have hdigit : ∀ d < 16, 48 ≤ (Json.hexDigit d).toNat := by decide
  exact hdigit _ (Nat.mod_lt _ (by decide))

theorem not_mem_buildNudgeId (input : NudgeCandidateInput) {b : UInt8}
    (hb : b ∉ ascii "nudge-") (hlow : b.toNat < 48) : b ∉ buildNudgeId input := by
  intro hm
  rcases List.mem_append.mp hm with hm | hm
  · exact hb hm
  · have hdigit := mem_hexText hm
    omega

theorem NudgeCandidateInput.stored (input : NudgeCandidateInput) (text : Bytes) (metaJson : Json)
    (h : (cString input.projectId).val ≠ []) : (input.nudge text metaJson).Stored := by
  have hid : (input.nudge text metaJson).nudgeId.val = buildNudgeId input :=
    val_cString (not_mem_buildNudgeId input (by decide) (by decide))
  refine ⟨⟨?_, ?_⟩, ?_, ?_, h, ?_⟩
  · rw [hid]
    exact not_mem_buildNudgeId input (by decide) (by decide)
  · rw [hid]
    have htake : (buildNudgeId input).take 2 = ascii "nu" := by
      rw [buildNudgeId, List.take_append_of_le_length (by decide)]
      decide
    rw [htake]
    decide
  · rw [hid, buildNudgeId]
    exact List.append_ne_nil_of_left_ne_nil (by decide) _
  · show (cString input.kind.text).val ≠ []
    cases input.kind <;> decide
  · rintro at' ⟨⟩

theorem Inv.recordNudge {t u : State} (h : Inv (fun _ => False) t) {input : NudgeCandidateInput}
    {shouldNudge : Bool} {text : Bytes} {metaJson : Json} {now : Int64} (hnow : 0 < now)
    (hstep : t.recordNudge input shouldNudge text metaJson now = some u) :
    Inv (fun _ => False) u := by
  simp only [State.recordNudge] at hstep
  split at hstep
  · cases hstep
  · rename_i hids
    have hproject : (input.nudge text metaJson).projectId ∈ t.projectIds := by
      by_contra hnot
      exact hids (.inl hnot)
    have hn := input.stored text metaJson (h.projects.named _ hproject)
    split at hstep
    · cases hstep
      exact h
    · split at hstep
      · cases hstep
        exact h
      · obtain ⟨m, hm, hu⟩ := Option.map_eq_some_iff.mp hstep
        obtain ⟨hminv, hids'⟩ := h.dismissStaleVariants hnow hm
        split at hu
        · subst hu
          exact hminv
        · rename_i hnew
          rw [Option.not_isSome_iff_eq_none] at hnew
          subst hu
          have hnext : Inv (fun id => m.dismissed id = none) { m with
              nudges := Rows.put Nudge.nudgeId (input.nudge text metaJson) m.nudges } := by
            refine hminv.withNudges (fun id k hk => ?_) fun id k hk => ?_
            · rw [Rows.get_put] at hk
              split at hk
              · cases hk
                exact ⟨hn, hids' ▸ hproject⟩
              · exact hminv.nudges.stored id k hk
            · have hget := (State.dismissed_some hk).1
              rw [Rows.get_put, if_neg]
              · exact hget
              · rintro rfl
                rw [hnew] at hget
                cases hget
          refine ⟨hnext.projects, hnext.threads, hnext.states, hnext.nudges.mono ?_⟩
          intro id k hk hd
          obtain ⟨hk, hat⟩ := State.dismissed_some hk
          rw [Rows.get_put] at hk
          split at hk
          · cases hk
            cases hat
          · rw [State.dismissed_of_get hk hat] at hd
            cases hd

/-! A project's mode -/

theorem encode_mode {projectId : Text} {p q : Project} {doc : Json} {raw : Blob}
    (hmode : q.privacyMode = p.privacyMode)
    (hkey : ∀ keyId, p.projectKeyId = some keyId → keyId ≠ [] → q.projectKeyId = some keyId)
    (h : encode projectId p doc = some raw) : encode projectId q doc = some raw := by
  unfold encode at h ⊢
  rw [hmode]
  split at h
  · cases h
  · rename_i hdoc
    rw [if_neg hdoc]
    split at h
    · exact h
    · split at h
      · cases h
      · rename_i keyId hk
        split at h
        · cases h
        · rename_i hne
          rw [hkey keyId hk hne]
          simp only [if_neg hne]
          exact h

theorem Inv.patchPrivacyMode {due : Text → Prop} {t u : State} (h : Inv due t) {projectId : Text}
    {mode : PrivacyMode} {newKey : Bytes}
    (hmode : mode = (t.project projectId).privacyMode ∨ (t.project projectId).files = [])
    (hstep : t.patchPrivacyMode projectId mode newKey = some u) : Inv due u := by
  simp only [State.patchPrivacyMode] at hstep
  split at hstep
  case isFalse => cases hstep
  case isTrue hid =>
  have hu := (Option.some.inj hstep).symm
  subst hu
  have hsame : ∀ root, SameFiles root t (t.update projectId { t.project projectId with
      privacyMode := mode
      projectKeyId := if mode = .encryptedGit ∧ ((t.project projectId).projectKeyId.getD [] = [])
        then some newKey else (t.project projectId).projectKeyId }) := by
    intro root
    refine SameFiles.of_update rfl rfl (fun _ _ _ => Iff.rfl) fun path raw doc hmem hraw => ?_
    rcases hmode with hmode | hfiles
    · refine encode_mode hmode (fun keyId hkey hne => ?_) hraw
      dsimp only
      rw [if_neg]
      · exact hkey
      · rintro ⟨-, hnone⟩
        rw [hkey] at hnone
        exact hne hnone
    · rw [hfiles] at hmem
      cases hmem
  exact ⟨h.projects.frame rfl fun id => update_same Project.manifest (by rfl) id,
    h.threads.frame rfl rfl fun id => update_same Project.threadManifests (by rfl) id,
    h.states.frame (hsame _) fun _ => rfl, h.nudges.frame (hsame _) rfl⟩

/-! Runs -/

/-- The step leaves the side files readable: no thread with a state row is created or deleted,
the state of a stored thread is updated under a regular identifier, and a project with side
files keeps its mode. -/
def Harmless (t : State) : Step → Prop
  | .createThread thread => Rows.get StateRow.threadId thread.threadId t.states = none
  | .deleteThread threadId _ => Rows.get StateRow.threadId threadId t.states = none
  | .updateState s => Rows.get Thread.threadId s.threadId t.threads = none ∨ Regular s.threadId
  | .patchPrivacyMode projectId mode _ =>
    mode = (t.project projectId).privacyMode ∨ (t.project projectId).files = []
  | _ => True

instance (id : Text) : Decidable (Regular id) := inferInstanceAs (Decidable (_ ∧ _))

instance (t : State) : (l : Step) → Decidable (Harmless t l)
  | .createThread _ | .deleteThread _ _ => inferInstanceAs (Decidable (_ = none))
  | .updateState _ | .patchPrivacyMode _ _ _ => inferInstanceAs (Decidable (_ ∨ _))
  | .patchThread _ _ _ _ | .recordNudge _ _ _ _ _ | .dismissNudge _ _ =>
    inferInstanceAs (Decidable True)

theorem Inv.step {t u : State} {l : Step} (h : Inv (fun _ => False) t) (hl : Harmless t l)
    (hstep : t.step l = some u) : Inv (fun _ => False) u := by
  cases l with
  | createThread thread =>
    simp only [State.step, State.createThread] at hstep
    split at hstep
    · cases hstep
    · rename_i hnone
      rw [Option.not_isSome_iff_eq_none] at hnone
      refine h.persistAiThread (fun old hold => ?_) (fun _ => hl) hstep
      rw [hnone] at hold
      cases hold
  | patchThread threadId title cardId updatedAt =>
    obtain ⟨thread, hget, hstep⟩ := Option.bind_eq_some_iff.mp hstep
    have hkey : thread.threadId = threadId := Rows.key_of_get Thread.threadId hget
    rw [← hkey] at hget
    refine h.persistAiThread (fun old hold => ?_) (fun hnone => ?_) hstep
    · cases hget.symm.trans hold
      rfl
    · cases hget.symm.trans hnone
  | deleteThread threadId cascade => exact h.deleteThread hl hstep
  | updateState s => exact h.upsertThreadCompactionState hl hstep
  | recordNudge input shouldNudge text metaJson now =>
    simp only [State.step] at hstep
    split at hstep
    · rename_i hnow
      exact h.recordNudge hnow hstep
    · cases hstep
  | dismissNudge nudgeId now =>
    simp only [State.step] at hstep
    split at hstep
    · rename_i hnow
      exact h.dismissNudge hnow hstep
    · cases hstep
  | patchPrivacyMode projectId mode newKey => exact h.patchPrivacyMode hl hstep

theorem Inv.run {t u : State} {ls : List Step} (h : Fresh t)
    (hls : Machine.Along State.step Harmless t ls) (hrun : Machine.run State.step t ls = some u) :
    Inv (fun _ => False) u :=
  Machine.run_invariant_along State.step (fun _ _ _ h hl hstep => h.step hl hstep)
    (inv_of_fresh h) hls hrun

end AiDurability

end HolderDaemon
