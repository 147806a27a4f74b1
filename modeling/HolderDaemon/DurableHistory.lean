import HolderDaemon.DurableFiles

/-!
What the durable AI files say: they hold the state rows of the live threads and the dismissed
nudges. The operations on threads and their states keep this.
-/

set_option autoImplicit false

open Bytes

namespace HolderDaemon

namespace AiDurability

/-- Empty projects with a manifest. -/
structure Fresh (t : State) : Prop where
  named : ∀ id ∈ t.projectIds, id.val ≠ []
  manifest : ∀ id ∈ t.projectIds, (t.project id).manifest = true
  threadManifests : ∀ id ∈ t.projectIds, (t.project id).threadManifests = []
  files : ∀ id ∈ t.projectIds, (t.project id).files = []
  threads : t.threads = []
  states : t.states = []
  nudges : t.nudges = []

/-- The state row of a live thread, with the thread's project. -/
def State.kept (t : State) (id : Text) : Option (Text × StateRow) :=
  (Rows.get Thread.threadId id t.threads).bind fun thread =>
    (Rows.get StateRow.threadId id t.states).map fun row => (thread.projectId, row)

def State.dismissed (t : State) (id : Text) : Option Nudge :=
  (Rows.get Nudge.nudgeId id t.nudges).filter fun n => n.dismissedAt.isSome

/-- The file holds the state row of a thread of the project. -/
structure HoldsState (t : State) (projectId : Text) (path : Path) (raw : Blob)
    (s : ThreadCompactionState) : Prop where
  kept : t.kept s.threadId = some (projectId, s.row)
  regular : Regular s.threadId
  path : statePath s.threadId = some path
  raw : encode projectId (t.project projectId) (stateJson s) = some raw

/-- The file holds the row of a dismissed nudge of the project. -/
structure HoldsNudge (t : State) (projectId : Text) (path : Path) (raw : Blob) (n : Nudge)
    (dismissedAt : Int64) : Prop where
  row : t.dismissed n.nudgeId = some n
  dismissed : n.dismissedAt = some dismissedAt
  project : n.projectId = projectId
  path : nudgePath n.nudgeId = some path
  raw : encode projectId (t.project projectId) (nudgeJson n dismissedAt) = some raw

structure ProjectsKept (t : State) : Prop where
  named : ∀ id ∈ t.projectIds, id.val ≠ []
  manifest : ∀ id ∈ t.projectIds, (t.project id).manifest = true

/-- The thread manifests and the thread rows are the same. -/
structure ThreadsKept (t : State) : Prop where
  live : ∀ id thread, Rows.get Thread.threadId id t.threads = some thread →
    thread.projectId ∈ t.projectIds ∧ thread ∈ (t.project thread.projectId).threadManifests
  manifests : ∀ id ∈ t.projectIds, ∀ thread ∈ (t.project id).threadManifests,
    thread.projectId = id ∧ Rows.get Thread.threadId thread.threadId t.threads = some thread

/-- The state files and the state rows of the live threads are the same. -/
structure StatesKept (t : State) : Prop where
  files : ∀ id ∈ t.projectIds, ∀ path raw, (path, raw) ∈ (t.project id).files →
    path.head? = some (ascii "ai_thread_state") → ∃ s, HoldsState t id path raw s
  rows : ∀ id projectId row, t.kept id = some (projectId, row) →
    projectId ∈ t.projectIds ∧ Regular id ∧ ∃ path raw, statePath id = some path ∧
      (path, raw) ∈ (t.project projectId).files

/-- The dismissal files and the dismissed rows are the same, but for the dismissals that are
still `due` to be written. -/
structure NudgesKept (due : Text → Prop) (t : State) : Prop where
  stored : ∀ id n, Rows.get Nudge.nudgeId id t.nudges = some n →
    n.Stored ∧ n.projectId ∈ t.projectIds
  files : ∀ id ∈ t.projectIds, ∀ path raw, (path, raw) ∈ (t.project id).files →
    path.head? = some (ascii "ai_nudge_dismissals") →
      ∃ n dismissedAt, HoldsNudge t id path raw n dismissedAt
  rows : ∀ id n, t.dismissed id = some n → ¬ due id →
    ∃ path raw, nudgePath id = some path ∧ (path, raw) ∈ (t.project n.projectId).files

structure Inv (due : Text → Prop) (t : State) : Prop where
  projects : ProjectsKept t
  threads : ThreadsKept t
  states : StatesKept t
  nudges : NudgesKept due t

theorem inv_of_fresh {t : State} (h : Fresh t) : Inv (fun _ => False) t where
  projects := ⟨h.named, h.manifest⟩
  threads := ⟨by simp [h.threads], fun id hid thread hmem => by
    simp [h.threadManifests id hid] at hmem⟩
  states := ⟨fun id hid path raw hmem => by simp [h.files id hid] at hmem, by
    simp [State.kept, h.threads]⟩
  nudges := ⟨by simp [h.nudges], fun id hid path raw hmem => by simp [h.files id hid] at hmem, by
    simp [State.dismissed, h.nudges]⟩

/-! The roots -/

theorem two_lt_length_state : 2 < (ascii "ai_thread_state").length := by decide

theorem two_lt_length_nudge : 2 < (ascii "ai_nudge_dismissals").length := by decide

theorem roots_ne : ascii "ai_thread_state" ≠ ascii "ai_nudge_dismissals" := by
  rw [Ne, ascii_inj]
  decide

theorem statePath_head {id : Text} {path : Path} (hid : Regular id)
    (h : statePath id = some path) : path.head? = some (ascii "ai_thread_state") :=
  (relativePath_shape two_lt_length_state hid h).1

theorem nudgePath_head {id : Text} {path : Path} (hid : Regular id)
    (h : nudgePath id = some path) : path.head? = some (ascii "ai_nudge_dismissals") :=
  (relativePath_shape two_lt_length_nudge hid h).1

/-! Updates of a project -/

@[simp] theorem State.update_projectIds (t : State) (id : Text) (p : Project) :
    (t.update id p).projectIds = t.projectIds := rfl

@[simp] theorem State.update_threads (t : State) (id : Text) (p : Project) :
    (t.update id p).threads = t.threads := rfl

@[simp] theorem State.update_states (t : State) (id : Text) (p : Project) :
    (t.update id p).states = t.states := rfl

@[simp] theorem State.update_nudges (t : State) (id : Text) (p : Project) :
    (t.update id p).nudges = t.nudges := rfl

@[simp] theorem State.update_project (t : State) (id : Text) (p : Project) :
    (t.update id p).project = Function.update t.project id p := rfl

/-- A field that the new row of a project leaves as it was. -/
theorem update_same {β : Type} (f : Project → β) {project : Text → Project} {id : Text}
    {p : Project} (h : f p = f (project id)) (other : Text) :
    f (Function.update project id p other) = f (project other) := by
  by_cases hid : other = id
  · rw [hid, Function.update_self, h]
  · rw [Function.update_of_ne hid]

theorem encode_writeFile {project : Text → Project} (projectId : Text) (path : Path) (raw : Blob)
    (id : Text) (doc : Json) :
    encode id (Function.update project projectId ((project projectId).writeFile path raw) id) doc =
      encode id (project id) doc :=
  encode_congr (update_same Project.privacyMode (by rfl) id)
    (update_same Project.projectKeyId (by rfl) id) doc

/-! What leaves each part of the invariant alone -/

theorem ProjectsKept.frame {t u : State} (h : ProjectsKept t) (hids : u.projectIds = t.projectIds)
    (hmanifest : ∀ id, (u.project id).manifest = (t.project id).manifest) : ProjectsKept u where
  named := hids ▸ h.named
  manifest := fun id hid => (hmanifest id).trans (h.manifest id (hids ▸ hid))

theorem ThreadsKept.frame {t u : State} (h : ThreadsKept t) (hids : u.projectIds = t.projectIds)
    (hthreads : u.threads = t.threads)
    (hmanifests : ∀ id, (u.project id).threadManifests = (t.project id).threadManifests) :
    ThreadsKept u where
  live := fun id thread hget => by
    rw [hids, hmanifests]
    exact h.live id thread (hthreads ▸ hget)
  manifests := fun id hid thread hmem => by
    rw [hthreads]
    exact h.manifests id (hids ▸ hid) thread (hmanifests id ▸ hmem)

/-- Files under one root stay, and are read as they were. -/
structure SameFiles (root : String) (t u : State) : Prop where
  ids : u.projectIds = t.projectIds
  files : ∀ id ∈ t.projectIds, ∀ path raw, path.head? = some (ascii root) →
    ((path, raw) ∈ (u.project id).files ↔ (path, raw) ∈ (t.project id).files)
  raw : ∀ id ∈ t.projectIds, ∀ path raw doc, (path, raw) ∈ (t.project id).files →
    encode id (t.project id) doc = some raw → encode id (u.project id) doc = some raw

theorem StatesKept.frame {t u : State} (h : StatesKept t)
    (hsame : SameFiles "ai_thread_state" t u) (hkept : ∀ id, u.kept id = t.kept id) :
    StatesKept u where
  files := fun id hid path raw hmem hhead => by
    rw [hsame.ids] at hid
    have hmem := (hsame.files id hid path raw hhead).mp hmem
    obtain ⟨s, hs⟩ := h.files id hid path raw hmem hhead
    exact ⟨s, (hkept _).trans hs.kept, hs.regular, hs.path,
      hsame.raw id hid path raw _ hmem hs.raw⟩
  rows := fun id projectId row hget => by
    obtain ⟨hid, hregular, path, raw, hpath, hmem⟩ :=
      h.rows id projectId row ((hkept id).symm.trans hget)
    refine ⟨hsame.ids ▸ hid, hregular, path, raw, hpath, ?_⟩
    exact (hsame.files projectId hid path raw (statePath_head hregular hpath)).mpr hmem

theorem State.dismissed_some {t : State} {id : Text} {n : Nudge} (h : t.dismissed id = some n) :
    Rows.get Nudge.nudgeId id t.nudges = some n ∧ n.dismissedAt.isSome = true :=
  Option.filter_eq_some_iff.mp h

theorem NudgesKept.frame {due : Text → Prop} {t u : State} (h : NudgesKept due t)
    (hsame : SameFiles "ai_nudge_dismissals" t u) (hnudges : u.nudges = t.nudges) :
    NudgesKept due u where
  stored := by
    rw [hnudges, hsame.ids]
    exact h.stored
  files := fun id hid path raw hmem hhead => by
    rw [hsame.ids] at hid
    have hmem := (hsame.files id hid path raw hhead).mp hmem
    obtain ⟨n, dismissedAt, hn⟩ := h.files id hid path raw hmem hhead
    refine ⟨n, dismissedAt, ?_, hn.dismissed, hn.project, hn.path,
      hsame.raw id hid path raw _ hmem hn.raw⟩
    rw [State.dismissed, hnudges]
    exact hn.row
  rows := fun id n hget hdue => by
    rw [State.dismissed, hnudges] at hget
    obtain ⟨path, raw, hpath, hmem⟩ := h.rows id n hget hdue
    have hrow := State.dismissed_some hget
    obtain ⟨hstored, hid⟩ := h.stored id n hrow.1
    have hkey : n.nudgeId = id := Rows.key_of_get Nudge.nudgeId hrow.1
    refine ⟨path, raw, hpath, (hsame.files n.projectId hid path raw ?_).mpr hmem⟩
    exact nudgePath_head (hkey ▸ hstored.regular) hpath

theorem SameFiles.of_eq {root : String} {t u : State} (hids : u.projectIds = t.projectIds)
    (hproject : u.project = t.project) : SameFiles root t u where
  ids := hids
  files := fun id _ path raw _ => by rw [hproject]
  raw := fun id _ path raw doc _ h => by rwa [hproject]

theorem SameFiles.of_update {root : String} {t u : State} {id : Text} {p : Project}
    (hids : u.projectIds = t.projectIds) (hproject : u.project = Function.update t.project id p)
    (hfiles : ∀ path raw, path.head? = some (ascii root) →
      ((path, raw) ∈ p.files ↔ (path, raw) ∈ (t.project id).files))
    (hraw : ∀ path raw doc, (path, raw) ∈ (t.project id).files →
      encode id (t.project id) doc = some raw → encode id p doc = some raw) :
    SameFiles root t u where
  ids := hids
  files := fun other _ path raw hhead => by
    rw [hproject]
    by_cases hid : other = id
    · rw [hid, Function.update_self]
      exact hfiles path raw hhead
    · rw [Function.update_of_ne hid]
  raw := fun other _ path raw doc hmem h => by
    rw [hproject]
    by_cases hid : other = id
    · subst hid
      rw [Function.update_self]
      exact hraw path raw doc hmem h
    · rwa [Function.update_of_ne hid]

/-! Writing a file -/

theorem mem_files_writeFile {project : Text → Project} {projectId id : Text} {path path' : Path}
    {raw raw' : Blob} :
    (path', raw') ∈
        (Function.update project projectId ((project projectId).writeFile path raw) id).files ↔
      (id = projectId ∧ path' = path ∧ raw' = raw) ∨
        ((path', raw') ∈ (project id).files ∧ ¬ (id = projectId ∧ path' = path)) := by
  by_cases hid : id = projectId
  · subst hid
    rw [Function.update_self, Project.writeFile, Rows.mem_write]
    simp
  · rw [Function.update_of_ne hid]
    simp [hid]

theorem sameFiles_writeFile {root other : String} {t u : State} {projectId : Text} {path : Path}
    {raw : Blob} (hids : u.projectIds = t.projectIds)
    (hproject : u.project =
      Function.update t.project projectId ((t.project projectId).writeFile path raw))
    (hhead : path.head? = some (ascii other)) (hne : ascii other ≠ ascii root) :
    SameFiles root t u := by
  refine SameFiles.of_update hids hproject ?_ ?_
  · intro path' raw' hhead'
    rw [Project.writeFile, Rows.mem_write]
    refine ⟨fun h => ?_, fun h => .inr ⟨h, fun heq => ?_⟩⟩
    · rcases h with h | h
      · cases h
        rw [hhead, Option.some.injEq] at hhead'
        exact absurd hhead' hne
      · exact h.1
    · dsimp only at heq
      rw [heq, hhead, Option.some.injEq] at hhead'
      exact hne hhead'
  · intro path' raw' doc _ h
    rw [← h]
    exact encode_congr rfl rfl doc

theorem StatesKept.writeFile {t u : State} {projectId : Text} {s : ThreadCompactionState}
    {path : Path} {raw : Blob} (h : StatesKept t) (hids : u.projectIds = t.projectIds)
    (hproject : u.project =
      Function.update t.project projectId ((t.project projectId).writeFile path raw))
    (hid : projectId ∈ t.projectIds) (hregular : Regular s.threadId)
    (hpath : statePath s.threadId = some path)
    (hraw : encode projectId (t.project projectId) (stateJson s) = some raw)
    (hself : u.kept s.threadId = some (projectId, s.row))
    (hothers : ∀ id, id ≠ s.threadId → u.kept id = t.kept id)
    (hold : ∀ old row, t.kept s.threadId = some (old, row) → old = projectId) :
    StatesKept u where
  files := fun id hid' path' raw' hmem hhead => by
    rw [hids] at hid'
    rw [hproject, mem_files_writeFile] at hmem
    have hencode : ∀ doc, encode id (u.project id) doc = encode id (t.project id) doc := by
      rw [hproject]
      exact encode_writeFile _ path raw id
    rcases hmem with ⟨rfl, rfl, rfl⟩ | ⟨hmem, hne⟩
    · exact ⟨s, hself, hregular, hpath, (hencode _).trans hraw⟩
    · obtain ⟨s', hs⟩ := h.files id hid' path' raw' hmem hhead
      refine ⟨s', ?_, hs.regular, hs.path, (hencode _).trans hs.raw⟩
      -- the same thread would have had this file, in this project
      have hthread : s'.threadId ≠ s.threadId := by
        intro heq
        have hkept := hs.kept
        have hpath' := hs.path
        rw [heq] at hkept hpath'
        exact hne ⟨hold id _ hkept, Option.some.inj (hpath'.symm.trans hpath)⟩
      exact (hothers _ hthread).trans hs.kept
  rows := fun id old row hget => by
    rw [hids, hproject]
    by_cases heq : id = s.threadId
    · subst heq
      rw [hself] at hget
      cases hget
      exact ⟨hid, hregular, path, raw, hpath, mem_files_writeFile.mpr (.inl ⟨rfl, rfl, rfl⟩)⟩
    · rw [hothers id heq] at hget
      obtain ⟨hold, hregular', path', raw', hpath', hmem⟩ := h.rows id old row hget
      refine ⟨hold, hregular', path', raw', hpath', mem_files_writeFile.mpr (.inr ⟨hmem, ?_⟩)⟩
      rintro ⟨-, rfl⟩
      exact heq (relativePath_injective two_lt_length_state hregular' hregular hpath' hpath)

theorem NudgesKept.writeFile {due : Text → Prop} {t u : State} {n : Nudge} {dismissedAt : Int64}
    {path : Path} {raw : Blob} (h : NudgesKept due t) (hids : u.projectIds = t.projectIds)
    (hproject : u.project =
      Function.update t.project n.projectId ((t.project n.projectId).writeFile path raw))
    (hnudges : u.nudges = t.nudges) (hrow : t.dismissed n.nudgeId = some n)
    (hdismissed : n.dismissedAt = some dismissedAt) (hpath : nudgePath n.nudgeId = some path)
    (hraw : encode n.projectId (t.project n.projectId) (nudgeJson n dismissedAt) = some raw) :
    NudgesKept (fun id => due id ∧ id ≠ n.nudgeId) u where
  stored := by
    rw [hnudges, hids]
    exact h.stored
  files := fun id hid path' raw' hmem hhead => by
    rw [hids] at hid
    rw [hproject, mem_files_writeFile] at hmem
    have hencode : ∀ doc, encode id (u.project id) doc = encode id (t.project id) doc := by
      rw [hproject]
      exact encode_writeFile _ path raw id
    have hrows : ∀ k, u.dismissed k = t.dismissed k := by
      intro k
      rw [State.dismissed, State.dismissed, hnudges]
    rcases hmem with ⟨rfl, rfl, rfl⟩ | ⟨hmem, -⟩
    · exact ⟨n, dismissedAt, (hrows _).trans hrow, hdismissed, rfl, hpath,
        (hencode _).trans hraw⟩
    · obtain ⟨m, at', hm⟩ := h.files id hid path' raw' hmem hhead
      exact ⟨m, at', (hrows _).trans hm.row, hm.dismissed, hm.project, hm.path,
        (hencode _).trans hm.raw⟩
  rows := fun id m hget hdue => by
    rw [State.dismissed, hnudges] at hget
    rw [hproject]
    by_cases heq : id = n.nudgeId
    · subst heq
      rw [State.dismissed, hget] at hrow
      cases hrow
      exact ⟨path, raw, hpath, mem_files_writeFile.mpr (.inl ⟨rfl, rfl, rfl⟩)⟩
    · obtain ⟨path', raw', hpath', hmem⟩ := h.rows id m hget fun hd => hdue ⟨hd, heq⟩
      refine ⟨path', raw', hpath', mem_files_writeFile.mpr (.inr ⟨hmem, ?_⟩)⟩
      rintro ⟨-, rfl⟩
      have hm := (State.dismissed_some hget).1
      have hregular := (h.stored id m hm).1.regular
      have hkey : m.nudgeId = id := Rows.key_of_get Nudge.nudgeId hm
      have hregular' := (h.stored n.nudgeId n (State.dismissed_some hrow).1).1.regular
      exact heq (relativePath_injective two_lt_length_nudge (hkey ▸ hregular) hregular' hpath'
        hpath)

/-! Threads -/

/-- The row of a thread and its manifest are written. -/
theorem ThreadsKept.write {t u : State} (h : ThreadsKept t) {thread : Thread}
    (hids : u.projectIds = t.projectIds)
    (hrows : ∀ id, Rows.get Thread.threadId id u.threads =
      if thread.threadId = id then some thread else Rows.get Thread.threadId id t.threads)
    (hmanifests : ∀ id, (u.project id).threadManifests =
      if id = thread.projectId then Rows.write Thread.threadId thread (t.project id).threadManifests
      else (t.project id).threadManifests)
    (hid : thread.projectId ∈ t.projectIds)
    (hold : ∀ old, Rows.get Thread.threadId thread.threadId t.threads = some old →
      old.projectId = thread.projectId) : ThreadsKept u where
  live := fun id row hget => by
    rw [hrows] at hget
    rw [hids, hmanifests]
    split at hget
    · cases hget
      refine ⟨hid, ?_⟩
      rw [if_pos rfl]
      exact (Rows.mem_write Thread.threadId).mpr (.inl rfl)
    · rename_i hne
      obtain ⟨hth, hmem⟩ := h.live id row hget
      refine ⟨hth, ?_⟩
      split
      · refine (Rows.mem_write Thread.threadId).mpr (.inr ⟨hmem, ?_⟩)
        rw [Rows.key_of_get Thread.threadId hget]
        exact Ne.symm hne
      · exact hmem
  manifests := fun id hid' row hmem => by
    rw [hids] at hid'
    rw [hrows]
    rw [hmanifests] at hmem
    split at hmem
    · rename_i heq
      subst heq
      rcases (Rows.mem_write Thread.threadId).mp hmem with rfl | ⟨hmem, hne⟩
      · simp
      · rw [if_neg (Ne.symm hne)]
        exact h.manifests thread.projectId hid' row hmem
    · rename_i heq
      obtain ⟨hth, hget⟩ := h.manifests id hid' row hmem
      refine ⟨hth, ?_⟩
      rwa [if_neg]
      intro hkey
      rw [← hkey] at hget
      exact heq (hth.symm.trans (hold row hget))

/-- The row of a thread and its manifest are dropped. -/
theorem ThreadsKept.drop {t u : State} (h : ThreadsKept t) {thread : Thread} {threadId : Text}
    (hthread : Rows.get Thread.threadId threadId t.threads = some thread)
    (hids : u.projectIds = t.projectIds)
    (hrows : ∀ id, Rows.get Thread.threadId id u.threads =
      if id = threadId then none else Rows.get Thread.threadId id t.threads)
    (hmanifests : ∀ id, (u.project id).threadManifests =
      if id = thread.projectId then Rows.drop Thread.threadId threadId (t.project id).threadManifests
      else (t.project id).threadManifests) : ThreadsKept u where
  live := fun id row hget => by
    rw [hrows] at hget
    rw [hids, hmanifests]
    split at hget
    · cases hget
    · rename_i hne
      obtain ⟨hth, hmem⟩ := h.live id row hget
      refine ⟨hth, ?_⟩
      split
      · refine (Rows.mem_drop Thread.threadId).mpr ⟨hmem, ?_⟩
        rwa [Rows.key_of_get Thread.threadId hget]
      · exact hmem
  manifests := fun id hid' row hmem => by
    rw [hids] at hid'
    rw [hrows]
    rw [hmanifests] at hmem
    split at hmem
    · obtain ⟨hmem, hne⟩ := (Rows.mem_drop Thread.threadId).mp hmem
      rw [if_neg hne]
      exact h.manifests id hid' row hmem
    · rename_i heq
      obtain ⟨hth, hget⟩ := h.manifests id hid' row hmem
      refine ⟨hth, ?_⟩
      rwa [if_neg]
      intro hkey
      rw [hkey, hthread, Option.some.injEq] at hget
      exact heq (hth.symm.trans (congrArg Thread.projectId hget.symm))

theorem threadManifests_update {t : State} {projectId : Text} {p : Project} (id : Text) :
    ((t.update projectId p).project id).threadManifests =
      if id = projectId then p.threadManifests else (t.project id).threadManifests := by
  rw [State.update_project]
  by_cases heq : id = projectId
  · rw [heq, Function.update_self, if_pos rfl]
  · rw [Function.update_of_ne heq, if_neg heq]

theorem Inv.persistAiThread {due : Text → Prop} {t u : State} (h : Inv due t) {thread : Thread}
    (hproject : ∀ old, Rows.get Thread.threadId thread.threadId t.threads = some old →
      old.projectId = thread.projectId)
    (hnew : Rows.get Thread.threadId thread.threadId t.threads = none →
      Rows.get StateRow.threadId thread.threadId t.states = none)
    (hstep : State.persistAiThread
      { t with threads := Rows.put Thread.threadId thread t.threads } thread = some u) : Inv due u := by
  unfold State.persistAiThread at hstep
  split at hstep
  case isFalse => cases hstep
  case isTrue hid =>
  have hu := (Option.some.inj hstep).symm
  subst hu
  refine ⟨h.projects.frame rfl fun id => update_same Project.manifest (by rfl) id, ?_, ?_, ?_⟩
  · refine h.threads.write rfl (Rows.get_put Thread.threadId · thread t.threads) (fun id => ?_) hid
      hproject
    rw [threadManifests_update]
    split
    · rename_i heq
      rw [heq]
    · rfl
  · refine h.states.frame (SameFiles.of_update rfl rfl (fun _ _ _ => Iff.rfl) ?_) fun id => ?_
    · exact fun path raw doc _ hraw => hraw
    · simp only [State.kept, State.update_threads, State.update_states, Rows.get_put]
      split
      · rename_i heq
        subst heq
        cases hold : Rows.get Thread.threadId thread.threadId t.threads with
        | none => simp [hnew hold]
        | some old => simp [hproject old hold]
      · rfl
  · refine h.nudges.frame (SameFiles.of_update rfl rfl (fun _ _ _ => Iff.rfl) ?_) rfl
    exact fun path raw doc _ hraw => hraw

theorem Inv.deleteThread {due : Text → Prop} {t u : State} (h : Inv due t) {threadId : Text}
    {cascade : Bool}
    (hrow : Rows.get StateRow.threadId threadId t.states = none)
    (hstep : t.deleteThread threadId cascade = some u) : Inv due u := by
  obtain ⟨thread, hthread, hstep⟩ := Option.bind_eq_some_iff.mp hstep
  split at hstep
  case isFalse => cases hstep
  case isTrue hid =>
  have hu := (Option.some.inj hstep).symm
  subst hu
  refine ⟨h.projects.frame rfl fun id => update_same Project.manifest (by rfl) id, ?_, ?_, ?_⟩
  · refine h.threads.drop hthread rfl (Rows.get_drop Thread.threadId threadId · t.threads)
      fun id => ?_
    show ((t.update thread.projectId _).project id).threadManifests = _
    rw [threadManifests_update]
    split
    · rename_i heq
      rw [heq]
    · rfl
  · refine h.states.frame (SameFiles.of_update rfl rfl (fun _ _ _ => Iff.rfl) ?_) fun id => ?_
    · exact fun path raw doc _ hraw => hraw
    · simp only [State.kept, Rows.get_drop]
      by_cases heq : id = threadId
      · subst heq
        simp [hrow]
      · cases cascade <;> simp [heq, Rows.get_drop]
  · refine h.nudges.frame (SameFiles.of_update rfl rfl (fun _ _ _ => Iff.rfl) ?_) rfl
    exact fun path raw doc _ hraw => hraw

/-! Thread states -/

theorem Inv.upsertThreadCompactionState {due : Text → Prop} {t u : State} (h : Inv due t)
    {s : ThreadCompactionState}
    (hregular : Rows.get Thread.threadId s.threadId t.threads = none ∨ Regular s.threadId)
    (hstep : t.upsertThreadCompactionState s = some u) : Inv due u := by
  obtain ⟨m, hm, hu⟩ := Option.map_eq_some_iff.mp hstep
  subst hu
  have hother : ∀ id, id ≠ s.threadId → Rows.get StateRow.threadId id
      (Rows.put StateRow.threadId s.row t.states) = Rows.get StateRow.threadId id t.states :=
    fun id hne => by
      rw [Rows.get_put, s.row_threadId, if_neg (Ne.symm hne)]
  unfold State.persistThreadCompactionState at hm
  split at hm
  · rename_i hnone
    cases hm
    refine ⟨h.projects.frame rfl fun _ => rfl, h.threads.frame rfl rfl fun _ => rfl,
      h.states.frame (SameFiles.of_eq rfl rfl) fun id => ?_,
      h.nudges.frame (SameFiles.of_eq rfl rfl) rfl⟩
    simp only [State.kept]
    by_cases heq : id = s.threadId
    · simp [heq, hnone]
    · rw [hother id heq]
  · rename_i thread hthread
    have hreg : Regular s.threadId := hregular.resolve_left (by simp [hthread])
    split at hm
    case isFalse => cases hm
    case isTrue hid =>
    simp only [h.projects.manifest _ hid, Bool.not_true, Bool.false_eq_true, if_false] at hm
    obtain ⟨path, hpath, hm⟩ := Option.bind_eq_some_iff.mp hm
    obtain ⟨raw, hraw, hm⟩ := Option.bind_eq_some_iff.mp hm
    have hu := (Option.some.inj hm).symm
    subst hu
    have hhead := statePath_head hreg hpath
    refine ⟨h.projects.frame rfl fun id => update_same Project.manifest (by rfl) id,
      h.threads.frame rfl rfl fun id => update_same Project.threadManifests (by rfl) id, ?_,
      h.nudges.frame (sameFiles_writeFile rfl rfl hhead roots_ne) rfl⟩
    refine h.states.writeFile rfl rfl hid hreg hpath hraw ?_ (fun id hne => ?_)
      fun old row hget => ?_
    · simp [State.kept, Rows.get_put, hthread, ThreadCompactionState.row]
    · simp only [State.kept, State.update_threads, State.update_states, hother id hne]
    · simp only [State.kept, hthread, Option.bind_some, Option.map_eq_some_iff] at hget
      obtain ⟨_, _, heq⟩ := hget
      exact (Prod.mk.inj heq).1.symm

end AiDurability

end HolderDaemon
